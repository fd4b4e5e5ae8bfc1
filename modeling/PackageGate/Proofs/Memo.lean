import PackageGate.Registry.Memo

/-!
# What a memo knows

- `Memo.manifest?_keepManifest`, `Memo.latest?_keepLatest`: what is remembered once an answer
  has come in. The answers about versions and about manifests are kept apart.
-/

namespace PackageGate

namespace Memo

theorem lookup_filter_ne {α β : Type} [BEq α] [LawfulBEq α] [DecidableEq α] {a b : α}
    (hne : a ≠ b) (xs : List (α × β)) : (xs.filter (·.1 ≠ b)).lookup a = xs.lookup a := by
  induction xs with
  | nil => rfl
  | cons x xs ih =>
    by_cases hx : x.1 = b
    · have hax : (a == x.1) = false := by
        rw [hx]
        exact beq_false_of_ne hne
      rw [List.filter_cons_of_neg (by simpa using hx), ih, List.lookup_cons, hax]
    · rw [List.filter_cons_of_pos (by simpa using hx), List.lookup_cons, List.lookup_cons, ih]

/-- A successful answer is remembered for its package, and for no other. -/
theorem manifest?_keepManifest (memo : Memo) (p q : Package) (reply : Except Failure Manifest) :
    (memo.keepManifest p reply).manifest? q =
      if q = p then reply.toOption.or (memo.manifest? q) else memo.manifest? q := by
  cases reply with
  | error e =>
    split <;> rfl
  | ok m =>
    show List.lookup q ((p, m) :: memo.manifests.filter (·.1 ≠ p)) = _
    rw [List.lookup_cons]
    by_cases hq : q = p
    · rw [if_pos hq, hq, beq_self_eq_true]
      rfl
    · rw [if_neg hq, beq_false_of_ne hq, lookup_filter_ne hq]
      rfl

/-- What is remembered once stays remembered. -/
theorem isSome_manifest?_keepManifest {memo : Memo} {q : Package}
    (h : (memo.manifest? q).isSome = true) (p : Package) (reply : Except Failure Manifest) :
    ((memo.keepManifest p reply).manifest? q).isSome = true := by
  rw [manifest?_keepManifest]
  split
  · rw [Option.isSome_or, h, Bool.or_true]
  · exact h

/-- A successful answer about the newest version is remembered for its name, and for no
other. -/
theorem latest?_keepLatest (memo : Memo) (name name' : String)
    (reply : Except Failure (Option String)) :
    (memo.keepLatest name reply).latest? name' =
      if name' = name then reply.toOption.or (memo.latest? name') else memo.latest? name' := by
  cases reply with
  | error e =>
    split <;> rfl
  | ok version =>
    show List.lookup name' ((name, version) :: memo.latest.filter (·.1 ≠ name)) = _
    rw [List.lookup_cons]
    by_cases hname : name' = name
    · rw [if_pos hname, hname, beq_self_eq_true]
      rfl
    · rw [if_neg hname, beq_false_of_ne hname, lookup_filter_ne hname]
      rfl

theorem manifest?_keepLatest (memo : Memo) (name : String)
    (reply : Except Failure (Option String)) (p : Package) :
    (memo.keepLatest name reply).manifest? p = memo.manifest? p := by
  cases reply <;> rfl

theorem latest?_keepManifest (memo : Memo) (p : Package) (reply : Except Failure Manifest)
    (name : String) : (memo.keepManifest p reply).latest? name = memo.latest? name := by
  cases reply <;> rfl

end Memo

end PackageGate
