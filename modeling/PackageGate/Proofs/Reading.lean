import PackageGate.Package.Spec
import PackageGate.Proofs.Keys

/-!
# Keys read back

A key is the name, a separator and the version. It is read by its separators alone, so a
name or a version with a separator of its own makes it unreadable, and never another package.

- `Text.splitAt_of_single`, `Text.splitAt_of_more`: the parts of a text with one separator,
  and with more.
- `Package.misread?`: why name and version cannot be told apart; `Package.specParts_key`: they
  are read as what they are, or not at all.
- `Package.Readable`: the packages whose key is read back.
- `Package.ofSpec_key_iff`, `Package.eq_of_ofSpec_key`: exactly these are, and no key is
  read as another package.
-/

namespace PackageGate

namespace Text

variable {isMark : Char → Bool} {c sep : Char} {a b cs : List Char}

theorem splitWhere_ne_nil (isMark : Char → Bool) : ∀ cs, splitWhere isMark cs ≠ []
  | [] => List.cons_ne_nil _ _
  | c :: r => by
    rw [splitWhere]
    split
    · exact List.cons_ne_nil _ _
    · split <;> exact List.cons_ne_nil _ _

theorem splitWhere_cons_of_mark (h : isMark c = true) (cs : List Char) :
    splitWhere isMark (c :: cs) = [] :: splitWhere isMark cs := by
  rw [splitWhere]
  split
  · rename_i hnil
    exact absurd hnil (splitWhere_ne_nil isMark cs)
  · rename_i part parts hparts
    rw [if_pos h, hparts]

/-- A text without marks is one part. -/
theorem splitWhere_of_unmarked (h : ∀ c ∈ cs, isMark c = false) : splitWhere isMark cs = [cs] := by
  induction cs with
  | nil => rfl
  | cons c r ih =>
    obtain ⟨hc, hr⟩ := List.forall_mem_cons.mp h
    rw [splitWhere, ih hr]
    simp only [hc, Bool.false_eq_true, if_false]

/-- The part in front of the first mark comes first. -/
theorem splitWhere_append (h : ∀ x ∈ a, isMark x = false) (hc : isMark c = true) :
    splitWhere isMark (a ++ c :: b) = a :: splitWhere isMark b := by
  induction a with
  | nil => exact splitWhere_cons_of_mark hc b
  | cons x a ih =>
    obtain ⟨hx, ha⟩ := List.forall_mem_cons.mp h
    rw [List.cons_append, splitWhere, ih ha]
    simp only [hx, Bool.false_eq_true, if_false]

/-- The first separator ends the first part. -/
theorem splitAt_append (h : sep ∉ a) : splitAt sep (a ++ sep :: b) = a :: splitAt sep b := by
  refine splitWhere_append (fun x hx => decide_eq_false ?_) (decide_eq_true rfl)
  rintro rfl
  exact h hx

theorem splitAt_of_not_mem (h : sep ∉ cs) : splitAt sep cs = [cs] := by
  refine splitWhere_of_unmarked fun x hx => decide_eq_false ?_
  rintro rfl
  exact h hx

/-- A text with a separator has two parts at least. -/
theorem splitAt_of_mem (h : sep ∈ cs) : ∃ x y rest, splitAt sep cs = x :: y :: rest := by
  obtain ⟨a, b, rfl, ha⟩ := List.eq_append_cons_of_mem h
  obtain ⟨y, rest, hrest⟩ := List.exists_cons_of_ne_nil (splitWhere_ne_nil (· = sep) b)
  exact ⟨a, y, rest, by rw [splitAt_append ha, splitAt, hrest]⟩

/-- Around its only separator a text has two parts. -/
theorem splitAt_of_single (ha : sep ∉ a) (hb : sep ∉ b) : splitAt sep (a ++ sep :: b) = [a, b] := by
  rw [splitAt_append ha, splitAt_of_not_mem hb]

/-- A text with one more separator has three parts at least. -/
theorem splitAt_of_more (h : sep ∈ a ∨ sep ∈ b) :
    ∃ x y z rest, splitAt sep (a ++ sep :: b) = x :: y :: z :: rest := by
  by_cases ha : sep ∈ a
  · obtain ⟨a₁, a₂, rfl, ha₁⟩ := List.eq_append_cons_of_mem ha
    obtain ⟨y, z, rest, hrest⟩ : ∃ y z rest, splitAt sep (a₂ ++ sep :: b) = y :: z :: rest :=
      splitAt_of_mem (List.mem_append_right _ List.mem_cons_self)
    refine ⟨a₁, y, z, rest, ?_⟩
    rw [List.append_assoc, List.cons_append, splitAt_append ha₁, hrest]
  · obtain ⟨y, z, rest, hrest⟩ := splitAt_of_mem (h.resolve_left ha)
    exact ⟨a, y, z, rest, by rw [splitAt_append ha, hrest]⟩

end Text

namespace Package

variable {p r : Package} {name version : List Char}

theorem splitScope_of_ne {c : Char} (h : c ≠ '@') (cs : List Char) :
    splitScope (c :: cs) = (false, c :: cs) := by
  rw [splitScope]
  rintro r ⟨⟩
  exact h rfl

theorem splitScope_append (h : name ≠ []) (cs : List Char) :
    splitScope (name ++ cs) = ((splitScope name).1, (splitScope name).2 ++ cs) := by
  obtain ⟨c, r, rfl⟩ := List.exists_cons_of_ne_nil h
  by_cases hc : c = '@'
  · subst hc
    rfl
  · rw [List.cons_append, splitScope_of_ne hc, splitScope_of_ne hc, List.cons_append]

/-- A name is its scope mark, if it has one, and what stands behind it. -/
theorem splitScope_eq (name : List Char) :
    (if (splitScope name).1 then '@' :: (splitScope name).2 else (splitScope name).2) = name := by
  unfold splitScope
  split <;> rfl

/-- Why a name and a version with a separator between them cannot be told apart, if they cannot:
there is a separator too many, or the scope mark stands alone, or it stands without a `/`. -/
def misread? (name version : List Char) : Option Malformed :=
  let (hasScope, body) := splitScope name
  if '@' ∈ body ∨ '@' ∈ version then some .manySeparators
  else if body = [] then some .emptyName
  else if hasScope && !body.contains '/' then some .scopeWithoutName
  else none

/-- Name and version are read as what they are, or not at all. -/
theorem specParts_key (h : name ≠ []) (version : List Char) :
    specParts (name ++ '@' :: version) =
      match misread? name version with
      | some why => .error why
      | none => .ok (name, version) := by
  have hname := splitScope_eq name
  unfold specParts misread?
  rw [splitScope_append h]
  generalize splitScope name = parts at hname
  obtain ⟨hasScope, body⟩ := parts
  by_cases hmore : '@' ∈ body ∨ '@' ∈ version
  · obtain ⟨x, y, z, rest, hparts⟩ := Text.splitAt_of_more hmore
    simp only [hparts, if_pos hmore]
  · obtain ⟨hbody, hversion⟩ := not_or.mp hmore
    simp only [Text.splitAt_of_single hbody hversion, if_neg hmore]
    by_cases hempty : body = []
    · simp only [if_pos hempty]
    · by_cases hslash : (hasScope && !body.contains '/') = true
      · simp only [if_neg hempty, if_pos hslash]
      · simp only [if_neg hempty, if_neg hslash]
        rw [hname]

/-- A name whose end can be found in a key: it has no separator, or its only one is the scope mark
of a scoped name. -/
def Separable (name : List Char) : Prop :=
  '@' ∉ name ∨ name.head? = some '@' ∧ name.count '@' = 1 ∧ '/' ∈ name

instance (name : List Char) : Decidable (Separable name) :=
  inferInstanceAs (Decidable (_ ∨ _))

/-- Name and version are told apart exactly when neither has a separator that is mistaken for the
one between them. -/
theorem misread?_eq_none (h : name ≠ []) (version : List Char) :
    misread? name version = none ↔ '@' ∉ version ∧ Separable name := by
  obtain ⟨c, r, rfl⟩ := List.exists_cons_of_ne_nil h
  by_cases hc : c = '@'
  · subst hc
    -- The scope mark is there, and what counts stands behind it.
    have hsplit : splitScope ('@' :: r) = (true, r) := rfl
    have hcount : ('@' :: r).count '@' = 1 ↔ '@' ∉ r := by
      rw [List.count_cons_self, Nat.add_eq_right, List.count_eq_zero]
    have hslash : '/' ∈ '@' :: r ↔ '/' ∈ r := List.mem_cons.trans (or_iff_right (by decide))
    have hseparable : Separable ('@' :: r) ↔ '@' ∉ r ∧ '/' ∈ r := by
      rw [Separable, hcount, hslash, or_iff_right (fun hnot => hnot List.mem_cons_self)]
      exact and_iff_right rfl
    rw [misread?, hsplit, hseparable]
    by_cases hmore : '@' ∈ r ∨ '@' ∈ version
    · simp only [if_pos hmore, reduceCtorEq, false_iff]
      rintro ⟨hversion, hr, -⟩
      exact hmore.elim hr hversion
    · obtain ⟨hr, hversion⟩ := not_or.mp hmore
      simp only [hr, hversion, not_false_eq_true, true_and]
      by_cases hmem : '/' ∈ r
      · have hnonempty : r ≠ [] := List.ne_nil_of_mem hmem
        simp [hnonempty, hmem]
      · by_cases hempty : r = []
        · simp [hempty]
        · simp [hempty, hmem]
  · have hsplit : splitScope (c :: r) = (false, c :: r) := splitScope_of_ne hc r
    have hseparable : Separable (c :: r) ↔ '@' ∉ c :: r := by
      refine or_iff_left fun hmarked => hc ?_
      exact Option.some.inj hmarked.1
    rw [misread?, hsplit, hseparable]
    by_cases hmore : '@' ∈ c :: r ∨ '@' ∈ version
    · simp only [if_pos hmore, reduceCtorEq, false_iff]
      rintro ⟨hversion, hr⟩
      exact hmore.elim hr hversion
    · obtain ⟨hr, hversion⟩ := not_or.mp hmore
      simp only [if_neg hmore, Bool.false_and, Bool.false_eq_true, if_false, reduceCtorEq]
      exact iff_of_true trivial ⟨hversion, hr⟩

/-- A package with a name that is not blank is made when it keeps the limits. -/
theorem make_self (h : Text.isBlankText p.name = false) :
    make p.name p.version = (checkLengths p.name p.version).map fun _ => p := by
  rw [make, h, if_neg Bool.false_ne_true]

/-- The check passes what is within both limits. -/
theorem checkLengths_eq_ok {name version : String} : checkLengths name version = .ok () ↔
    name.utf8ByteSize ≤ nameLimit ∧ version.utf8ByteSize ≤ versionLimit := by
  unfold checkLengths
  split
  · exact ⟨nofun, fun h => absurd h.1 (by omega)⟩
  · split
    · exact ⟨nofun, fun h => absurd h.2 (by omega)⟩
    · exact ⟨fun _ => ⟨by omega, by omega⟩, fun _ => rfl⟩

/-- A package is made of its own parts exactly if its name is not blank and it keeps the limits. -/
theorem make_self_iff : make p.name p.version = .ok p ↔ Text.isBlankText p.name = false ∧
    p.name.utf8ByteSize ≤ nameLimit ∧ p.version.utf8ByteSize ≤ versionLimit := by
  constructor
  · intro h
    obtain ⟨-, -, hblank⟩ := nonblank_of_make h
    rw [make_self hblank] at h
    cases hlengths : checkLengths p.name p.version with
    | error e =>
      rw [hlengths] at h
      cases h
    | ok u => exact ⟨hblank, checkLengths_eq_ok.mp hlengths⟩
  · rintro ⟨hblank, hlimits⟩
    rw [make_self hblank, checkLengths_eq_ok.mpr hlimits]
    rfl

/-- Renaming an error makes no answer. -/
theorem mapError_eq_ok {ε ε' α : Type} {x : Except ε α} {f : ε → ε'} {a : α} :
    x.mapError f = .ok a ↔ x = .ok a := by
  cases x with
  | error e => exact iff_of_false nofun nofun
  | ok b => exact ⟨fun h => congrArg _ (Except.ok.inj h), fun h => congrArg _ (Except.ok.inj h)⟩

/-- What reading makes of the key of a package: the package, unless it cannot be told apart or is
too long. -/
theorem ofSpec_key (h : Text.isBlankText p.name = false) :
    ofSpec p.key =
      match misread? p.name.toList p.version.toList with
      | some why => .error (.malformed p.key why)
      | none => ((checkLengths p.name p.version).map fun _ => p).mapError .invalid := by
  rw [ofSpec, toList_key, specParts_key (toList_ne_nil_of_nonblank h)]
  cases misread? p.name.toList p.version.toList with
  | some why => rfl
  | none => simp only [String.ofList_toList, make_self h]

/-- A key is never read as another package. -/
theorem eq_of_ofSpec_key (h : Text.isBlankText p.name = false) (hr : ofSpec p.key = .ok r) :
    r = p := by
  rw [ofSpec_key h] at hr
  split at hr
  · cases hr
  · cases hlengths : checkLengths p.name p.version with
    | error e =>
      rw [hlengths] at hr
      cases hr
    | ok u =>
      rw [hlengths] at hr
      exact (Except.ok.inj hr).symm

/-- A package whose key can be read. -/
structure Readable (p : Package) : Prop where
  name_le : p.name.utf8ByteSize ≤ nameLimit
  version_le : p.version.utf8ByteSize ≤ versionLimit
  version : '@' ∉ p.version.toList
  name : Separable p.name.toList

/-- Exactly the readable packages are read back. -/
theorem ofSpec_key_iff (h : Text.isBlankText p.name = false) :
    ofSpec p.key = .ok p ↔ Readable p := by
  have htold := misread?_eq_none (toList_ne_nil_of_nonblank h) p.version.toList
  rw [ofSpec_key h]
  cases hmisread : misread? p.name.toList p.version.toList with
  | some why =>
    refine ⟨nofun, fun hread => ?_⟩
    have hnone := htold.mpr ⟨hread.version, hread.name⟩
    rw [hmisread] at hnone
    cases hnone
  | none =>
    obtain ⟨hversion, hname⟩ := htold.mp hmisread
    cases hlengths : checkLengths p.name p.version with
    | error e =>
      refine ⟨nofun, fun hread => ?_⟩
      have hok := checkLengths_eq_ok.mpr ⟨hread.name_le, hread.version_le⟩
      rw [hlengths] at hok
      cases hok
    | ok u =>
      obtain ⟨hname_le, hversion_le⟩ := checkLengths_eq_ok.mp hlengths
      exact ⟨fun _ => ⟨hname_le, hversion_le, hversion, hname⟩, fun _ => rfl⟩

end Package

end PackageGate
