import Mathlib.Algebra.Order.BigOperators.Group.List
import PackageGate.Proofs.Findings.Recording
import PackageGate.Proofs.Steps

/-!
# Findings behind a lock

The findings of a run are reached through clones of one handle, by many at the same time. Whoever
records a finding takes the lock, looks whether the key is known, puts the finding in its place if
it is not, and gives the lock back. In between the others go on as they can. Reading takes the lock
as well, and so sees what the calls that have returned have left behind.

- `Findings.Shared`, `Findings.Shared.step`: the findings, the lock and those who record.
- `Findings.Shared.calls`: the calls of a run that have returned.
- `Findings.Shared.Guarded`: only the holder of the lock is between looking and putting, so that
  what it saw is still so; `Findings.Shared.guarded_of_steps`: in every run.
- `Findings.Shared.exists_steps_idle`: whoever calls can come to its end.
- `Findings.Shared.exists_steps_calls`: calls can be made in any order.
- `Findings.first_record_stands`: what holds of the findings at any time.
-/

namespace PackageGate

namespace Findings

/-- Where somebody who may record findings is. -/
inductive Writer
  | idle
  /-- Has called, and does not have the lock yet. -/
  | waiting (x : Finding)
  /-- Has the lock. -/
  | holding (x : Finding)
  /-- Has the lock, and has looked whether the key is known. -/
  | looked (x : Finding) (known : Bool)
deriving DecidableEq

/-- Whether somebody has the lock. -/
def Writer.isInside : Writer → Bool
  | .holding _ | .looked _ _ => true
  | .idle | .waiting _ => false

/-- Findings, who has their lock, and those who have a clone of the handle. -/
structure Shared where
  findings : Findings
  holder : Option Nat
  writers : List Writer
deriving DecidableEq

/-- Puts a finding in its place, and takes one with the same key away. -/
def put (x : Finding) : List Finding → List Finding
  | [] => [x]
  | y :: r =>
    if x.key < y.key then x :: y :: r
    else if x.key = y.key then x :: r
    else y :: put x r

namespace Shared

/-- A step of one of those who have a clone. -/
inductive Label
  /-- Clones the handle for somebody else. -/
  | clone (i : Nat)
  | call (i : Nat) (x : Finding)
  | lock (i : Nat)
  | look (i : Nat)
  /-- Puts the finding if its key is not known, gives the lock back and returns. -/
  | finish (i : Nat)

/-- No findings, and one handle. -/
def start : Shared := ⟨.empty, none, [.idle]⟩

/-- The findings after they were looked through for the key of `x`. -/
def written (f : Findings) (x : Finding) (known : Bool) : Findings :=
  if known then f else ⟨put x f.entries⟩

/-- The state after a step, if the step is possible. -/
def step (s : Shared) : Label → Option Shared
  | .clone i =>
    match s.writers[i]? with
    | some _ => some { s with writers := s.writers ++ [.idle] }
    | none => none
  | .call i x =>
    match s.writers[i]? with
    | some .idle => some { s with writers := s.writers.set i (.waiting x) }
    | _ => none
  | .lock i =>
    match s.writers[i]?, s.holder with
    | some (.waiting x), none =>
      some { s with holder := some i, writers := s.writers.set i (.holding x) }
    | _, _ => none
  | .look i =>
    match s.writers[i]? with
    | some (.holding x) =>
      some { s with writers := s.writers.set i (.looked x (s.findings.contains x.key)) }
    | _ => none
  | .finish i =>
    match s.writers[i]? with
    | some (.looked x known) => some ⟨written s.findings x known, none, s.writers.set i .idle⟩
    | _ => none

/-- The call that returns in a step. -/
def returned? (s : Shared) : Label → Option Call
  | .finish i =>
    match s.writers[i]? with
    | some (.looked x known) => some ⟨i, x, !known⟩
    | _ => none
  | _ => none

/-- The calls that return in the steps `ls` from the start, in order. -/
def calls (ls : List Label) : List Call := gather step returned? start ls

variable {s s' : Shared} {l : Label} {ls : List Label} {i : Nat} {x : Finding} {known : Bool}
  {w : Writer}

/-! ## Moves -/

/-- The moves of those who share findings, each with the call that returns. -/
inductive Move (s : Shared) : Label → Shared → Option Call → Prop
  | clone {i : Nat} : i < s.writers.length →
    Move s (.clone i) ⟨s.findings, s.holder, s.writers ++ [.idle]⟩ none
  | call {i : Nat} (x : Finding) : s.writers[i]? = some .idle →
    Move s (.call i x) ⟨s.findings, s.holder, s.writers.set i (.waiting x)⟩ none
  | lock {i : Nat} {x : Finding} : s.writers[i]? = some (.waiting x) → s.holder = none →
    Move s (.lock i) ⟨s.findings, some i, s.writers.set i (.holding x)⟩ none
  | look {i : Nat} {x : Finding} : s.writers[i]? = some (.holding x) →
    Move s (.look i) ⟨s.findings, s.holder,
      s.writers.set i (.looked x (s.findings.contains x.key))⟩ none
  | finish {i : Nat} {x : Finding} {known : Bool} : s.writers[i]? = some (.looked x known) →
    Move s (.finish i) ⟨written s.findings x known, none, s.writers.set i .idle⟩
      (some ⟨i, x, !known⟩)

/-- Every step is one of the moves. -/
theorem step_move (h : s.step l = some s') : Move s l s' (s.returned? l) := by
  cases l with
  | clone i =>
    simp only [step] at h
    split at h <;> cases h
    exact .clone (List.getElem?_eq_some_iff.mp ‹_›).1
  | call i x =>
    simp only [step] at h
    split at h <;> cases h
    exact .call x ‹_›
  | lock i =>
    simp only [step] at h
    split at h <;> cases h
    exact .lock ‹_› ‹_›
  | look i =>
    simp only [step] at h
    split at h <;> cases h
    exact .look ‹_›
  | finish i =>
    simp only [step] at h
    split at h <;> cases h
    rename_i x known hi
    simp only [returned?, hi]
    exact .finish hi

/-- Each move is a step that is possible. -/
theorem Move.step_eq {c : Option Call} (h : Move s l s' c) :
    s.step l = some s' ∧ s.returned? l = c := by
  cases h with
  | clone hi => simp [step, returned?, List.getElem?_eq_getElem hi]
  | call x hi => simp [step, returned?, hi]
  | lock hi hfree => simp [step, returned?, hi, hfree]
  | look hi => simp [step, returned?, hi]
  | finish hi => simp [step, returned?, hi]

/-! ## Putting what is not known -/

/-- A finding that is not known is put where it is recorded. -/
theorem put_eq_insert {l : List Finding} (h : ∀ y ∈ l, y.key ≠ x.key) : put x l = insert x l := by
  induction l with
  | nil => rfl
  | cons y r ih =>
    obtain ⟨hy, hr⟩ := List.forall_mem_cons.mp h
    rw [put, insert, if_neg (Ne.symm hy), if_neg (Ne.symm hy), ih hr]

/-- Recording what is known leaves sorted findings as they are. -/
theorem insert_eq_self {l : List Finding} (hl : l.Pairwise (·.key < ·.key))
    (h : ∃ y ∈ l, y.key = x.key) : insert x l = l := by
  induction l with
  | nil =>
    obtain ⟨y, hy, -⟩ := h
    cases hy
  | cons y r ih =>
    obtain ⟨hlater, hr⟩ := List.pairwise_cons.mp hl
    obtain ⟨z, hz, hkey⟩ := h
    rw [insert]
    rcases List.mem_cons.mp hz with rfl | hz
    · rw [hkey, if_neg (lt_irrefl _), if_pos rfl]
    · have hlt : y.key < x.key := hkey ▸ hlater z hz
      rw [if_neg (lt_asymm hlt), if_neg (ne_of_gt hlt), ih hr ⟨z, hz, hkey⟩]

/-- Looking and then putting is recording, as long as nothing comes in between. -/
theorem written_eq {f : Findings} (h : f.IsSorted) (x : Finding) :
    written f x (f.contains x.key) = (f.record x.key x.summary).2 := by
  show _ = Findings.mk (insert x f.entries)
  cases hknown : f.contains x.key with
  | true => exact congrArg Findings.mk (insert_eq_self h (Findings.contains_iff.mp hknown)).symm
  | false => exact congrArg Findings.mk (put_eq_insert (contains_eq_false_iff.mp hknown))

/-! ## The lock -/

theorem getElem?_set_eq {ws : List Writer} {v : Writer} (h : ws[i]? = some v) (w : Writer)
    (j : Nat) : (ws.set i w)[j]? = if i = j then some w else ws[j]? := by
  rw [List.getElem?_set, if_pos (List.getElem?_eq_some_iff.mp h).1]

theorem getElem?_concat_idle (ws : List Writer) (j : Nat) :
    (ws ++ [Writer.idle])[j]? = ws[j]? ∨
      (ws ++ [Writer.idle])[j]? = some .idle ∧ ws[j]? = none := by
  rcases lt_trichotomy j ws.length with hlt | rfl | hgt
  · exact .inl (List.getElem?_append_left hlt)
  · exact .inr ⟨List.getElem?_concat_length, List.getElem?_eq_none (le_refl _)⟩
  · refine .inl ?_
    rw [List.getElem?_eq_none (by simp; omega), List.getElem?_eq_none (le_of_lt hgt)]

/-- Findings are kept as calls leave them, the lock is with the only one who is inside, and what
was looked up there is still so. -/
structure Guarded (calls : List Call) (s : Shared) : Prop where
  kept : Kept calls s.findings
  holder_iff : ∀ i : Nat, s.holder = some i ↔ (s.writers[i]?).any Writer.isInside = true
  looked : ∀ (i : Nat) (x : Finding) (known : Bool), s.writers[i]? = some (.looked x known) →
    known = s.findings.contains x.key

theorem guarded_start : Guarded [] start where
  kept := kept_empty
  holder_iff i := by
    cases i with
    | zero => exact ⟨nofun, nofun⟩
    | succ i => exact ⟨nofun, nofun⟩
  looked i x known h := by
    cases List.mem_singleton.mp (List.mem_of_getElem? h)

variable {calls : List Call} {c : Option Call}

/-- Whether somebody has the lock is seen from where it is. -/
theorem Guarded.holder_iff_of (h : Guarded calls s) (hi : s.writers[i]? = some w) (j : Nat) :
    s.holder = some j ↔ if i = j then w.isInside = true else s.holder = some j := by
  split
  · rename_i heq
    subst heq
    rw [h.holder_iff, hi]
    rfl
  · rfl

/-- Somebody goes on from `v` to `w`, and takes the lock or gives it back if need be. -/
theorem Guarded.set {v : Writer} {holder : Option Nat} (h : Guarded calls s)
    (hi : s.writers[i]? = some v)
    (hholder : ∀ j, holder = some j ↔ if i = j then w.isInside = true else s.holder = some j)
    (hlooked : ∀ x known, w = .looked x known → known = s.findings.contains x.key) :
    Guarded calls ⟨s.findings, holder, s.writers.set i w⟩ where
  kept := h.kept
  holder_iff j := by
    rw [getElem?_set_eq hi, hholder]
    split
    · rfl
    · exact h.holder_iff j
  looked j x known hj := by
    rw [getElem?_set_eq hi] at hj
    split at hj
    · exact hlooked x known (Option.some.inj hj)
    · exact h.looked j x known hj

/-- While nobody has the lock, nobody relies on what is known. -/
theorem Guarded.record (h : Guarded calls s) (hfree : s.holder = none) (i : Nat) (x : Finding) :
    Guarded (calls ++ [s.findings.answered i x])
      ⟨(s.findings.record x.key x.summary).2, s.holder, s.writers⟩ where
  kept := h.kept.record i x
  holder_iff := h.holder_iff
  looked j y known hj := by
    have hholder : s.holder = some j := (h.holder_iff j).mpr (by rw [hj]; rfl)
    rw [hfree] at hholder
    cases hholder

/-- Nobody else comes between looking and putting, so that a call returns as if it were made at
once. -/
theorem Guarded.move (h : Guarded calls s) (hmove : Move s l s' c) :
    Guarded (calls ++ c.toList) s' := by
  cases hmove with
  | clone hi =>
    rw [Option.toList_none, List.append_nil]
    refine ⟨h.kept, fun j => (h.holder_iff j).trans ?_, fun j x known hj => ?_⟩
    · rcases getElem?_concat_idle s.writers j with heq | ⟨heq, hnone⟩
      · rw [heq]
      · rw [heq, hnone]
        rfl
    · rcases getElem?_concat_idle s.writers j with heq | ⟨heq, -⟩
      · exact h.looked j x known (heq ▸ hj)
      · cases heq.symm.trans hj
  | call x hi =>
    rw [Option.toList_none, List.append_nil]
    have hsame := h.holder_iff_of hi
    exact h.set hi hsame nofun
  | @lock i x hi hfree =>
    rw [Option.toList_none, List.append_nil]
    refine h.set hi (fun j => ?_) nofun
    rw [hfree, Option.some_inj]
    split
    · exact iff_of_true ‹_› rfl
    · exact iff_of_false ‹_› nofun
  | look hi =>
    rw [Option.toList_none, List.append_nil]
    have hsame := h.holder_iff_of hi
    refine h.set hi hsame ?_
    rintro x known ⟨⟩
    rfl
  | @finish i x known hi =>
    have hholder : s.holder = some i := (h.holder_iff i).mpr (by rw [hi]; rfl)
    obtain rfl := h.looked i x known hi
    rw [written_eq h.kept.isSorted]
    have hleft : Guarded calls ⟨s.findings, none, s.writers.set i .idle⟩ := by
      refine h.set hi (fun j => ?_) nofun
      rw [hholder, Option.some_inj]
      split
      · exact iff_of_false nofun nofun
      · exact iff_of_false nofun ‹_›
    exact hleft.record rfl i x

theorem calls_concat {u : Shared} (h : Steps step start ls s) (hstep : s.step l = some u) :
    Shared.calls (ls ++ [l]) = Shared.calls ls ++ (s.returned? l).toList :=
  gather_concat h hstep

/-- In every run, findings are kept as the calls that have returned leave them. -/
theorem guarded_of_steps (h : Steps step start ls s) : Guarded (Shared.calls ls) s := by
  induction h with
  | refl => exact guarded_start
  | tail hsteps hstep ih =>
    rw [calls_concat hsteps hstep]
    exact ih.move (step_move hstep)

/-- A step takes no finding away. -/
theorem Guarded.sublist (h : Guarded calls s) (hmove : Move s l s' c) :
    s.findings.snapshot.Sublist s'.findings.snapshot := by
  cases hmove with
  | clone | call | lock | look => exact .refl _
  | @finish i x known hi =>
    obtain rfl := h.looked i x known hi
    rw [written_eq h.kept.isSorted]
    exact sublist_record _ _ _

/-- Findings stay in their places among later ones. -/
theorem sublist_of_steps {ls' : List Label} (h : Steps step start ls s)
    (h' : Steps step s ls' s') : s.findings.snapshot.Sublist s'.findings.snapshot := by
  induction h' with
  | refl => exact .refl _
  | tail hsteps hstep ih =>
    exact ih.trans ((guarded_of_steps (h.trans hsteps)).sublist (step_move hstep))

/-! ## Coming to an end -/

/-- The lock is given back, and who waits for it waits on. -/
theorem Guarded.exists_steps_free (h : Guarded calls s) : ∃ ls s', Steps step s ls s' ∧
    s'.holder = none ∧
    ∀ (j : Nat) (x : Finding), s.writers[j]? = some (.waiting x) →
      s'.writers[j]? = some (.waiting x) := by
  cases hholder : s.holder with
  | none => exact ⟨[], s, .refl, hholder, fun _ _ hj => hj⟩
  | some i =>
    have hinside := (h.holder_iff i).mp hholder
    have hwait : ∀ {w : Writer} {j : Nat} {x : Finding}, s.writers[j]? = some (.waiting x) →
        (s.writers.set i w)[j]? = some (.waiting x) := by
      intro w j x hj
      have hne : i ≠ j := by
        rintro rfl
        rw [hj] at hinside
        cases hinside
      rwa [List.getElem?_set_ne hne]
    cases hi : s.writers[i]? with
    | none =>
      rw [hi] at hinside
      cases hinside
    | some w =>
      cases w with
      | idle | waiting =>
        rw [hi] at hinside
        cases hinside
      | looked x known =>
        exact ⟨_, _, .single (Move.finish hi).step_eq.1, rfl, fun _ _ hj => hwait hj⟩
      | holding x =>
        have hlook := (Move.look hi).step_eq.1
        have hi' : (s.writers.set i (.looked x (s.findings.contains x.key)))[i]? =
            some (.looked x (s.findings.contains x.key)) := by
          rw [getElem?_set_eq hi, if_pos rfl]
        refine ⟨_, _, .tail (.single hlook) (Move.finish hi').step_eq.1, rfl, fun j y hj => ?_⟩
        rw [List.set_set]
        exact hwait hj

/-- Who gets the lock records its finding and returns. -/
theorem steps_of_waiting (hi : s.writers[i]? = some (.waiting x)) (hfree : s.holder = none) :
    Steps step s [.lock i, .look i, .finish i]
      ⟨written s.findings x (s.findings.contains x.key), none, s.writers.set i .idle⟩ ∧
    gather step returned? s [.lock i, .look i, .finish i] = [s.findings.answered i x] := by
  have hlock := (Move.lock hi hfree).step_eq
  have hi' : (s.writers.set i (.holding x))[i]? = some (.holding x) := by
    rw [getElem?_set_eq hi, if_pos rfl]
  have hlook := (Move.look (s := ⟨s.findings, some i, _⟩) hi').step_eq
  rw [List.set_set] at hlook
  have hi'' : (s.writers.set i (.looked x (s.findings.contains x.key)))[i]? =
      some (.looked x (s.findings.contains x.key)) := by
    rw [getElem?_set_eq hi, if_pos rfl]
  have hfinish := (Move.finish (s := ⟨s.findings, some i, _⟩) hi'').step_eq
  rw [List.set_set] at hfinish
  refine ⟨.tail (.tail (.single hlock.1) hlook.1) hfinish.1, ?_⟩
  simp only [gather, hlock, hlook, hfinish]
  rfl

/-- Whoever waits for the lock can get it and return. -/
theorem Guarded.exists_steps_idle (h : Guarded calls s) (hi : s.writers[i]? = some (.waiting x)) :
    ∃ ls s', Steps step s ls s' ∧ s'.writers[i]? = some .idle := by
  obtain ⟨ls, m, hm, hfree, hwait⟩ := h.exists_steps_free
  have hi' := hwait i x hi
  refine ⟨_, _, hm.trans (steps_of_waiting hi' hfree).1, ?_⟩
  exact (getElem?_set_eq hi' _ _).trans (if_pos rfl)

theorem set_idle (hi : s.writers[i]? = some .idle) : s.writers.set i .idle = s.writers := by
  obtain ⟨hlt, hget⟩ := List.getElem?_eq_some_iff.mp hi
  rw [← hget, List.set_getElem_self]

/-- Whoever has a clone can record a finding while nobody has the lock. -/
theorem exists_steps_answered (hi : s.writers[i]? = some .idle) (hfree : s.holder = none)
    (x : Finding) : ∃ ls s', Steps step s ls s' ∧ s'.holder = none ∧ s'.writers = s.writers ∧
      gather step returned? s ls = [s.findings.answered i x] := by
  have hcall := (Move.call x hi).step_eq
  have hi' : (s.writers.set i (.waiting x))[i]? = some (.waiting x) := by
    rw [getElem?_set_eq hi, if_pos rfl]
  obtain ⟨hsteps, htold⟩ := steps_of_waiting (s := ⟨s.findings, s.holder, _⟩) hi' hfree
  refine ⟨_, _, (Steps.single hcall.1).trans hsteps, rfl, ?_, ?_⟩
  · rw [List.set_set, set_idle hi]
  · rw [gather_append (.single hcall.1), htold]
    simp only [gather, hcall]
    rfl

/-- As many clones of the handle as one likes. -/
theorem exists_steps_clones (n : Nat) : ∃ ls s, Steps step start ls s ∧ s.holder = none ∧
    s.writers = List.replicate (n + 1) .idle ∧ Shared.calls ls = [] := by
  induction n with
  | zero => exact ⟨[], start, .refl, rfl, rfl, rfl⟩
  | succ n ih =>
    obtain ⟨ls, s, hs, hfree, hwriters, hcalls⟩ := ih
    have hclone := (Move.clone (s := s) (i := 0) (by simp [hwriters])).step_eq
    refine ⟨ls ++ [.clone 0], ⟨s.findings, s.holder, s.writers ++ [.idle]⟩, .tail hs hclone.1,
      hfree, ?_, ?_⟩
    · rw [List.replicate_succ', ← hwriters]
    · rw [calls_concat hs hclone.1, hcalls, hclone.2]
      rfl

/-- Findings can be recorded by anybody in any order. -/
theorem exists_steps_calls (xs : List (Nat × Finding)) : ∃ ls s, Steps step start ls s ∧
    (Shared.calls ls).map (fun c => (c.writer, c.finding)) = xs := by
  obtain ⟨ls, s, hs, hfree, hwriters, hcalls⟩ := exists_steps_clones (xs.map Prod.fst).sum
  have hidle : ∀ c ∈ xs, s.writers[c.1]? = some .idle := by
    intro c hc
    have hle : c.1 ≤ (xs.map Prod.fst).sum := List.le_sum_of_mem (List.mem_map_of_mem hc)
    rw [hwriters, List.getElem?_replicate, if_pos (Nat.lt_succ_of_le hle)]
  -- Everybody is idle again after each call.
  suffices h : ∃ ls' s', Steps step start ls' s' ∧ s'.holder = none ∧ s'.writers = s.writers ∧
      (Shared.calls ls').map (fun c => (c.writer, c.finding)) = xs by
    obtain ⟨ls', s', hs', -, -, hcalls'⟩ := h
    exact ⟨ls', s', hs', hcalls'⟩
  clear hwriters
  induction xs using List.reverseRecOn with
  | nil => exact ⟨ls, s, hs, hfree, rfl, by rw [hcalls]; rfl⟩
  | append_singleton xs c ih =>
    obtain ⟨ls', m, hm, hmfree, hmwriters, hmcalls⟩ :=
      ih fun b hb => hidle b (List.mem_append_left _ hb)
    have hc : m.writers[c.1]? = some .idle := by
      rw [hmwriters]
      exact hidle c (List.mem_append_right _ List.mem_cons_self)
    obtain ⟨ls'', u, hu, hufree, huwriters, htold⟩ := exists_steps_answered hc hmfree c.2
    refine ⟨ls' ++ ls'', u, hm.trans hu, hufree, huwriters.trans hmwriters, ?_⟩
    rw [Shared.calls, gather_append hm, htold, List.map_append]
    exact congrArg (· ++ [c]) hmcalls

end Shared

/-! ## The first record -/

/-- **The first record of a key stands.** Whoever has a clone of the handle can record findings, in
any order, and comes to an end each time. In whatever way their steps interleave, the findings are
at any time those that the first calls for their keys recorded, sorted, and only these calls heard
that the key was new; none of them is changed or taken away later. -/
theorem first_record_stands :
    (∀ xs : List (Nat × Finding), ∃ ls s, Steps Shared.step .start ls s ∧
      (Shared.calls ls).map (fun c => (c.writer, c.finding)) = xs) ∧
    ∀ ls s, Steps Shared.step .start ls s → Kept (Shared.calls ls) s.findings ∧
      (∀ (i : Nat) (x : Finding), s.writers[i]? = some (.waiting x) →
        ∃ ls' s', Steps Shared.step s ls' s' ∧ s'.writers[i]? = some .idle) ∧
      ∀ ls' s', Steps Shared.step s ls' s' →
        s.findings.snapshot.Sublist s'.findings.snapshot ∧
        ∀ x ∈ s.findings.snapshot, ∀ y ∈ s'.findings.snapshot, y.key = x.key → y = x := by
  refine ⟨Shared.exists_steps_calls, fun ls s h => ?_⟩
  have hguarded := Shared.guarded_of_steps h
  refine ⟨hguarded.kept, fun i x hi => hguarded.exists_steps_idle hi, fun ls' s' h' => ?_⟩
  have hsublist := Shared.sublist_of_steps h h'
  exact ⟨hsublist, fun x hx y hy hkey =>
    (Shared.guarded_of_steps (h.trans h')).kept.eq_of_key_eq hy (hsublist.subset hx) hkey⟩

/-- Two who find the same package malicious: both call before the first has the lock. -/
def race : List Shared.Label :=
  [.clone 0, .call 0 ⟨"evil@1", "steals tokens"⟩, .call 1 ⟨"evil@1", "a miner"⟩, .lock 1, .look 1,
    .finish 1, .lock 0, .look 0]

/-- The one who had the lock first is heard, and the other is told so. -/
theorem first_record_stands_race : ∃ s s', Steps Shared.step .start race s ∧
    Steps Shared.step s [.finish 0] s' ∧ Kept (Shared.calls race) s.findings ∧
    Shared.calls (race ++ [.finish 0]) = [⟨1, ⟨"evil@1", "a miner"⟩, true⟩,
      ⟨0, ⟨"evil@1", "steals tokens"⟩, false⟩] ∧
    s.findings.snapshot = [⟨"evil@1", "a miner"⟩] ∧
    s.findings.snapshot.Sublist s'.findings.snapshot := by
  have hrun : Steps Shared.step .start race ⟨⟨[⟨"evil@1", "a miner"⟩]⟩, some 0,
      [.looked ⟨"evil@1", "steals tokens"⟩ true, .idle]⟩ :=
    steps_iff_foldlM.mpr (by decide +kernel)
  have hfinish : Steps Shared.step ⟨⟨[⟨"evil@1", "a miner"⟩]⟩, some 0,
      [.looked ⟨"evil@1", "steals tokens"⟩ true, .idle]⟩ [.finish 0]
      ⟨⟨[⟨"evil@1", "a miner"⟩]⟩, none, [.idle, .idle]⟩ :=
    steps_iff_foldlM.mpr (by decide +kernel)
  obtain ⟨hkept, -, hlater⟩ := first_record_stands.2 _ _ hrun
  exact ⟨_, _, hrun, hfinish, hkept, by decide +kernel, rfl, (hlater _ _ hfinish).1⟩

end Findings

end PackageGate
