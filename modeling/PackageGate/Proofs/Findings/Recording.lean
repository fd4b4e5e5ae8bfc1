import Mathlib.Data.Finset.Card
import PackageGate.Proofs.Bytes
import PackageGate.Proofs.Findings

/-!
# What recording leaves behind

Findings are recorded by one call after another. The first call for a key decides what is known of
it, and is the only one to hear that it was new.

- `Findings.Call`: a call that recorded a finding, with its answer.
- `Findings.Kept`: what calls leave behind.
- `Findings.Kept.record`: one more call.
- `Findings.Kept.eq_of_key_eq`: what is known of a key is one finding.
-/

namespace PackageGate

namespace Findings

/-- A call that recorded a finding: who made it, and whether it was told that the key was new. -/
structure Call where
  writer : Nat
  finding : Finding
  isNew : Bool
deriving DecidableEq

/-- The key that a call was about. -/
def Call.key (c : Call) : String := c.finding.key

/-- The call by which `writer` records `x`, with the answer that it gets. -/
def answered (f : Findings) (writer : Nat) (x : Finding) : Call :=
  ⟨writer, x, (f.record x.key x.summary).1⟩

/-- What calls leave behind that were made one after another. -/
structure Kept (calls : List Call) (f : Findings) : Prop where
  recorded : f = empty.recordAll (calls.map (·.finding))
  /-- Each call was answered as if it were made at once, on what those before it had left. -/
  answered : ∀ before c after, calls = before ++ c :: after →
    c = (empty.recordAll (before.map (·.finding))).answered c.writer c.finding
  /-- A key is new to the first call for it, and to no other. -/
  isNew_iff : ∀ before c after, calls = before ++ c :: after →
    (c.isNew = true ↔ ∀ b ∈ before, b.key ≠ c.key)
  once : ∀ c ∈ calls, (calls.countP fun b => b.isNew && b.key == c.key) = 1
  contains_iff : ∀ key, f.contains key = true ↔ ∃ c ∈ calls, c.key = key
  /-- What is known of a key is what the first call for it recorded. -/
  mem_snapshot_iff : ∀ x, x ∈ f.snapshot ↔
    (calls.find? (·.key = x.key)).map (·.finding) = some x
  size_eq : f.size = (calls.map (·.key)).toFinset.card
  precedes : f.snapshot.Pairwise fun x y => Text.Precedes x.key y.key

variable {calls : List Call} {f : Findings} {x y : Finding} {key key' summary : String}

theorem precedes_iff : (f.snapshot.Pairwise fun x y => Text.Precedes x.key y.key) ↔
    f.IsSorted := by
  simp only [Text.precedes_iff_lt]
  rfl

theorem contains_record_iff : (f.record key summary).2.contains key' = true ↔
    f.contains key' = true ∨ key = key' := by
  rw [← not_iff_not, not_or, Bool.not_eq_true, Bool.not_eq_true, contains_record_eq_false]

/-- Sorted findings are as many as their keys. -/
theorem size_eq_card (h : f.IsSorted) :
    f.size = (f.snapshot.map (·.key)).toFinset.card := by
  have hnodup : (f.snapshot.map (·.key)).Nodup :=
    (List.pairwise_map.mpr h).imp fun hlt => ne_of_lt hlt
  rw [List.toFinset_card_of_nodup hnodup, List.length_map]
  rfl

/-- What holds of every call and those before it holds with one more call. -/
theorem forall_split_concat {P : List Call → Call → Prop} {last : Call}
    (h : ∀ before c after, calls = before ++ c :: after → P before c) (hlast : P calls last) :
    ∀ before c after, calls ++ [last] = before ++ c :: after → P before c := by
  intro before c after hsplit
  rcases List.eq_nil_or_concat after with rfl | ⟨after, d, rfl⟩
  · obtain ⟨rfl, hc⟩ := List.append_inj' hsplit rfl
    obtain rfl := (List.cons.inj hc).1
    exact hlast
  · rw [List.concat_eq_append, ← List.cons_append, ← List.append_assoc] at hsplit
    exact h before c after (List.append_inj' hsplit rfl).1

theorem kept_empty : Kept [] empty where
  recorded := rfl
  answered _ _ _ h := absurd h.symm (List.append_ne_nil_of_right_ne_nil _ nofun)
  isNew_iff _ _ _ h := absurd h.symm (List.append_ne_nil_of_right_ne_nil _ nofun)
  once := nofun
  contains_iff _ := ⟨nofun, nofun⟩
  mem_snapshot_iff _ := ⟨nofun, nofun⟩
  size_eq := rfl
  precedes := .nil

namespace Kept

theorem isSorted (h : Kept calls f) : f.IsSorted := precedes_iff.mp h.precedes

theorem contains_eq_false_iff (h : Kept calls f) :
    f.contains key = false ↔ ∀ c ∈ calls, c.key ≠ key := by
  rw [← Bool.not_eq_true, h.contains_iff]
  simp

variable {writer : Nat}

/-- A call for a key that was not known is the first for it. -/
theorem isNew_answered (h : Kept calls f) :
    (f.answered writer x).isNew = true ↔ ∀ c ∈ calls, c.key ≠ x.key := by
  show (!f.contains x.key) = true ↔ _
  rw [← h.contains_eq_false_iff, Bool.not_eq_true']

/-- A key that was recorded before is not new again, and one that was not is new now. -/
theorem once_concat (h : Kept calls f) : ∀ c ∈ calls ++ [f.answered writer x],
    ((calls ++ [f.answered writer x]).countP fun b => b.isNew && b.key == c.key) = 1 := by
  intro c hc
  rw [List.countP_append, List.countP_singleton]
  by_cases hold : ∃ b ∈ calls, b.key = c.key
  · obtain ⟨b, hb, hkey⟩ := hold
    have hlast : ¬((f.answered writer x).isNew && (f.answered writer x).key == c.key) = true := by
      rw [Bool.and_eq_true, beq_iff_eq, h.isNew_answered]
      rintro ⟨hnew, hx⟩
      exact hnew b hb (hkey.trans hx.symm)
    rw [if_neg hlast, ← hkey, h.once b hb]
  · have hnone : (calls.countP fun b => b.isNew && b.key == c.key) = 0 := by
      rw [List.countP_eq_zero]
      intro b hb hcount
      rw [Bool.and_eq_true, beq_iff_eq] at hcount
      exact hold ⟨b, hb, hcount.2⟩
    rcases List.mem_append.mp hc with hc | hc
    · exact absurd ⟨c, hc, rfl⟩ hold
    · obtain rfl := List.mem_singleton.mp hc
      have hnew : (f.answered writer x).isNew = true :=
        h.isNew_answered.mpr fun b hb hkey => hold ⟨b, hb, hkey⟩
      rw [hnone, hnew, beq_self_eq_true, Bool.and_self, if_pos rfl]

/-- One more call adds its key. -/
theorem contains_iff_concat (h : Kept calls f) (key : String) :
    (f.record x.key x.summary).2.contains key = true ↔
      ∃ c ∈ calls ++ [f.answered writer x], c.key = key := by
  rw [contains_record_iff, h.contains_iff]
  simp only [List.mem_append, List.mem_singleton, or_and_right, exists_or, exists_eq_left]
  rfl

/-- One more call leaves the first finding for each key. -/
theorem mem_snapshot_iff_concat (h : Kept calls f) (y : Finding) :
    y ∈ (f.record x.key x.summary).2.snapshot ↔
      ((calls ++ [f.answered writer x]).find? (·.key = y.key)).map (·.finding) = some y := by
  rw [mem_record h.isSorted, h.mem_snapshot_iff, List.find?_append, h.contains_eq_false_iff]
  cases hfirst : calls.find? (·.key = y.key) with
  | some c =>
    -- The key was recorded before, and the call that did so comes first.
    have hc : c.key = y.key := by simpa using List.find?_some hfirst
    rw [Option.some_or]
    refine or_iff_left ?_
    rintro ⟨hnew, -⟩
    exact hnew c (List.mem_of_find?_eq_some hfirst) hc
  | none =>
    have hnew : ∀ c ∈ calls, c.key ≠ y.key := by simpa using hfirst
    rw [Option.none_or, Option.map_none, and_iff_right hnew, or_iff_right nofun]
    constructor
    · rintro rfl
      simp [Call.key, Findings.answered]
    · intro hlast
      obtain ⟨c, hc, rfl⟩ := Option.map_eq_some_iff.mp hlast
      obtain rfl := List.mem_singleton.mp (List.mem_of_find?_eq_some hc)
      rfl

/-- One more call. -/
theorem record (h : Kept calls f) (writer : Nat) (x : Finding) :
    Kept (calls ++ [f.answered writer x]) (f.record x.key x.summary).2 where
  recorded := by
    rw [List.map_append, recordAll_append, ← h.recorded]
    rfl
  answered := forall_split_concat h.answered (h.recorded ▸ rfl)
  isNew_iff := forall_split_concat h.isNew_iff h.isNew_answered
  once := h.once_concat
  contains_iff := h.contains_iff_concat
  mem_snapshot_iff := h.mem_snapshot_iff_concat
  size_eq := by
    rw [size_eq_card (isSorted_record h.isSorted _ _)]
    refine congrArg Finset.card (Finset.ext fun key => ?_)
    rw [List.mem_toFinset, List.mem_toFinset, List.mem_map, List.mem_map]
    exact Findings.contains_iff.symm.trans (h.contains_iff_concat key)
  precedes := precedes_iff.mpr (isSorted_record h.isSorted _ _)

/-- What is known of a key is one finding. -/
theorem eq_of_key_eq (h : Kept calls f) (hx : x ∈ f.snapshot) (hy : y ∈ f.snapshot)
    (hkey : x.key = y.key) : x = y := by
  have hfirst := (h.mem_snapshot_iff x).mp hx
  rw [hkey, (h.mem_snapshot_iff y).mp hy] at hfirst
  exact (Option.some.inj hfirst).symm

end Kept

end Findings

end PackageGate
