import Mathlib.Data.List.Perm.Basic
import Mathlib.Data.String.Basic
import PackageGate.Findings

/-!
# Findings only grow

- `Findings.sublist_record`: every finding stays in its place among the others.
- `Findings.contains_record`: a recorded key is found.
- `Findings.IsSorted`, `Findings.isSorted_record`: findings stand in strictly
  rising order of their keys, whatever is recorded.
- `Findings.recordAll`: one finding is recorded after another; `Findings.mem_recordAll`:
  of the new findings for a key the first one stays, unless the key was known.
- `Findings.ext_of_isSorted`: sorted findings are determined by their members.
-/

namespace PackageGate

namespace Findings

/-- The findings stand in strictly rising order of their keys. -/
def IsSorted (f : Findings) : Prop := f.entries.Pairwise (·.key < ·.key)

/-- Inserting takes nothing away, and leaves the order as it is. -/
theorem sublist_insert (x : Finding) (l : List Finding) : l.Sublist (insert x l) := by
  induction l with
  | nil => exact List.nil_sublist _
  | cons y r ih =>
    unfold insert
    split
    · exact List.sublist_cons_self _ _
    · split
      · exact .refl _
      · exact ih.cons_cons y

/-- Nothing but the finding itself is inserted. -/
theorem mem_insert {x y : Finding} {l : List Finding} (h : y ∈ insert x l) : y = x ∨ y ∈ l := by
  induction l with
  | nil => exact .inl (List.mem_singleton.mp h)
  | cons z r ih =>
    unfold insert at h
    split at h
    · exact List.mem_cons.mp h
    · split at h
      · exact .inr h
      · rcases List.mem_cons.mp h with rfl | h
        · exact .inr List.mem_cons_self
        · exact (ih h).imp_right (List.mem_cons_of_mem z)

theorem exists_key_mem_insert (x : Finding) (l : List Finding) :
    ∃ y ∈ insert x l, y.key = x.key := by
  induction l with
  | nil => exact ⟨x, List.mem_cons_self, rfl⟩
  | cons z r ih =>
    unfold insert
    split
    · exact ⟨x, List.mem_cons_self, rfl⟩
    · split
      · exact ⟨z, List.mem_cons_self, Eq.symm ‹_›⟩
      · obtain ⟨y, hy, hkey⟩ := ih
        exact ⟨y, List.mem_cons_of_mem z hy, hkey⟩

/-- Inserting keeps the keys strictly rising. -/
theorem pairwise_insert {x : Finding} {l : List Finding} (h : l.Pairwise (·.key < ·.key)) :
    (insert x l).Pairwise (·.key < ·.key) := by
  induction l with
  | nil => exact List.pairwise_singleton _ _
  | cons y r ih =>
    obtain ⟨hy, hr⟩ := List.pairwise_cons.mp h
    unfold insert
    split
    · rename_i hlt
      refine List.pairwise_cons.mpr ⟨fun z hz => ?_, h⟩
      rcases List.mem_cons.mp hz with rfl | hz
      · exact hlt
      · exact lt_trans hlt (hy z hz)
    · rename_i hlt
      split
      · exact h
      · rename_i hne
        refine List.pairwise_cons.mpr ⟨fun z hz => ?_, ih hr⟩
        rcases mem_insert hz with rfl | hz
        · exact lt_of_le_of_ne (not_lt.mp hlt) (Ne.symm hne)
        · exact hy z hz

theorem isSorted_empty : empty.IsSorted := List.Pairwise.nil

theorem IsSorted.nodup {f : Findings} (h : f.IsSorted) : f.entries.Nodup :=
  h.imp fun hlt => fun heq => absurd (heq ▸ hlt) (lt_irrefl _)

/-- Recording keeps findings in order. -/
theorem isSorted_record {f : Findings} (h : f.IsSorted) (key summary : String) :
    (f.record key summary).2.IsSorted :=
  pairwise_insert h

/-- Every finding stays in its place among the others. -/
theorem sublist_record (f : Findings) (key summary : String) :
    f.entries.Sublist (f.record key summary).2.entries :=
  sublist_insert _ _

/-- A key that is recorded is found from then on. -/
theorem contains_record (f : Findings) (key summary : String) :
    (f.record key summary).2.contains key := by
  obtain ⟨y, hy, hkey⟩ := exists_key_mem_insert ⟨key, summary⟩ f.entries
  exact List.any_eq_true.mpr ⟨y, hy, by simpa using hkey⟩

theorem contains_mono {f f' : Findings} (h : f.entries.Sublist f'.entries) {key : String}
    (hkey : f.contains key) : f'.contains key := by
  obtain ⟨y, hy, hy'⟩ := List.any_eq_true.mp hkey
  exact List.any_eq_true.mpr ⟨y, h.subset hy, hy'⟩

theorem contains_iff {f : Findings} {key : String} :
    f.contains key ↔ ∃ x ∈ f.snapshot, x.key = key := by
  simp [contains, snapshot]

theorem contains_eq_false_iff {f : Findings} {key : String} :
    f.contains key = false ↔ ∀ x ∈ f.snapshot, x.key ≠ key := by
  simp [contains, snapshot]

/-! ## Many findings -/

/-- A new finding stands among the others unless its key is known. -/
theorem mem_insert_iff {x y : Finding} {l : List Finding} (h : l.Pairwise (·.key < ·.key)) :
    y ∈ insert x l ↔ y ∈ l ∨ (y = x ∧ ∀ z ∈ l, z.key ≠ x.key) := by
  induction l with
  | nil => simp [insert]
  | cons z r ih =>
    obtain ⟨hz, hr⟩ := List.pairwise_cons.mp h
    unfold insert
    split
    · rename_i hlt
      have hnew : ∀ u ∈ z :: r, u.key ≠ x.key := by
        intro u hu
        rcases List.mem_cons.mp hu with rfl | hu
        · exact (ne_of_lt hlt).symm
        · exact (ne_of_lt (lt_trans hlt (hz u hu))).symm
      rw [List.mem_cons]
      constructor
      · rintro (rfl | hy)
        · exact .inr ⟨rfl, hnew⟩
        · exact .inl hy
      · rintro (hy | ⟨rfl, -⟩)
        · exact .inr hy
        · exact .inl rfl
    · split
      · rename_i heq
        constructor
        · exact .inl
        · rintro (hy | ⟨-, hnew⟩)
          · exact hy
          · exact absurd heq.symm (hnew z List.mem_cons_self)
      · rename_i hne
        rw [List.mem_cons, ih hr, List.mem_cons, or_assoc]
        refine or_congr_right (or_congr_right (and_congr_right fun _ => ?_))
        rw [List.forall_mem_cons]
        exact ⟨fun hall => ⟨Ne.symm hne, hall⟩, And.right⟩

/-- Recording adds the finding if there was none for its key, and nothing else. -/
theorem mem_record {f : Findings} (h : f.IsSorted) {x y : Finding} :
    y ∈ (f.record x.key x.summary).2.snapshot ↔
      y ∈ f.snapshot ∨ (f.contains y.key = false ∧ y = x) := by
  show y ∈ insert x f.entries ↔ _
  rw [mem_insert_iff h, contains_eq_false_iff]
  refine or_congr_right ⟨?_, ?_⟩
  · rintro ⟨rfl, hnew⟩
    exact ⟨hnew, rfl⟩
  · rintro ⟨hnew, rfl⟩
    exact ⟨rfl, hnew⟩

theorem contains_record_eq_false {f : Findings} {key summary key' : String} :
    (f.record key summary).2.contains key' = false ↔ f.contains key' = false ∧ key ≠ key' := by
  constructor
  · intro h
    refine ⟨?_, ?_⟩
    · rw [contains_eq_false_iff] at h ⊢
      exact fun x hx => h x ((sublist_record f key summary).subset hx)
    · rintro rfl
      rw [contains_record f key summary] at h
      cases h
  · rintro ⟨h, hne⟩
    rw [contains_eq_false_iff] at h ⊢
    intro x hx
    rcases mem_insert (x := ⟨key, summary⟩) hx with rfl | hx
    · exact hne
    · exact h x hx

/-- Records one finding after another. -/
def recordAll (f : Findings) (xs : List Finding) : Findings :=
  xs.foldl (fun f x => (f.record x.key x.summary).2) f

@[simp] theorem recordAll_nil (f : Findings) : f.recordAll [] = f := rfl

@[simp] theorem recordAll_cons (f : Findings) (x : Finding) (xs : List Finding) :
    f.recordAll (x :: xs) = (f.record x.key x.summary).2.recordAll xs := rfl

theorem recordAll_append (f : Findings) (xs ys : List Finding) :
    f.recordAll (xs ++ ys) = (f.recordAll xs).recordAll ys := List.foldl_append

/-- The findings after recording are those of before and, for every key that was not
known, the first one that was recorded for it. -/
theorem mem_recordAll {f : Findings} (h : f.IsSorted) {xs : List Finding} {y : Finding} :
    y ∈ (f.recordAll xs).snapshot ↔
      y ∈ f.snapshot ∨ (f.contains y.key = false ∧ xs.find? (·.key = y.key) = some y) := by
  induction xs generalizing f with
  | nil => simp
  | cons x xs ih =>
    rw [recordAll_cons, ih (isSorted_record h _ _), mem_record h]
    rw [contains_record_eq_false]
    by_cases hx : x.key = y.key
    · rw [List.find?_cons_of_pos (by simpa using hx)]
      constructor
      · rintro ((hy | ⟨hnew, rfl⟩) | ⟨⟨-, hne⟩, -⟩)
        · exact .inl hy
        · exact .inr ⟨hnew, rfl⟩
        · exact absurd hx hne
      · rintro (hy | ⟨hnew, hy⟩)
        · exact .inl (.inl hy)
        · exact .inl (.inr ⟨hnew, (Option.some.inj hy).symm⟩)
    · rw [List.find?_cons_of_neg (by simpa using hx)]
      constructor
      · rintro ((hy | ⟨-, rfl⟩) | ⟨⟨hnew, -⟩, hy⟩)
        · exact .inl hy
        · exact absurd rfl hx
        · exact .inr ⟨hnew, hy⟩
      · rintro (hy | ⟨hnew, hy⟩)
        · exact .inl (.inl hy)
        · exact .inr ⟨⟨hnew, hx⟩, hy⟩

/-- Sorted findings are determined by their members. -/
theorem ext_of_isSorted {f g : Findings} (hf : f.IsSorted) (hg : g.IsSorted)
    (h : ∀ x, x ∈ f.snapshot ↔ x ∈ g.snapshot) : f = g := by
  have hperm : f.entries.Perm g.entries :=
    (List.perm_ext_iff_of_nodup (IsSorted.nodup hf) (IsSorted.nodup hg)).mpr h
  have heq : f.entries = g.entries :=
    hperm.eq_of_pairwise (fun _ _ _ _ hab hba => absurd hba (lt_asymm hab)) hf hg
  cases f
  cases g
  exact congrArg Findings.mk heq

end Findings

end PackageGate
