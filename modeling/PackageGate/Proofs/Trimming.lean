import PackageGate.Text.Blank

/-!
# What is dropped at the ends of a text

Reading a text drops characters in front of it or behind it, up to one that is kept.

- `Text.dropWhile_append_cons`, `Text.takeWhile_append_cons`: a character that is kept stops what is
  dropped in front.
- `Text.trim_append`, `Text.trim_eq_self`, `Text.mem_trim`: trimming drops the blanks around a text
  and nothing in it.
-/

namespace PackageGate.Text

section Ends

variable {α : Type} {p : α → Bool} {c : α}

/-- What is dropped in front ends where a character stops it. -/
theorem dropWhile_append_cons (h : p c = false) (as bs : List α) :
    (as ++ c :: bs).dropWhile p = as.dropWhile p ++ c :: bs := by
  rw [List.dropWhile_append]
  split
  · rename_i hempty
    rw [List.isEmpty_iff.1 hempty, List.dropWhile_cons_of_neg (by simp [h]), List.nil_append]
  · rfl

theorem takeWhile_append_cons (h : p c = false) (as bs : List α) :
    (as ++ c :: bs).takeWhile p = as.takeWhile p := by
  rw [List.takeWhile_append]
  split
  · rename_i hall
    rw [List.takeWhile_cons_of_neg (by simp [h]), List.append_nil]
    exact ((List.takeWhile_prefix p).eq_of_length hall).symm
  · rfl

/-- Everything in front of the first `c` is dropped, and `c` is kept. -/
theorem dropWhile_ne_append [DecidableEq α] {as : List α} (h : c ∉ as) (bs : List α) :
    (as ++ c :: bs).dropWhile (· ≠ c) = c :: bs := by
  rw [List.dropWhile_append_of_pos, List.dropWhile_cons_of_neg (by simp)]
  exact fun a ha => decide_eq_true fun heq => h (heq ▸ ha)

theorem takeWhile_ne_append [DecidableEq α] {as : List α} (h : c ∉ as) (bs : List α) :
    (as ++ c :: bs).takeWhile (· ≠ c) = as := by
  rw [List.takeWhile_append_of_pos, List.takeWhile_cons_of_neg (by simp), List.append_nil]
  exact fun a ha => decide_eq_true fun heq => h (heq ▸ ha)

theorem drop_length_takeWhile (p : α → Bool) (as : List α) :
    as.drop (as.takeWhile p).length = as.dropWhile p := by
  calc as.drop (as.takeWhile p).length
      = (as.takeWhile p ++ as.dropWhile p).drop (as.takeWhile p).length := by
        rw [List.takeWhile_append_dropWhile]
    _ = as.dropWhile p := List.drop_left

theorem eq_false_of_head?_dropWhile {as : List α} (h : (as.dropWhile p).head? = some c) :
    p c = false := by
  have hhead := List.head?_dropWhile_not p as
  rw [h] at hhead
  exact hhead

theorem dropWhile_eq_self {as : List α} (h : ∀ a ∈ as.head?, p a = false) :
    as.dropWhile p = as := by
  cases as with
  | nil => rfl
  | cons a as => exact List.dropWhile_cons_of_neg (by simp [h a rfl])

end Ends

/-! ## Blanks -/

variable {cs ds front behind : List Char} {c : Char}

theorem toNat_of_isAlphanum {c : Char} (h : c.isAlphanum = true) :
    (48 ≤ c.toNat ∧ c.toNat ≤ 57) ∨ (65 ≤ c.toNat ∧ c.toNat ≤ 90) ∨
      (97 ≤ c.toNat ∧ c.toNat ≤ 122) := by
  replace h : (decide (65 ≤ c.val ∧ c.val ≤ 90) || (97 ≤ c.val && c.val ≤ 122) ||
      (48 ≤ c.val && c.val ≤ 57)) = true := h
  simp only [Bool.or_eq_true, Bool.and_eq_true, decide_eq_true_eq, UInt32.le_iff_toNat_le] at h
  have hranges : (65 ≤ c.toNat ∧ c.toNat ≤ 90 ∨ 97 ≤ c.toNat ∧ c.toNat ≤ 122) ∨
      48 ≤ c.toNat ∧ c.toNat ≤ 57 := h
  omega

theorem isBlank_of_isAlphanum {c : Char} (h : c.isAlphanum = true) : isBlank c = false := by
  have hrange := toNat_of_isAlphanum h
  simp only [isBlank, Bool.or_eq_false_iff, Bool.and_eq_false_iff, decide_eq_false_iff_not,
    beq_eq_false_iff_ne]
  omega

/-- A text of blanks. -/
def IsGap (cs : List Char) : Prop := ∀ c ∈ cs, isBlank c = true

instance (cs : List Char) : Decidable (IsGap cs) := decidable_of_iff _ List.all_eq_true

/-- A gap in front is dropped. -/
theorem trimStart_append (h : IsGap front) (cs : List Char) :
    trimStart (front ++ cs) = trimStart cs :=
  List.dropWhile_append_of_pos h

/-- A gap behind is dropped. -/
theorem trimEnd_append (h : IsGap behind) (cs : List Char) :
    trimEnd (cs ++ behind) = trimEnd cs := by
  unfold trimEnd
  rw [List.reverse_append, List.dropWhile_append_of_pos]
  exact fun c hc => h c (List.mem_reverse.1 hc)

theorem trimEnd_append_cons (h : isBlank c = false) (cs ds : List Char) :
    trimEnd (cs ++ c :: ds) = cs ++ c :: trimEnd ds := by
  unfold trimEnd
  rw [List.reverse_append, List.reverse_cons, List.append_assoc, List.singleton_append,
    dropWhile_append_cons h, List.reverse_append, List.reverse_cons, List.reverse_reverse,
    List.append_assoc]
  rfl

theorem trimStart_cons (h : isBlank c = false) (cs : List Char) : trimStart (c :: cs) = c :: cs :=
  dropWhile_append_cons h [] cs

theorem trimEnd_of_isGap (h : IsGap cs) : trimEnd cs = [] := by
  rw [← List.nil_append cs, trimEnd_append h]
  rfl

theorem trimStart_of_isGap (h : IsGap cs) : trimStart cs = [] := by
  rw [← List.append_nil cs, trimStart_append h]
  rfl

theorem isGap_takeWhile (cs : List Char) : IsGap (cs.takeWhile isBlank) :=
  fun c hc => List.all_eq_true.1 List.all_takeWhile c hc

/-- A text is blank, or begins with blanks and something that is none. -/
theorem isGap_or_exists (cs : List Char) :
    IsGap cs ∨ ∃ front c behind, cs = front ++ c :: behind ∧ IsGap front ∧ isBlank c = false := by
  cases hrest : cs.dropWhile isBlank with
  | nil =>
    have hall := List.takeWhile_append_dropWhile (p := isBlank) (l := cs)
    rw [hrest, List.append_nil] at hall
    exact .inl (hall ▸ isGap_takeWhile cs)
  | cons c behind =>
    refine .inr ⟨cs.takeWhile isBlank, c, behind, ?_, ?_, ?_⟩
    · rw [← hrest, List.takeWhile_append_dropWhile]
    · exact isGap_takeWhile cs
    · exact eq_false_of_head?_dropWhile (congrArg List.head? hrest)

/-- It does not matter which end comes first. -/
theorem trimStart_trimEnd (cs : List Char) : trimStart (trimEnd cs) = trim cs := by
  -- from its first character that is no blank, a text is cut at its end alone
  rcases isGap_or_exists cs with hgap | ⟨front, c, behind, rfl, hfront, hc⟩
  · rw [trim, trimEnd_of_isGap hgap, trimStart_of_isGap hgap]
    rfl
  · rw [trim, trimEnd_append_cons hc, trimStart_append hfront, trimStart_append hfront,
      trimStart_cons hc, trimStart_cons hc]
    exact (trimEnd_append_cons hc [] behind).symm

theorem trim_append_left (hfront : IsGap front) (cs : List Char) :
    trim (front ++ cs) = trim cs := by
  rw [trim, trimStart_append hfront, ← trim]

/-- Blanks around a text do not count. -/
theorem trim_append (hfront : IsGap front) (hbehind : IsGap behind) (cs : List Char) :
    trim (front ++ (cs ++ behind)) = trim cs := by
  rw [trim_append_left hfront, ← trimStart_trimEnd, trimEnd_append hbehind, trimStart_trimEnd]

theorem trim_cons_concat {d : Char} (hc : isBlank c = false) (hd : isBlank d = false)
    (cs : List Char) : trim (c :: (cs ++ [d])) = c :: (cs ++ [d]) := by
  rw [trim, trimStart_cons hc]
  exact trimEnd_append_cons hd (c :: cs) []

/-- What is trimmed at the end is a gap. -/
theorem exists_trimEnd (cs : List Char) : ∃ behind, IsGap behind ∧ cs = trimEnd cs ++ behind := by
  refine ⟨(cs.reverse.takeWhile isBlank).reverse, fun c hc => ?_, ?_⟩
  · exact isGap_takeWhile _ c (List.mem_reverse.1 hc)
  · rw [trimEnd, ← List.reverse_append, List.takeWhile_append_dropWhile, List.reverse_reverse]

/-- Trimming drops the blanks at both ends. -/
theorem exists_trim (cs : List Char) :
    ∃ front behind, IsGap front ∧ IsGap behind ∧ cs = front ++ (trim cs ++ behind) := by
  obtain ⟨behind, hbehind, hend⟩ := exists_trimEnd (trimStart cs)
  refine ⟨cs.takeWhile isBlank, behind, isGap_takeWhile cs, hbehind, ?_⟩
  rw [trim, ← hend, trimStart, List.takeWhile_append_dropWhile]

/-- Only blanks are dropped. -/
theorem mem_trim (hc : isBlank c = false) : c ∈ trim cs ↔ c ∈ cs := by
  obtain ⟨front, behind, hfront, hbehind, hcs⟩ := exists_trim cs
  have hgap : ∀ {gap : List Char}, IsGap gap → c ∉ gap := by
    intro gap hgap hmem
    rw [hgap c hmem] at hc
    cases hc
  have hmem : c ∈ front ++ (trim cs ++ behind) ↔ c ∈ trim cs := by
    simp only [List.mem_append, hgap hfront, hgap hbehind, false_or, or_false]
  rw [← hmem, ← hcs]

theorem mem_of_mem_trim (h : c ∈ trim cs) : c ∈ cs := by
  obtain ⟨front, behind, -, -, hcs⟩ := exists_trim cs
  rw [hcs]
  exact List.mem_append_right _ (List.mem_append_left _ h)

/-- Trimming twice is trimming once. -/
theorem trim_trim (cs : List Char) : trim (trim cs) = trim cs := by
  obtain ⟨front, behind, hfront, hbehind, hcs⟩ := exists_trim cs
  rw [← trim_append hfront hbehind (trim cs), ← hcs]

theorem trim_trimEnd (cs : List Char) : trim (trimEnd cs) = trim cs := by
  obtain ⟨behind, hbehind, hcs⟩ := exists_trimEnd cs
  have hfront : IsGap [] := nofun
  rw [← trim_append hfront hbehind (trimEnd cs), List.nil_append, ← hcs]

/-- Only a blank text is trimmed to nothing. -/
theorem trim_eq_nil : trim cs = [] ↔ IsGap cs := by
  constructor
  · intro hnil
    obtain ⟨front, behind, hfront, hbehind, hcs⟩ := exists_trim cs
    rw [hcs, hnil]
    intro c hc
    exact (List.mem_append.1 hc).elim (hfront c) (hbehind c)
  · intro hgap
    rw [trim, trimStart_of_isGap hgap]
    rfl

theorem isGap_iff {s : String} : IsGap s.toList ↔ isBlankText s = true := List.all_eq_true.symm

theorem isBlank_getLast?_append (hne : ds ≠ []) (h : ∀ c ∈ ds, isBlank c = false) :
    ∀ c ∈ (cs ++ ds).getLast?, isBlank c = false := by
  intro c hc
  obtain ⟨ds', d, rfl⟩ := List.eq_nil_or_concat ds |>.resolve_left hne
  rw [List.concat_eq_append, ← List.append_assoc, List.getLast?_concat] at hc
  cases hc
  exact h c (by simp)

/-- A text that begins and ends with something is left as it is. -/
theorem trim_eq_self (hhead : ∀ c ∈ cs.head?, isBlank c = false)
    (hlast : ∀ c ∈ cs.getLast?, isBlank c = false) : trim cs = cs := by
  rw [trim, trimStart, dropWhile_eq_self hhead, trimEnd, dropWhile_eq_self, List.reverse_reverse]
  rwa [List.head?_reverse]

end PackageGate.Text
