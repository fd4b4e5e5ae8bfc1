import PackageGate.Proofs.Requirement.Written

/-!
# Reading declared requirements

- `Requirement.splitMarker_append`: the first semicolon parts a requirement from its marker.
- `Requirement.IsSpecifier.declaredVersion_eq_iff`: the version that a specifier is read as is the
  one that it asks for, except behind three equals signs.
- `Requirement.IsWritten.ofDeclared_eq_none`, `Requirement.IsWritten.exists_ofDeclared`: a written
  requirement declares nothing if its marker mentions the word `extra`, and otherwise a dependency
  on its name.
-/

namespace PackageGate.Requirement

open Text (IsGap trim trimStart trimEnd isBlank)

variable {cs ds : List Char} {c : Char} {clause : Clause} {clauses : List Clause}
  {extras : List String} {r : Parts} {entry : String}

/-! ## The parts of the reader -/

theorem splitMarker_eq_self (h : ';' ∉ cs) : splitMarker cs = (cs, none) := by
  have hall : cs.dropWhile (· ≠ ';') = [] := by
    rw [← List.append_nil cs, List.dropWhile_append_of_pos]
    · rfl
    · exact fun c hc => decide_eq_true fun heq => h (heq ▸ hc)
  rw [splitMarker, hall]

/-- The first semicolon begins the marker. -/
theorem splitMarker_append (h : ';' ∉ cs) (ds : List Char) :
    splitMarker (cs ++ ';' :: ds) = (cs, some ds) := by
  rw [splitMarker, Text.dropWhile_ne_append h, Text.takeWhile_ne_append h]

/-- A word occurs in a text as a stretch of it. -/
theorem occursIn_iff (word : List Char) : occursIn word cs = true ↔ word <:+: cs := by
  induction cs with
  | nil => rw [occursIn, List.isEmpty_iff, List.infix_nil]
  | cons c cs ih =>
    rw [occursIn, Bool.or_eq_true, ih, List.isPrefixOf_iff_prefix, List.infix_cons_iff]

theorem dropWhile_eq_self_of_not_mem (h : c ∉ cs) : cs.dropWhile (· = c) = cs :=
  Text.dropWhile_eq_self fun _ hd => decide_eq_false fun heq => h (heq ▸ List.mem_of_mem_head? hd)

theorem dropParens_eq_self (hopen : '(' ∉ cs) (hclose : ')' ∉ cs) : dropParens cs = cs := by
  have hclose' : ')' ∉ cs.reverse := fun hmem => hclose (List.mem_reverse.1 hmem)
  rw [dropParens, dropWhile_eq_self_of_not_mem hopen, dropWhile_eq_self_of_not_mem hclose',
    List.reverse_reverse]

/-- A pair of parentheses is dropped. -/
theorem dropParens_parens (hopen : '(' ∉ cs) (hclose : ')' ∉ cs) :
    dropParens ('(' :: (cs ++ [')'])) = cs := by
  have hopen' : '(' ∉ cs ++ [')'] := by simp [hopen]
  have hclose' : ')' ∉ cs.reverse := fun hmem => hclose (List.mem_reverse.1 hmem)
  rw [dropParens, List.dropWhile_cons_of_pos rfl, dropWhile_eq_self_of_not_mem hopen',
    List.reverse_append, List.reverse_singleton, List.singleton_append,
    List.dropWhile_cons_of_pos rfl, dropWhile_eq_self_of_not_mem hclose', List.reverse_reverse]

/-- What stands behind the first closing bracket is left. -/
theorem afterBracket_append (h : ']' ∉ cs) (ds : List Char) :
    afterBracket (cs ++ ']' :: ds) = ds := by
  rw [afterBracket, Text.dropWhile_ne_append h]
  rfl

theorem dropExtras_eq_self (h : cs.head? ≠ some '[') : dropExtras cs = cs := by
  unfold dropExtras
  split
  · exact absurd rfl h
  · rfl

/-! ## Clauses -/

theorem IsSpace.isGap (h : IsSpace cs) : IsGap cs := by
  intro c hc
  rcases h c hc with rfl | rfl <;> rfl

theorem IsVersion.isBlank_eq_false (h : IsVersion cs) : ∀ c ∈ cs, isBlank c = false := by
  intro c hc
  rcases h.2 c hc with halnum | hmark
  · exact Text.isBlank_of_isAlphanum halnum
  · simp only [List.mem_cons, List.not_mem_nil, or_false] at hmark
    rcases hmark with rfl | rfl | rfl | rfl | rfl | rfl <;> rfl

/-- A version has no blanks to trim. -/
theorem IsVersion.trim_eq_self (h : IsVersion cs) : trim cs = cs :=
  Text.trim_eq_self (fun c hc => h.isBlank_eq_false c (List.mem_of_mem_head? hc))
    fun c hc => h.isBlank_eq_false c (List.mem_of_getLast? hc)

theorem IsVersion.isBlank_getLast? (h : IsVersion ds) :
    ∀ c ∈ (cs ++ ds).getLast?, isBlank c = false :=
  Text.isBlank_getLast?_append h.1 h.isBlank_eq_false

theorem Comparison.isBlank_head? (comparison : Comparison) (cs : List Char) :
    ∀ c ∈ (comparison.text ++ cs).head?, isBlank c = false := by
  cases comparison <;> exact fun c hc => Option.some.inj hc ▸ rfl

/-- The spaces around a clause do not count. -/
theorem Clause.IsWritten.exists_trim (h : clause.IsWritten cs) : ∃ between, IsSpace between ∧
    IsVersion clause.version ∧ trim cs = clause.comparison.text ++ (between ++ clause.version) := by
  obtain ⟨front, between, behind, hfront, hbetween, hbehind, hversion, rfl⟩ := h
  refine ⟨between, hbetween, hversion, ?_⟩
  have hcore : trim (clause.comparison.text ++ (between ++ clause.version)) =
      clause.comparison.text ++ (between ++ clause.version) := by
    refine Text.trim_eq_self (clause.comparison.isBlank_head? _) ?_
    rw [← List.append_assoc]
    exact hversion.isBlank_getLast?
  refine Eq.trans ?_ hcore
  rw [← Text.trim_append hfront.isGap hbehind.isGap (clause.comparison.text ++ _)]
  simp only [List.append_assoc]

/-- More than one clause leaves the version open. -/
theorem declaredVersion_of_comma (h : ',' ∈ cs) : declaredVersion cs = ['*'] := by
  unfold declaredVersion
  split
  · rename_i version hpinned
    have hcs : cs = '=' :: '=' :: version := by
      unfold pinned? at hpinned
      split at hpinned <;> cases hpinned
      rfl
    rw [hcs] at h
    have hcomma : version.contains ',' = true := by simpa using h
    rw [hcomma, Bool.true_or, if_pos rfl]
  · rfl

/-- Behind two equals signs stands the version. With a star in it any version is meant. -/
theorem declaredVersion_equals (hcomma : ',' ∉ cs) :
    declaredVersion ('=' :: '=' :: cs) = if '*' ∈ cs then ['*'] else trim cs := by
  simp only [declaredVersion, pinned?, Bool.or_eq_true, List.contains_iff_mem, hcomma, false_or]

/-- Only `===` is arbitrary equality. -/
theorem IsArbitrary.not_of_ne (h : clause.comparison ≠ .arbitrary) : ¬ IsArbitrary [clause] := by
  rintro ⟨version, heq, -⟩
  cases heq
  exact h rfl

section Pins

variable {between version : List Char} (hbetween : IsSpace between) (hversion : IsVersion version)

include hbetween hversion

theorem not_mem_pin : ',' ∉ between ++ version := by
  rw [List.mem_append]
  rintro (hmem | hmem)
  · exact nomatch hbetween.isNameText hmem
  · exact nomatch hversion.isClauseText hmem

omit hversion in
theorem mem_pin : '*' ∈ between ++ version ↔ '*' ∈ version := by
  have hspace : '*' ∉ between := fun hmem => nomatch hbetween.isNameText hmem
  rw [List.mem_append, or_iff_right hspace]

theorem declaredVersion_equal : declaredVersion ('=' :: '=' :: (between ++ version)) =
    if '*' ∈ version then ['*'] else version := by
  rw [declaredVersion_equals (not_mem_pin hbetween hversion), Text.trim_append_left hbetween.isGap,
    hversion.trim_eq_self]
  simp only [mem_pin hbetween]

/-- Of three equals signs the last one is read as part of the version. -/
theorem declaredVersion_arbitrary : declaredVersion ('=' :: '=' :: '=' :: (between ++ version)) =
    ['*'] ↔ '*' ∈ version := by
  have hcomma : ',' ∉ '=' :: (between ++ version) :=
    fun hmem => not_mem_pin hbetween hversion (List.mem_of_ne_of_mem (by decide) hmem)
  have hstar : '*' ∈ '=' :: (between ++ version) ↔ '*' ∈ version := by
    rw [List.mem_cons, or_iff_right (by decide), mem_pin hbetween]
  rw [declaredVersion_equals hcomma]
  simp only [hstar]
  split
  · rename_i hwild
    exact iff_of_true rfl hwild
  · rename_i hwild
    refine iff_of_false (fun heq => ?_) hwild
    have hsign : '=' ∈ trim ('=' :: (between ++ version)) :=
      (Text.mem_trim rfl).2 List.mem_cons_self
    rw [heq] at hsign
    exact absurd hsign (by decide)

end Pins

theorem ofList_eq_any {cs : List Char} : String.ofList cs = "*" ↔ cs = ['*'] := by
  rw [← String.toList_inj, String.toList_ofList]
  rfl

/-- A clause is read as what it asks for, unless it compares the version as a text. -/
theorem Clause.IsWritten.declaredVersion_eq_iff (h : clause.IsWritten cs) :
    String.ofList (declaredVersion (trim cs)) = askedVersion [clause] ↔ ¬ IsArbitrary [clause] := by
  obtain ⟨between, hbetween, hversion, htrim⟩ := h.exists_trim
  rcases clause with ⟨comparison, version⟩
  rw [htrim]
  cases comparison with
  | equal =>
    refine iff_of_true ?_ (IsArbitrary.not_of_ne nofun)
    refine (congrArg String.ofList (declaredVersion_equal hbetween hversion)).trans ?_
    rw [askedVersion]
    split <;> rfl
  | arbitrary =>
    have hiff : IsArbitrary [⟨.arbitrary, version⟩] ↔ '*' ∉ version := by
      constructor
      · rintro ⟨version', heq, hwild⟩
        cases heq
        exact hwild
      · exact fun hwild => ⟨version, rfl, hwild⟩
    rw [hiff, Decidable.not_not]
    exact ofList_eq_any.trans (declaredVersion_arbitrary hbetween hversion)
  | less | atMost | unequal | atLeast | greater | compatible =>
    exact iff_of_true rfl (IsArbitrary.not_of_ne nofun)

/-! ## Specifiers and extras -/

/-- The clauses are read for what they ask, except for arbitrary equality. -/
theorem Separated.declaredVersion_eq_iff (h : Separated Clause.IsWritten clauses cs) :
    String.ofList (declaredVersion (trim cs)) = askedVersion clauses ↔ ¬ IsArbitrary clauses := by
  cases h with
  | one h => exact h.declaredVersion_eq_iff
  | @more clause clauses cs rest _ hrest =>
    -- the comma leaves the version open, whatever the first clause is
    obtain ⟨next, others, rfl⟩ : ∃ next others, clauses = next :: others := by
      cases hrest <;> exact ⟨_, _, rfl⟩
    have hcomma : ',' ∈ trim (cs ++ ',' :: rest) := (Text.mem_trim rfl).2 (by simp)
    rw [declaredVersion_of_comma hcomma]
    refine iff_of_true ?_ (fun ⟨version, heq, _⟩ => nomatch heq)
    rcases clause with ⟨comparison, version⟩
    cases comparison <;> rfl

/-- Parentheses around the clauses do not count. -/
theorem IsSpecifier.declaredVersion_eq_iff (h : IsSpecifier clauses cs) :
    String.ofList (declaredVersion (trim (dropParens (trim cs)))) = askedVersion clauses ↔
      ¬ IsArbitrary clauses := by
  have hparens : ∀ {cs}, Separated Clause.IsWritten clauses cs → '(' ∉ cs ∧ ')' ∉ cs :=
    fun h => ⟨not_mem_clauses h (by decide) (by decide), not_mem_clauses h (by decide) (by decide)⟩
  cases h with
  | absent => exact iff_of_true rfl (fun ⟨version, heq, _⟩ => nomatch heq)
  | bare h =>
    obtain ⟨hopen, hclose⟩ := hparens h
    rw [dropParens_eq_self (fun hmem => hopen (Text.mem_of_mem_trim hmem))
      (fun hmem => hclose (Text.mem_of_mem_trim hmem)), Text.trim_trim]
    exact h.declaredVersion_eq_iff
  | @inParens clauses cs h =>
    obtain ⟨hopen, hclose⟩ := hparens h
    rw [Text.trim_cons_concat rfl rfl, dropParens_parens hopen hclose]
    exact h.declaredVersion_eq_iff

/-- Extras are dropped, and the spaces around a specifier do not count. -/
theorem trim_dropExtras {specifier front behind : List Char} (hextras : IsExtras extras cs)
    (hspecifier : IsSpecifier clauses specifier) (hfront : IsGap front) (hbehind : IsGap behind) :
    trim (dropExtras (trim (cs ++ (front ++ (specifier ++ behind))))) = trim specifier := by
  rcases hextras.eq_nil_or with rfl | ⟨inner, rfl, hinner⟩
  -- without extras, the specifier itself must not be taken for some: it holds no bracket
  · have hhead : (trim specifier).head? ≠ some '[' := fun heq =>
      hspecifier.not_mem (by decide) (by decide) (Text.mem_of_mem_trim (List.mem_of_mem_head? heq))
    rw [List.nil_append, Text.trim_append hfront hbehind, dropExtras_eq_self hhead, Text.trim_trim]
  · have hbracket : ']' ∉ inner := hinner ']' (by decide) (by decide)
    have htrim : trim ('[' :: (inner ++ [']']) ++ (front ++ (specifier ++ behind))) =
        '[' :: (inner ++ ']' :: trimEnd (front ++ (specifier ++ behind))) := by
      rw [trim, List.cons_append, Text.trimStart_cons rfl, List.append_assoc, List.singleton_append]
      exact Text.trimEnd_append_cons rfl ('[' :: inner) _
    rw [htrim, dropExtras, afterBracket_append hbracket, Text.trim_trimEnd,
      Text.trim_append hfront hbehind]

/-! ## Names -/

theorem isNameChar_of_isAlphanum (h : c.isAlphanum = true) : isNameChar c = true := by
  have hrange := Text.toNat_of_isAlphanum h
  have hascii : c.toNat < 0x80 := by omega
  simp only [isNameChar, Text.isAlphanumeric, hascii, if_true, h, Bool.true_or]

theorem IsIdentifier.isNameChar (h : IsIdentifier cs) : ∀ c ∈ cs, isNameChar c = true := by
  intro c hc
  rcases h.1 c hc with halnum | hmark
  · exact isNameChar_of_isAlphanum halnum
  · simp only [List.mem_cons, List.not_mem_nil, or_false] at hmark
    rcases hmark with rfl | rfl | rfl <;> rfl

theorem IsIdentifier.ne_nil (h : IsIdentifier cs) : cs ≠ [] := by
  rintro rfl
  exact nomatch h.2.1

/-- No name goes on in `cs`. -/
def EndsName (cs : List Char) : Prop := ∀ c ∈ cs.head?, isNameChar c = false

theorem EndsName.append (h : EndsName cs) (h' : EndsName ds) : EndsName (cs ++ ds) := by
  cases cs with
  | nil => exact h'
  | cons c cs => exact h

theorem EndsName.takeWhile_eq_nil (h : EndsName cs) : cs.takeWhile isNameChar = [] := by
  cases cs with
  | nil => rfl
  | cons c cs => exact List.takeWhile_cons_of_neg (by simp [h c rfl])

/-- The name is taken up to where it ends. -/
theorem EndsName.takeWhile_append (h : EndsName ds) (hname : ∀ c ∈ cs, isNameChar c = true) :
    (cs ++ ds).takeWhile isNameChar = cs := by
  rw [List.takeWhile_append_of_pos hname, h.takeWhile_eq_nil, List.append_nil]

theorem EndsName.dropWhile_append (h : EndsName ds) (hname : ∀ c ∈ cs, isNameChar c = true) :
    (cs ++ ds).dropWhile isNameChar = ds := by
  rw [List.dropWhile_append_of_pos hname, Text.dropWhile_eq_self h]

theorem IsSpace.endsName (h : IsSpace cs) : EndsName cs := by
  intro c hc
  rcases h c (List.mem_of_mem_head? hc) with rfl | rfl <;> rfl

theorem IsExtras.endsName (h : IsExtras extras cs) : EndsName cs := by
  rcases h.eq_nil_or with rfl | ⟨inner, rfl, -⟩
  · exact nofun
  · rintro c hc
    cases hc
    rfl

theorem Clause.IsWritten.endsName (h : clause.IsWritten cs) : EndsName cs := by
  obtain ⟨front, between, behind, hfront, -, -, -, rfl⟩ := h
  refine hfront.endsName.append ?_
  cases clause.comparison <;> exact fun c hc => Option.some.inj hc ▸ rfl

theorem IsSpecifier.endsName (h : IsSpecifier clauses cs) : EndsName cs := by
  cases h with
  | absent => exact nofun
  | inParens => exact fun c hc => Option.some.inj hc ▸ rfl
  | bare h =>
    cases h with
    | one h => exact h.endsName
    | more h _ => exact h.endsName.append fun c hc => Option.some.inj hc ▸ rfl

theorem EndsName.trimEnd (h : EndsName cs) : EndsName (trimEnd cs) := by
  obtain ⟨behind, -, hcs⟩ := Text.exists_trimEnd cs
  intro c hc
  refine h c ?_
  obtain ⟨rest, hrest⟩ := List.head?_eq_some_iff.1 hc
  rw [hcs, hrest]
  rfl

/-- Trimming leaves a name in front as it is. -/
theorem IsIdentifier.trim_append (h : IsIdentifier cs) (ds : List Char) :
    trim (cs ++ ds) = cs ++ trimEnd ds := by
  obtain ⟨c, hc, hhead⟩ := (Option.any_eq_true _ _).1 h.2.1
  obtain ⟨d, hd, hlast⟩ := (Option.any_eq_true _ _).1 h.2.2
  have hstart : trimStart (cs ++ ds) = cs ++ ds := by
    obtain ⟨cs', rfl⟩ := List.head?_eq_some_iff.1 hc
    exact Text.trimStart_cons (Text.isBlank_of_isAlphanum hhead) (cs' ++ ds)
  obtain ⟨cs', rfl⟩ := List.getLast?_eq_some_iff.1 hd
  rw [trim, hstart, List.append_assoc, List.append_assoc]
  exact Text.trimEnd_append_cons (Text.isBlank_of_isAlphanum hlast) cs' ds

/-! ## Whole requirements -/

/-- What is read in front of a marker: the name, and behind it the version. -/
theorem Parts.IsDemand.trim_eq (h : r.IsDemand cs) : ∃ rest, IsIdentifier r.name.toList ∧
    EndsName rest ∧ trim cs = r.name.toList ++ rest ∧
    (String.ofList (declaredVersion (trim (dropParens (trim (dropExtras (trimStart rest)))))) =
      r.ownVersion ↔ ¬ IsArbitrary r.clauses) := by
  obtain ⟨front, afterName, extras, afterExtras, specifier, behind, hfront, hname, hafterName,
    hextras, hafterExtras, hspecifier, hbehind, rfl⟩ := h
  refine ⟨trimEnd (afterName ++ (extras ++ (afterExtras ++ (specifier ++ behind)))),
    hname, EndsName.trimEnd ?_, ?_, ?_⟩
  · exact hafterName.endsName.append (hextras.endsName.append (hafterExtras.endsName.append
      (hspecifier.endsName.append hbehind.endsName)))
  · rw [Text.trim_append_left hfront.isGap, hname.trim_append]
  · rw [Text.trimStart_trimEnd, Text.trim_append_left hafterName.isGap,
      trim_dropExtras hextras hspecifier hafterExtras.isGap hbehind.isGap]
    exact hspecifier.declaredVersion_eq_iff

/-- The first semicolon parts what is asked for from the marker. -/
theorem IsWritten.splitMarker_eq (h : IsWritten r entry) : ∃ demand marker,
    splitMarker entry.toList = (demand, marker) ∧ r.IsDemand demand ∧
      (marker.any (occursIn "extra".toList) = true ↔ r.ComparesExtra ∨ r.QuotesExtra) := by
  rw [← r.mentions_iff]
  cases h with
  | unmarked hdemand hnone =>
    refine ⟨entry.toList, none, splitMarker_eq_self hdemand.no_semicolon, hdemand, ?_⟩
    rw [hnone]
    exact iff_of_false nofun nofun
  | @marked demand marker behind hdemand hmarker hbehind hentry =>
    refine ⟨demand, some (marker ++ behind), ?_, hdemand, ?_⟩
    · rw [hentry, splitMarker_append hdemand.no_semicolon]
    · rw [Option.any_some, occursIn_iff, hmarker.infix_extra hbehind]

/-- A requirement whose marker mentions the word `extra` declares nothing. -/
theorem IsWritten.ofDeclared_eq_none (h : IsWritten r entry)
    (hextra : r.ComparesExtra ∨ r.QuotesExtra) : ofDeclared entry = none := by
  obtain ⟨demand, marker, hsplit, -, hmentions⟩ := h.splitMarker_eq
  unfold ofDeclared
  simp only [hsplit, hmentions.2 hextra, if_true]

/-- Any other requirement declares a dependency on its name, and that in its own version, unless
it compares the version as a text. -/
theorem IsWritten.exists_ofDeclared (h : IsWritten r entry) (hextra : ¬ r.ComparesExtra)
    (hquotes : ¬ r.QuotesExtra) : ∃ version, ofDeclared entry = some (r.name, version) ∧
      (version = r.ownVersion ↔ ¬ IsArbitrary r.clauses) := by
  obtain ⟨demand, marker, hsplit, hdemand, hmentions⟩ := h.splitMarker_eq
  have hnone : marker.any (occursIn "extra".toList) = false :=
    Bool.eq_false_iff.2 fun hany => (hmentions.1 hany).elim hextra hquotes
  obtain ⟨rest, hname, hrest, htrim, hversion⟩ := hdemand.trim_eq
  refine ⟨_, ?_, hversion⟩
  unfold ofDeclared
  simp only [hsplit, hnone, htrim, hrest.takeWhile_append hname.isNameChar,
    hrest.dropWhile_append hname.isNameChar, hname.ne_nil, if_false, Bool.false_eq_true,
    String.ofList_toList]

end PackageGate.Requirement
