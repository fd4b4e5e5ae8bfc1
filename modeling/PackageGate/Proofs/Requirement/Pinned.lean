import PackageGate.Proofs.Catalog
import PackageGate.Proofs.Reading
import PackageGate.Proofs.Requirement.Declared
import PackageGate.Resolution

/-!
# Pinned requirements on both ways

A requirement that pins its package to a version is read by one reader on the command line and by
another one in the dependency list of a package, and both should come to its pin. Blanks may stand
between all its parts.

- `Requirement.Pin`, `Requirement.Spacing`: what is pinned, and the blanks around the parts of it.
- `Requirement.Pin.ReadAlike`: what the two readers make of it.
- `Requirement.readAlike_iff`: both read the pin, except that on the command line a blank between
  the name and the extras loses it.
- `Requirement.parted_pin_lost`: a pin that is lost.
-/

namespace PackageGate

namespace Text

variable {c : Char}

/-- The blanks of Unicode stand between the ranges of letters and digits. -/
theorem blanks_between : ∀ r ∈ alphanumericRanges, 0xA0 < r.1 ∧ r.2 < 0x1680 ∨
    0x1680 < r.1 ∧ r.2 < 0x2000 ∨ 0x205F < r.1 ∧ r.2 < 0x3000 ∨ 0x3000 < r.1 := by
  decide +kernel

/-- No letter and no digit of any script is blank. -/
theorem isBlank_of_isAlphanumeric (h : isAlphanumeric c = true) : isBlank c = false := by
  unfold isAlphanumeric at h
  by_cases hascii : c.toNat < 0x80
  · simp only [hascii, if_true] at h
    exact isBlank_of_isAlphanum h
  · simp only [hascii, if_false] at h
    obtain ⟨r, hr, hin⟩ := List.any_eq_true.1 h
    rw [Bool.and_eq_true, decide_eq_true_eq, decide_eq_true_eq] at hin
    have hrange := blanks_between r hr
    refine Bool.eq_false_iff.2 fun hblank => ?_
    simp only [isBlank, Bool.or_eq_true, Bool.and_eq_true, decide_eq_true_eq, beq_iff_eq] at hblank
    omega

end Text

namespace Requirement

open Text (IsGap trim trimStart trimEnd isBlank)

variable {c : Char} {cs gap : List Char}

/-! ## Pins -/

/-- The characters of a pinned version. -/
def isPinChar (c : Char) : Bool :=
  Text.isAlphanumeric c || ['.', '+', '!', '-', '_'].contains c

/-- A package and the version that it is pinned to, with the text in the brackets if extras are
asked for. Both keep the limits. -/
structure Pin where
  name : String
  extras : Option (List Char)
  version : String
  name_ne : name.toList ≠ []
  name_char : ∀ c ∈ name.toList, isNameChar c = true
  name_le : name.utf8ByteSize ≤ Package.nameLimit
  inner_extras : ∀ inner ∈ extras, ']' ∉ inner ∧ ';' ∉ inner
  version_ne : version.toList ≠ []
  version_char : ∀ c ∈ version.toList, isPinChar c = true
  version_le : version.utf8ByteSize ≤ Package.versionLimit

/-- The blanks around the parts of a pin. -/
structure Spacing where
  front : List Char
  afterName : List Char
  afterExtras : List Char
  beforeVersion : List Char
  behind : List Char
  front_blank : IsGap front
  afterName_blank : IsGap afterName
  afterExtras_blank : IsGap afterExtras
  beforeVersion_blank : IsGap beforeVersion
  behind_blank : IsGap behind

/-- The extras with their brackets. -/
def Pin.bracket (p : Pin) : List Char :=
  match p.extras with
  | none => []
  | some inner => '[' :: (inner ++ [']'])

/-- The equals signs and the version. -/
def Pin.clause (p : Pin) (s : Spacing) : List Char :=
  '=' :: '=' :: (s.beforeVersion ++ p.version.toList)

/-- What stands behind the name. -/
def Pin.rest (p : Pin) (s : Spacing) : List Char :=
  s.afterName ++ (p.bracket ++ (s.afterExtras ++ p.clause s))

/-- The requirement as it is written. -/
def Pin.spelled (p : Pin) (s : Spacing) : String :=
  String.ofList (s.front ++ (p.name.toList ++ p.rest s ++ s.behind))

/-- The extras do not follow the name at once. -/
def Pin.IsParted (p : Pin) (s : Spacing) : Prop := p.extras.isSome = true ∧ s.afterName ≠ []

instance (p : Pin) (s : Spacing) : Decidable (p.IsParted s) := inferInstanceAs (Decidable (_ ∧ _))

variable {p : Pin} {s : Spacing}

/-! ## The characters of the parts -/

theorem isBlank_of_isNameChar (h : isNameChar c = true) : isBlank c = false := by
  simp only [isNameChar, Bool.or_eq_true, decide_eq_true_eq] at h
  rcases h with ((halnum | rfl) | rfl) | rfl
  · exact Text.isBlank_of_isAlphanumeric halnum
  all_goals rfl

theorem isBlank_of_isPinChar (h : isPinChar c = true) : isBlank c = false := by
  simp only [isPinChar, Bool.or_eq_true, List.contains_iff_mem, List.mem_cons, List.not_mem_nil,
    or_false] at h
  rcases h with halnum | rfl | rfl | rfl | rfl | rfl
  · exact Text.isBlank_of_isAlphanumeric halnum
  all_goals rfl

theorem not_mem_gap (h : IsGap gap) (hc : isBlank c = false) : c ∉ gap := by
  intro hmem
  rw [h c hmem] at hc
  cases hc

theorem Pin.not_mem_version (p : Pin) (hc : isPinChar c = false) : c ∉ p.version.toList := by
  intro hmem
  rw [p.version_char c hmem] at hc
  cases hc

/-- A sign that is neither blank nor in a version stands in a clause only if it is the equals
sign. -/
theorem Pin.not_mem_clause (p : Pin) (s : Spacing) (hblank : isBlank c = false)
    (hpin : isPinChar c = false) (hne : c ≠ '=') : c ∉ p.clause s := by
  simp only [Pin.clause, List.mem_cons, List.mem_append, hne,
    not_mem_gap s.beforeVersion_blank hblank, p.not_mem_version hpin, or_self, not_false_eq_true]

theorem Pin.no_semicolon (p : Pin) (s : Spacing) : ';' ∉ (p.spelled s).toList := by
  have hblank : isBlank ';' = false := rfl
  have hname : ';' ∉ p.name.toList := fun hmem => nomatch p.name_char _ hmem
  have hbracket : ';' ∉ p.bracket := by
    unfold Pin.bracket
    split
    · exact List.not_mem_nil
    · rename_i inner hextras
      simp [(p.inner_extras inner hextras).2]
  simp only [Pin.spelled, Pin.rest, String.toList_ofList, List.mem_append,
    not_mem_gap s.front_blank hblank, hname, not_mem_gap s.afterName_blank hblank, hbracket,
    not_mem_gap s.afterExtras_blank hblank, p.not_mem_clause s hblank (by decide) (by decide),
    not_mem_gap s.behind_blank hblank, or_self, not_false_eq_true]

/-! ## The readers -/

theorem Pin.isBlank_version (p : Pin) : ∀ c ∈ p.version.toList, isBlank c = false :=
  fun c hc => isBlank_of_isPinChar (p.version_char c hc)

theorem Pin.trim_version (p : Pin) : trim p.version.toList = p.version.toList :=
  Text.trim_eq_self (fun c hc => p.isBlank_version c (List.mem_of_mem_head? hc))
    fun c hc => p.isBlank_version c (List.mem_of_getLast? hc)

/-- A text that ends with the version and begins with something is left as it is. -/
theorem Pin.trim_append_version (p : Pin)
    (hhead : ∀ c ∈ (cs ++ p.version.toList).head?, isBlank c = false) :
    trim (cs ++ p.version.toList) = cs ++ p.version.toList :=
  Text.trim_eq_self hhead (Text.isBlank_getLast?_append p.version_ne p.isBlank_version)

/-- A clause has no blanks to trim. -/
theorem Pin.trim_clause (p : Pin) (s : Spacing) : trim (p.clause s) = p.clause s := by
  show trim ('=' :: '=' :: s.beforeVersion ++ p.version.toList) = _
  refine p.trim_append_version fun c hc => ?_
  cases hc
  rfl

/-- What both readers look at: the blanks at the ends are gone. -/
theorem Pin.trim_spelled (p : Pin) (s : Spacing) :
    trim (p.spelled s).toList = p.name.toList ++ p.rest s := by
  have hcore : p.name.toList ++ p.rest s = (p.name.toList ++ (s.afterName ++ (p.bracket ++
      (s.afterExtras ++ '=' :: '=' :: s.beforeVersion)))) ++ p.version.toList := by
    simp only [Pin.rest, Pin.clause, List.append_assoc, List.cons_append]
  rw [Pin.spelled, String.toList_ofList, Text.trim_append s.front_blank s.behind_blank, hcore]
  refine p.trim_append_version fun c hc => ?_
  obtain ⟨d, name, hname⟩ := List.exists_cons_of_ne_nil p.name_ne
  rw [hname] at hc
  cases hc
  exact isBlank_of_isNameChar (p.name_char c (by rw [hname]; exact List.mem_cons_self))

theorem endsName_of_isGap (h : IsGap gap) : EndsName gap := by
  intro c hc
  refine Bool.eq_false_iff.2 fun hname => ?_
  exact not_mem_gap h (isBlank_of_isNameChar hname) (List.mem_of_mem_head? hc)

theorem Pin.endsName_rest (p : Pin) (s : Spacing) : EndsName (p.rest s) := by
  have hbracket : EndsName p.bracket := by
    unfold Pin.bracket
    split
    · exact nofun
    · exact fun c hc => Option.some.inj hc ▸ rfl
  have hclause : EndsName (p.clause s) := fun c hc => Option.some.inj hc ▸ rfl
  exact (endsName_of_isGap s.afterName_blank).append
    (hbracket.append ((endsName_of_isGap s.afterExtras_blank).append hclause))

theorem Pin.trim_gap_clause (p : Pin) (s : Spacing) (h : IsGap gap) :
    trim (gap ++ p.clause s) = p.clause s := by
  rw [Text.trim_append_left h, p.trim_clause]

/-- A clause behind blanks begins with no bracket. -/
theorem Pin.dropExtras_gap (p : Pin) (s : Spacing) (h : IsGap gap) :
    dropExtras (gap ++ p.clause s) = gap ++ p.clause s := by
  refine dropExtras_eq_self ?_
  cases gap with
  | nil => exact nofun
  | cons c gap =>
    intro hhead
    obtain rfl := Option.some.inj hhead
    exact nomatch h '[' List.mem_cons_self

theorem Pin.bracket_of_none (h : p.extras = none) : p.bracket = [] := by
  rw [bracket, h]

theorem Pin.dropExtras_bracket {inner : List Char} (h : p.extras = some inner) (ds : List Char) :
    dropExtras (p.bracket ++ ds) = ds := by
  rw [bracket, h]
  show afterBracket ((inner ++ [']']) ++ ds) = ds
  rw [List.append_assoc, List.singleton_append, afterBracket_append (p.inner_extras inner h).1]

/-- The reader of dependency lists drops the blanks in front of the extras. -/
theorem Pin.trim_dropExtras_trimStart (p : Pin) (s : Spacing) :
    trim (dropExtras (trimStart (p.rest s))) = p.clause s := by
  rw [rest, Text.trimStart_append s.afterName_blank]
  cases hextras : p.extras with
  | none =>
    have hclause : trimStart (p.clause s) = p.clause s := Text.trimStart_cons rfl _
    rw [bracket_of_none hextras, List.nil_append, Text.trimStart_append s.afterExtras_blank,
      hclause]
    have hself : dropExtras (p.clause s) = p.clause s := dropExtras_eq_self nofun
    rw [hself, p.trim_clause]
  | some inner =>
    have hbracket : trimStart (p.bracket ++ (s.afterExtras ++ p.clause s)) =
        p.bracket ++ (s.afterExtras ++ p.clause s) := by
      rw [bracket, hextras]
      exact Text.trimStart_cons rfl _
    rw [hbracket, dropExtras_bracket hextras, p.trim_gap_clause s s.afterExtras_blank]

/-- The reader of the command line does not, so the extras must follow the name at once. -/
theorem Pin.trim_dropExtras (h : ¬p.IsParted s) : trim (dropExtras (p.rest s)) = p.clause s := by
  cases hextras : p.extras with
  | none =>
    have hgap : IsGap (s.afterName ++ s.afterExtras) := fun c hc =>
      (List.mem_append.1 hc).elim (s.afterName_blank c) (s.afterExtras_blank c)
    rw [rest, bracket_of_none hextras, List.nil_append, ← List.append_assoc,
      p.dropExtras_gap s hgap, p.trim_gap_clause s hgap]
  | some inner =>
    have hname : s.afterName = [] := by
      refine Decidable.not_not.1 fun hne => h ⟨?_, hne⟩
      rw [hextras]
      rfl
    rw [rest, hname, List.nil_append, dropExtras_bracket hextras,
      p.trim_gap_clause s s.afterExtras_blank]

theorem Pin.pin_eq_nil (h : p.IsParted s) : pin (trim (dropExtras (p.rest s))) = [] := by
  obtain ⟨hsome, hne⟩ := h
  obtain ⟨inner, hextras⟩ := Option.isSome_iff_exists.1 hsome
  have hself : dropExtras (p.rest s) = p.rest s := by
    refine dropExtras_eq_self fun hhead => ?_
    obtain ⟨c, gap, hgap⟩ := List.exists_cons_of_ne_nil hne
    rw [rest, hgap] at hhead
    obtain rfl := Option.some.inj hhead
    exact nomatch s.afterName_blank '[' (by rw [hgap]; exact List.mem_cons_self)
  rw [hself, rest, Text.trim_append_left s.afterName_blank, bracket, hextras, trim,
    List.cons_append, Text.trimStart_cons rfl, ← List.nil_append ('[' :: _),
    Text.trimEnd_append_cons rfl]
  rfl

/-- From the clause the version is read. -/
theorem Pin.pin_clause (p : Pin) (s : Spacing) : pin (p.clause s) = p.version.toList := by
  have hcomma : ',' ∉ s.beforeVersion ++ p.version.toList := fun hmem =>
    p.not_mem_clause s (c := ',') rfl rfl (by decide)
      (List.mem_cons_of_mem _ (List.mem_cons_of_mem _ hmem))
  simp only [pin, clause, pinned?, List.contains_iff_mem, hcomma, if_false]
  rw [Text.trim_append_left s.beforeVersion_blank, p.trim_version]

/-- The reader of declarations reads it, too. -/
theorem Pin.declaredVersion_clause (p : Pin) (s : Spacing) :
    declaredVersion (p.clause s) = p.version.toList := by
  have hmem : ∀ c, isBlank c = false → isPinChar c = false → c ≠ '=' →
      c ∉ s.beforeVersion ++ p.version.toList := fun c hblank hpin hne hmem =>
    p.not_mem_clause s hblank hpin hne (List.mem_cons_of_mem _ (List.mem_cons_of_mem _ hmem))
  rw [clause, declaredVersion_equals (hmem ',' rfl rfl (by decide)),
    if_neg (hmem '*' rfl rfl (by decide)), Text.trim_append_left s.beforeVersion_blank,
    p.trim_version]

/-! ## Both ways -/

theorem Pin.name_nonblank (p : Pin) : Text.isBlankText p.name = false := by
  obtain ⟨c, name, hname⟩ := List.exists_cons_of_ne_nil p.name_ne
  have hc : isBlank c = false :=
    isBlank_of_isNameChar (p.name_char c (by rw [hname]; exact List.mem_cons_self))
  rw [Text.isBlankText, hname, List.all_cons, hc, Bool.false_and]

theorem Pin.version_nonblank (p : Pin) : Text.isBlankText p.version = false := by
  obtain ⟨c, version, hversion⟩ := List.exists_cons_of_ne_nil p.version_ne
  have hc : isBlank c = false := p.isBlank_version c (by rw [hversion]; exact List.mem_cons_self)
  rw [Text.isBlankText, hversion, List.all_cons, hc, Bool.false_and]

/-- A pinned version is a version already: it has neither a range mark nor blanks around it. -/
theorem Pin.normalize_version (p : Pin) : Specifier.normalize p.version = p.version := by
  obtain ⟨c, version, hversion⟩ := List.exists_cons_of_ne_nil p.version_ne
  have hne : ∀ d, isPinChar d = false → c ≠ d := by
    rintro d hd rfl
    exact p.not_mem_version hd (by rw [hversion]; exact List.mem_cons_self)
  rw [Specifier.normalize, p.trim_version, hversion, if_neg]
  · rw [← String.toList_inj, String.toList_ofList, hversion]
    unfold Specifier.dropMark
    split
    · rename_i heq
      exact absurd (List.cons.inj heq).1 (hne '^' rfl)
    · rename_i heq
      exact absurd (List.cons.inj heq).1 (hne '~' rfl)
    · rfl
  · intro heq
    exact hne '*' rfl (List.cons.inj heq).1

/-- What is read of a pin, spelled with these blanks, and what is scanned then. -/
structure Pin.ReadAlike (p : Pin) (s : Spacing) : Prop where
  /-- A dependency is read as the pin and scanned in its version. -/
  declared : ofDeclared (p.spelled s) = some (p.name, p.version)
  edge : Walk.edgePackage? p.name p.version = some ⟨p.name, p.version⟩
  /-- An argument is read as the pin, unless blanks part the extras from the name. -/
  requested_iff : Package.ofRequirement (p.spelled s) = .ok ⟨p.name, p.version⟩ ↔ ¬p.IsParted s
  /-- Then it is scanned in its version. -/
  root : Resolution.direct? ⟨p.name, p.version⟩ = some ⟨p.name, p.version⟩
  /-- Otherwise it is left without one, and the registry is asked for the newest. -/
  lost : p.IsParted s → Package.ofRequirement (p.spelled s) = .ok ⟨p.name, ""⟩ ∧
    Resolution.direct? ⟨p.name, ""⟩ = none

/-- As a declaration a pin is read as it is meant, with any spacing. -/
theorem Pin.ofDeclared_eq (p : Pin) (s : Spacing) :
    ofDeclared (p.spelled s) = some (p.name, p.version) := by
  have hrest := p.endsName_rest s
  have hparens : dropParens (p.clause s) = p.clause s :=
    dropParens_eq_self (p.not_mem_clause s rfl rfl (by decide))
      (p.not_mem_clause s rfl rfl (by decide))
  unfold ofDeclared
  simp only [splitMarker_eq_self (p.no_semicolon s), Option.any_none, Bool.false_eq_true, if_false,
    p.trim_spelled, hrest.takeWhile_append p.name_char, hrest.dropWhile_append p.name_char,
    p.name_ne, p.trim_dropExtras_trimStart, hparens, p.trim_clause, p.declaredVersion_clause,
    String.ofList_toList]

/-- As an argument it is read as the name and whatever is found behind the extras. -/
theorem Pin.ofRequirement_eq (p : Pin) (s : Spacing) :
    Package.ofRequirement (p.spelled s) =
      (Package.make p.name
        (String.ofList (pin (trim (dropExtras (p.rest s)))))).mapError .invalid := by
  have hrest := p.endsName_rest s
  unfold Package.ofRequirement
  simp only [p.trim_spelled, hrest.takeWhile_append p.name_char,
    hrest.dropWhile_append p.name_char, p.name_ne, if_false, String.ofList_toList]

/-- **A pinned requirement is scanned at its pin**, as a dependency always, and as an argument
unless it has extras and blanks in front of them. -/
theorem readAlike_iff (p : Pin) (s : Spacing) : p.ReadAlike s := by
  have hmake : Package.make p.name p.version = .ok ⟨p.name, p.version⟩ :=
    (Package.make_self_iff (p := ⟨p.name, p.version⟩)).2 ⟨p.name_nonblank, p.name_le, p.version_le⟩
  have hempty : Package.make p.name "" = .ok ⟨p.name, ""⟩ :=
    (Package.make_self_iff (p := ⟨p.name, ""⟩)).2 ⟨p.name_nonblank, p.name_le, Nat.zero_le _⟩
  have hlost : p.IsParted s → Package.ofRequirement (p.spelled s) = .ok ⟨p.name, ""⟩ := by
    intro hparted
    rw [p.ofRequirement_eq, Pin.pin_eq_nil hparted, Package.mapError_eq_ok]
    exact hempty
  have hversion : p.version ≠ "" := fun heq => p.version_ne (by rw [heq]; rfl)
  refine ⟨p.ofDeclared_eq s, ?_, ⟨fun hok hparted => ?_, fun hjoined => ?_⟩, ?_, fun hparted =>
    ⟨hlost hparted, rfl⟩⟩
  · rw [Walk.edgePackage?, Specifier.ofEdge, p.normalize_version]
    simp only [String.isEmpty_iff, hversion, if_false, hmake]
    rfl
  · rw [hlost hparted] at hok
    exact hversion (congrArg Package.version (Except.ok.inj hok)).symm
  · rw [p.ofRequirement_eq, Pin.trim_dropExtras hjoined, p.pin_clause, String.ofList_toList,
      Package.mapError_eq_ok]
    exact hmake
  · rw [Resolution.direct?, p.version_nonblank, if_neg Bool.false_ne_true, p.normalize_version]
    rfl

/-- A pin with extras. -/
def proxied : Pin where
  name := "requests"
  extras := some "socks".toList
  version := "2.31.0"
  name_ne := by decide
  name_char := List.all_eq_true.mp (by decide)
  name_le := by decide
  inner_extras := by decide
  version_ne := by decide
  version_char := List.all_eq_true.mp (by decide)
  version_le := by decide

/-- Blanks around `==` and at the ends, and as many as `afterName` behind the name. -/
def spaced (afterName : List Char) (h : IsGap afterName) : Spacing where
  front := [' ']
  afterName := afterName
  afterExtras := [' ', '\t']
  beforeVersion := [' ']
  behind := ['\n']
  front_blank := by decide
  afterName_blank := h
  afterExtras_blank := by decide
  beforeVersion_blank := by decide
  behind_blank := by decide

/-- With the bracket right behind the name, blanks elsewhere do no harm. -/
theorem readAlike_iff_proxied :
    proxied.spelled (spaced [] nofun) = " requests[socks] \t== 2.31.0\n" ∧
      ¬proxied.IsParted (spaced [] nofun) ∧ proxied.ReadAlike (spaced [] nofun) :=
  ⟨by decide, by decide, readAlike_iff proxied (spaced [] nofun)⟩

/-- With a blank in front of the extras the argument loses its pin, and the dependency keeps it. -/
theorem parted_pin_lost :
    Package.ofRequirement "requests [socks]==2.31.0" = .ok ⟨"requests", ""⟩ ∧
    ofDeclared "requests [socks]==2.31.0" = some ("requests", "2.31.0") ∧
    ¬∀ (p : Pin) (s : Spacing), Package.ofRequirement (p.spelled s) = .ok ⟨p.name, p.version⟩ := by
  refine ⟨rfl, by decide, fun hall => ?_⟩
  have hlost : Package.ofRequirement (proxied.spelled (spaced [' '] (by decide))) =
      .ok ⟨"requests", ""⟩ := rfl
  rw [hall] at hlost
  have hversion : "2.31.0" = "" := congrArg Package.version (Except.ok.inj hlost)
  exact absurd hversion (by decide)

end Requirement

end PackageGate
