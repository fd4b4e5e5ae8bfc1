import PackageGate.Failure
import PackageGate.Proofs.Reading
import PackageGate.Proofs.Trimming

/-!
# Exactly the written packages are read

A package is written as its name, or as name, separator and version. The name of a scoped package
begins with the separator, so a text has to be cut at the right one.

- `Package.IsName`, `Package.Spells`: the grammar, apart from the reader.
- `Package.Spells.specParts_eq`, `Package.spells_of_specParts`: a text is cut where the grammar
  says.
- `Package.IsMalformed`: the flaws that a text is refused for, in the order of their report.
- `Package.reads_exactly`: the reader accepts the grammar within the limits and nothing else, and
  says which flaw a text has.
-/

namespace PackageGate.Package

variable {p q : Package} {spec : String} {cs name version : List Char} {why : Malformed}

/-! ## Grammar -/

/-- A name that is not blank and holds no separator, or a scoped name. -/
def IsName (name : String) : Prop :=
  '@' ∉ name.toList ∧ Text.isBlankText name = false ∨
    ∃ rest, name.toList = '@' :: rest ∧ '@' ∉ rest ∧ '/' ∈ rest

/-- The text `spec` names the package `p`: by its name alone if `p` has no version, or by name,
separator and version. -/
structure Spells (p : Package) (spec : String) : Prop where
  name : IsName p.name
  version : '@' ∉ p.version.toList
  text : spec = p.name ∧ p.version = "" ∨ spec = p.key

/-- A name is a text that is not blank and whose end can be found in a key. -/
theorem isName_iff {name : String} :
    IsName name ↔ Text.isBlankText name = false ∧ Separable name.toList := by
  constructor
  · rintro (⟨hbare, hblank⟩ | ⟨rest, hname, hrest, hslash⟩)
    · exact ⟨hblank, .inl hbare⟩
    · refine ⟨?_, .inr ⟨by rw [hname, List.head?_cons], ?_, ?_⟩⟩
      · -- The scope mark is no blank.
        rw [Text.isBlankText, hname]
        rfl
      · rw [hname, List.count_cons_self, List.count_eq_zero_of_not_mem hrest]
      · rw [hname]
        exact List.mem_cons_of_mem _ hslash
  · rintro ⟨hblank, hbare | ⟨hhead, hcount, hslash⟩⟩
    · exact .inl ⟨hbare, hblank⟩
    · obtain ⟨rest, hname⟩ := List.head?_eq_some_iff.1 hhead
      rw [hname, List.count_cons_self, Nat.add_eq_right, List.count_eq_zero] at hcount
      rw [hname] at hslash
      exact .inr ⟨rest, hname, hcount, List.mem_of_ne_of_mem (by decide) hslash⟩

theorem isName_ne_nil {name : String} (h : IsName name) : name.toList ≠ [] :=
  toList_ne_nil_of_nonblank (isName_iff.1 h).1

/-- Behind its scope mark a separable name has no separator. -/
theorem splitScope_of_separable (h : Separable name) : '@' ∉ (splitScope name).2 := by
  unfold splitScope
  rcases h with hbare | ⟨hhead, hcount, -⟩
  · split
    · exact absurd List.mem_cons_self hbare
    · exact hbare
  · obtain ⟨rest, rfl⟩ := List.head?_eq_some_iff.1 hhead
    rwa [List.count_cons_self, Nat.add_eq_right, List.count_eq_zero] at hcount

/-! ## The cut -/

/-- The text `cs` has been cut into a name and a version. -/
def IsCut (cs name version : List Char) : Prop :=
  (cs = name ∧ version = [] ∨ name ≠ [] ∧ cs = name ++ '@' :: version) ∧ '@' ∉ (splitScope name).2

/-- Up to its end a text without a separator is a name. -/
theorem specParts_self (h : '@' ∉ (splitScope name).2) :
    specParts name =
      match misread? name [] with
      | some why => .error why
      | none => .ok (name, []) := by
  have hname := splitScope_eq name
  unfold specParts misread?
  generalize splitScope name = parts at h hname
  obtain ⟨hasScope, body⟩ := parts
  simp only [Text.splitAt_of_not_mem h, h, List.not_mem_nil, or_self, if_false]
  by_cases hempty : body = []
  · simp only [if_pos hempty]
  · by_cases hslash : (hasScope && !body.contains '/') = true
    · simp only [if_neg hempty, if_pos hslash]
    · simp only [if_neg hempty, if_neg hslash]
      rw [hname]

/-- Every text is cut at the first separator behind its scope mark. -/
theorem exists_cut (cs : List Char) : ∃ name version, IsCut cs name version ∧
    specParts cs =
      match misread? name version with
      | some why => .error why
      | none => .ok (name, version) := by
  by_cases hmem : '@' ∈ (splitScope cs).2
  · obtain ⟨body, version, hbody, hbare⟩ := List.eq_append_cons_of_mem hmem
    -- The scope mark, if there is one, belongs to the name, which is not empty then.
    obtain ⟨name, hne, hname, rfl⟩ : ∃ name, name ≠ [] ∧ (splitScope name).2 = body ∧
        cs = name ++ '@' :: version := by
      cases cs with
      | nil => cases hmem
      | cons c r =>
        by_cases hc : c = '@'
        · subst hc
          exact ⟨'@' :: body, List.cons_ne_nil _ _, rfl, congrArg _ hbody⟩
        · rw [splitScope_of_ne hc] at hbody
          cases body with
          | nil => exact absurd (List.cons.inj hbody).1 hc
          | cons d body =>
            obtain ⟨rfl, -⟩ := List.cons.inj hbody
            exact ⟨c :: body, List.cons_ne_nil _ _, by rw [splitScope_of_ne hc], hbody⟩
    exact ⟨name, version, ⟨.inr ⟨hne, rfl⟩, hname ▸ hbare⟩, specParts_key hne version⟩
  · exact ⟨cs, [], ⟨.inl ⟨rfl, rfl⟩, hmem⟩, specParts_self hmem⟩

/-- What is spelled is read as it is spelled. -/
theorem Spells.specParts_eq (h : Spells p spec) :
    specParts spec.toList = .ok (p.name.toList, p.version.toList) := by
  obtain ⟨hname, hversion, htext⟩ := h
  have hnone := (misread?_eq_none (isName_ne_nil hname) p.version.toList).2
    ⟨hversion, (isName_iff.1 hname).2⟩
  rcases htext with ⟨rfl, hempty⟩ | rfl
  · rw [hempty] at hnone ⊢
    rw [specParts_self (splitScope_of_separable (isName_iff.1 hname).2)]
    simp only [String.toList_empty] at hnone ⊢
    rw [hnone]
  · rw [toList_key, specParts_key (isName_ne_nil hname), hnone]

/-- What is read is spelled, unless its name is blank. -/
theorem spells_of_specParts (h : specParts spec.toList = .ok (p.name.toList, p.version.toList))
    (hblank : Text.isBlankText p.name = false) : Spells p spec := by
  obtain ⟨name, version, ⟨htext, -⟩, hcut⟩ := exists_cut spec.toList
  rw [hcut] at h
  cases hmisread : misread? name version with
  | some why =>
    rw [hmisread] at h
    cases h
  | none =>
    rw [hmisread] at h
    obtain ⟨rfl, rfl⟩ := Prod.mk.inj (Except.ok.inj h)
    obtain ⟨hversion, hname⟩ :=
      (misread?_eq_none (toList_ne_nil_of_nonblank hblank) _).1 hmisread
    refine ⟨isName_iff.2 ⟨hblank, hname⟩, hversion, ?_⟩
    rcases htext with ⟨htext, hempty⟩ | ⟨-, htext⟩
    · exact .inl ⟨String.toList_inj.1 htext, String.toList_inj.1 hempty⟩
    · rw [← toList_key] at htext
      exact .inr (String.toList_inj.1 htext)

/-- A text spells one package at most. -/
theorem Spells.unique (hp : Spells p spec) (hq : Spells q spec) : p = q := by
  have hparts := hp.specParts_eq.symm.trans hq.specParts_eq
  obtain ⟨hname, hversion⟩ := Prod.mk.inj (Except.ok.inj hparts)
  exact congr (congrArg Package.mk (String.toList_inj.1 hname)) (String.toList_inj.1 hversion)

/-! ## Flaws -/

/-- What stands behind the scope mark of a text, or all of it if it has none. -/
def unscoped (cs : List Char) : List Char := (splitScope cs).2

/-- What stands there in front of the first separator. -/
def bareName (cs : List Char) : List Char := (unscoped cs).takeWhile (· ≠ '@')

/-- The flaw that a text is refused for: more separators than one behind the scope mark, else no
name, else a scope mark and no `/` behind it. -/
def IsMalformed (cs : List Char) : Malformed → Prop
  | .manySeparators => 1 < (unscoped cs).count '@'
  | .emptyName => (unscoped cs).count '@' ≤ 1 ∧ bareName cs = []
  | .scopeWithoutName => (unscoped cs).count '@' ≤ 1 ∧ bareName cs ≠ [] ∧
    cs.head? = some '@' ∧ '/' ∉ bareName cs
  | .noLeadingName => False

theorem splitScope_fst : (splitScope cs).1 = true ↔ cs.head? = some '@' := by
  unfold splitScope
  split
  · exact iff_of_true rfl rfl
  · rename_i hne
    refine iff_of_false Bool.false_ne_true (fun hhead => ?_)
    obtain ⟨rest, rfl⟩ := List.head?_eq_some_iff.1 hhead
    exact hne rest rfl

/-- The cut is made at the first separator behind the scope mark. -/
theorem IsCut.bareName_eq (h : IsCut cs name version) : bareName cs = (splitScope name).2 := by
  obtain ⟨⟨rfl, -⟩ | ⟨hne, rfl⟩, hbare⟩ := h
  · rw [bareName, unscoped, ← List.append_nil (splitScope cs).2, List.takeWhile_append_of_pos]
    · rfl
    · exact fun c hc => decide_eq_true fun heq => hbare (heq ▸ hc)
  · rw [bareName, unscoped, splitScope_append hne]
    exact Text.takeWhile_ne_append hbare version

/-- There is one separator at most exactly if the version has none. -/
theorem IsCut.count_le_one (h : IsCut cs name version) :
    (unscoped cs).count '@' ≤ 1 ↔ '@' ∉ version := by
  obtain ⟨⟨rfl, rfl⟩ | ⟨hne, rfl⟩, hbare⟩ := h
  · rw [unscoped, List.count_eq_zero_of_not_mem hbare]
    exact iff_of_true (Nat.zero_le 1) List.not_mem_nil
  · rw [unscoped, splitScope_append hne]
    show ((splitScope name).2 ++ '@' :: version).count '@' ≤ 1 ↔ _
    rw [List.count_append, List.count_eq_zero_of_not_mem hbare, List.count_cons_self,
      ← List.count_eq_zero (a := '@')]
    omega

theorem IsCut.head?_eq (h : IsCut cs name version) :
    cs.head? = some '@' ↔ (splitScope name).1 = true := by
  rw [← splitScope_fst]
  obtain ⟨⟨rfl, -⟩ | ⟨hne, rfl⟩, -⟩ := h
  · rfl
  · rw [splitScope_append hne]

/-- A text is refused for its flaw. -/
theorem IsCut.misread?_eq_some (h : IsCut cs name version) :
    misread? name version = some why ↔ IsMalformed cs why := by
  have hname := h.bareName_eq
  have hcount := h.count_le_one
  have hhead := h.head?_eq
  have hbare := h.2
  have hmany : 1 < (unscoped cs).count '@' ↔ '@' ∈ version := by
    rw [← Nat.not_le, hcount, Decidable.not_not]
  unfold misread?
  generalize splitScope name = parts at hname hhead hbare
  obtain ⟨hasScope, body⟩ := parts
  simp only [hbare, false_or]
  -- One flaw after the other is looked for.
  by_cases hmore : '@' ∈ version
  · cases why <;> simp [IsMalformed, hmany, hcount, hmore]
  by_cases hempty : body = []
  · cases why <;> simp [IsMalformed, hmany, hcount, hmore, hname, hempty]
  · cases why <;> simp [IsMalformed, hmany, hcount, hmore, hname, hempty, hhead]

/-- The parts are refused exactly for their flaw. -/
theorem specParts_eq_error : specParts cs = .error why ↔ IsMalformed cs why := by
  obtain ⟨name, version, hcut, hparts⟩ := exists_cut cs
  rw [hparts, ← hcut.misread?_eq_some]
  cases misread? name version with
  | some why' => exact ⟨fun h => congrArg some (Except.error.inj h), fun h => by cases h; rfl⟩
  | none => exact iff_of_false nofun nofun

/-! ## The reader -/

/-- What the reader makes of a text: it keeps to the grammar. -/
structure ReadsExactly (spec : String) : Prop where
  /-- What is spelled within the limits is read, and nothing else. -/
  accepted : ∀ p, ofSpec spec = .ok p ↔
    Spells p spec ∧ p.name.utf8ByteSize ≤ nameLimit ∧ p.version.utf8ByteSize ≤ versionLimit
  /-- Whatever the limits are, no two packages are spelled alike. -/
  unique : ∀ p q, Spells p spec → Spells q spec → p = q
  /-- A text is refused as malformed for its flaw, and is told whole. -/
  refused : ∀ text why, ofSpec spec = .error (.malformed text why) ↔
    text = spec ∧ IsMalformed spec.toList why
  reported : ∀ e why, IsMalformed spec.toList why → ofSpec spec = .error e →
    e.failure = .ofFault (.invalidSpec spec why.reason)

/-- A text with a flaw is refused, and the refusal holds both. -/
theorem ofSpec_of_malformed (h : IsMalformed spec.toList why) :
    ofSpec spec = .error (.malformed spec why) := by
  rw [ofSpec, specParts_eq_error.2 h]

/-- A text whose parts make a package is read as this package. -/
theorem ofSpec_eq_ok : ofSpec spec = .ok p ↔
    specParts spec.toList = .ok (p.name.toList, p.version.toList) ∧
      make p.name p.version = .ok p := by
  unfold ofSpec
  cases hparts : specParts spec.toList with
  | error why => exact iff_of_false nofun nofun
  | ok parts =>
    obtain ⟨name, version⟩ := parts
    refine mapError_eq_ok.trans ?_
    constructor
    · intro hmake
      obtain ⟨hname, hversion, -⟩ := nonblank_of_make hmake
      rw [hname, hversion, String.toList_ofList, String.toList_ofList]
      exact ⟨rfl, hmake⟩
    · rintro ⟨heq, hmake⟩
      obtain ⟨rfl, rfl⟩ := Prod.mk.inj (Except.ok.inj heq)
      rwa [String.ofList_toList, String.ofList_toList]

/-- **A text is read exactly if it is a package as it is written**: every name, alone or with a
version behind it, is accepted and told apart from its version, and no other text is. -/
theorem reads_exactly (spec : String) : ReadsExactly spec := by
  refine ⟨fun p => ?_, fun _ _ => Spells.unique, fun text why => ⟨fun h => ?_, ?_⟩, ?_⟩
  · rw [ofSpec_eq_ok, make_self_iff]
    constructor
    · rintro ⟨hparts, hblank, hlimits⟩
      exact ⟨spells_of_specParts hparts hblank, hlimits⟩
    · rintro ⟨hspells, hlimits⟩
      exact ⟨hspells.specParts_eq, (isName_iff.1 hspells.name).1, hlimits⟩
  · unfold ofSpec at h
    cases hparts : specParts spec.toList with
    | error why' =>
      simp only [hparts] at h
      cases h
      exact ⟨rfl, specParts_eq_error.1 hparts⟩
    | ok parts =>
      simp only [hparts] at h
      cases hmake : make (String.ofList parts.1) (String.ofList parts.2) <;>
        simp only [hmake] at h <;> cases h
  · rintro ⟨rfl, hmalformed⟩
    exact ofSpec_of_malformed hmalformed
  · intro e why hmalformed he
    rw [ofSpec_of_malformed hmalformed] at he
    cases he
    rfl

example : ofSpec "@scope/pkg@1.0" = .ok ⟨"@scope/pkg", "1.0"⟩ := rfl

end PackageGate.Package
