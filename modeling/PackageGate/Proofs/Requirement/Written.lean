import PackageGate.Proofs.Requirement.Marker
import PackageGate.Proofs.Trimming

/-!
# Requirements as they are written

How a requirement of a dependency list is spelled: a name, extras in brackets, clauses about the
version, which may stand in parentheses, and a marker, with spaces between them.

- `Requirement.Parts`: what a requirement is made of.
- `Requirement.IsWritten`: the ways to write it.
- `Requirement.askedVersion`: the version that clauses ask for.
-/

namespace PackageGate.Requirement

/-! ## Grammar -/

/-- Letters and digits of ASCII, and between them hyphens, underscores and dots. -/
def IsIdentifier (cs : List Char) : Prop :=
  (∀ c ∈ cs, c.isAlphanum = true ∨ c ∈ ['-', '_', '.']) ∧
    cs.head?.any Char.isAlphanum = true ∧ cs.getLast?.any Char.isAlphanum = true

instance (cs : List Char) : Decidable (IsIdentifier cs) :=
  @instDecidableAnd _ _ (List.decidableBAll _ cs) inferInstance

/-- What a requirement says of the version. -/
structure Clause where
  comparison : Comparison
  version : List Char
deriving DecidableEq

/-- A version in a clause, which a star at its end makes a wildcard. -/
def IsVersion (cs : List Char) : Prop :=
  cs ≠ [] ∧ ∀ c ∈ cs, c.isAlphanum = true ∨ c ∈ ['-', '_', '.', '*', '+', '!']

instance (cs : List Char) : Decidable (IsVersion cs) :=
  @instDecidableAnd _ _ inferInstance (List.decidableBAll _ cs)

def Clause.IsWritten (clause : Clause) (cs : List Char) : Prop :=
  ∃ front between behind, IsSpace front ∧ IsSpace between ∧ IsSpace behind ∧
    IsVersion clause.version ∧
    cs = front ++ (clause.comparison.text ++ (between ++ (clause.version ++ behind)))

/-- One thing or more, each as it is written, with commas between them. -/
inductive Separated {α : Type} (written : α → List Char → Prop) : List α → List Char → Prop
  | one {a : α} {cs : List Char} : written a cs → Separated written [a] cs
  | more {a : α} {as : List α} {cs rest : List Char} : written a cs → Separated written as rest →
    Separated written (a :: as) (cs ++ ',' :: rest)

/-- An extra with its spaces. -/
def IsExtra (extra : String) (cs : List Char) : Prop :=
  ∃ front behind, IsSpace front ∧ IsSpace behind ∧ IsIdentifier extra.toList ∧
    cs = front ++ (extra.toList ++ behind)

/-- Extras in brackets, which may be empty, or nothing. -/
inductive IsExtras : List String → List Char → Prop
  | absent : IsExtras [] []
  | empty {gap : List Char} : IsSpace gap → IsExtras [] ('[' :: (gap ++ [']']))
  | listed {extras : List String} {cs : List Char} : Separated IsExtra extras cs →
    IsExtras extras ('[' :: (cs ++ [']']))

/-- Clauses, in parentheses or not, or nothing. -/
inductive IsSpecifier : List Clause → List Char → Prop
  | absent : IsSpecifier [] []
  | bare {clauses : List Clause} {cs : List Char} : Separated Clause.IsWritten clauses cs →
    IsSpecifier clauses cs
  | inParens {clauses : List Clause} {cs : List Char} : Separated Clause.IsWritten clauses cs →
    IsSpecifier clauses ('(' :: (cs ++ [')']))

/-- What a requirement is made of. -/
structure Parts where
  name : String
  extras : List String
  clauses : List Clause
  /-- What its marker compares; nothing if it has no marker. -/
  operands : List Operand

/-- What stands in front of the marker. -/
def Parts.IsDemand (r : Parts) (cs : List Char) : Prop :=
  ∃ front afterName extras afterExtras specifier behind, IsSpace front ∧
    IsIdentifier r.name.toList ∧ IsSpace afterName ∧ IsExtras r.extras extras ∧
    IsSpace afterExtras ∧ IsSpecifier r.clauses specifier ∧ IsSpace behind ∧
    cs = front ++ (r.name.toList ++ (afterName ++ (extras ++ (afterExtras ++
      (specifier ++ behind)))))

/-- The requirement `r` as it is written. -/
inductive IsWritten (r : Parts) (entry : String) : Prop
  | unmarked : r.IsDemand entry.toList → r.operands = [] → IsWritten r entry
  | marked {demand marker behind : List Char} : r.IsDemand demand → IsMarker r.operands marker →
    IsSpace behind → entry.toList = demand ++ ';' :: (marker ++ behind) → IsWritten r entry

/-! ## What a requirement asks for -/

/-- A pin without a wildcard, and nothing but that, asks for its version; anything else asks for
any version. -/
def askedVersion : List Clause → String
  | [⟨.equal, version⟩] => if '*' ∈ version then "*" else String.ofList version
  | _ => "*"

/-- The only clause compares the version as a text. -/
def IsArbitrary (clauses : List Clause) : Prop :=
  ∃ version, clauses = [⟨.arbitrary, version⟩] ∧ '*' ∉ version

/-- The version that a requirement asks for. -/
def Parts.ownVersion (r : Parts) : String := askedVersion r.clauses

/-- The marker compares the variable `extra`. -/
def Parts.ComparesExtra (r : Parts) : Prop := .named "extra" ∈ r.operands

instance (r : Parts) : Decidable r.ComparesExtra := inferInstanceAs (Decidable (_ ∈ _))

/-- The word `extra` stands in a value of the marker. -/
def Parts.QuotesExtra (r : Parts) : Prop :=
  ∃ quote text, .quoted quote text ∈ r.operands ∧ "extra".toList <:+: text

/-- The word `extra` is compared, or stands in a literal. -/
theorem Parts.mentions_iff (r : Parts) :
    (∃ o ∈ r.operands, o.Mentions) ↔ r.ComparesExtra ∨ r.QuotesExtra := by
  constructor
  · rintro ⟨o, ho, hmentions⟩
    cases o with
    | named name =>
      cases (hmentions : name = "extra")
      exact .inl ho
    | quoted quote text => exact .inr ⟨quote, text, ho, hmentions⟩
  · rintro (h | ⟨quote, text, ho, hmentions⟩)
    · exact ⟨_, h, rfl⟩
    · exact ⟨_, ho, hmentions⟩

/-! ## The characters of the parts -/

variable {α : Type} {written : α → List Char → Prop} {as : List α} {cs : List Char} {c : Char}
  {clause : Clause} {clauses : List Clause} {extras : List String} {r : Parts}

/-- The characters that a name may be written with. -/
def isNameText (c : Char) : Bool := c.isAlphanum || ['-', '_', '.', ' ', '\t'].contains c

/-- The characters that a clause may be written with. -/
def isClauseText (c : Char) : Bool :=
  isNameText c || ['*', '+', '!', '<', '=', '>', '~'].contains c

theorem IsSpace.isNameText (h : IsSpace cs) (hc : c ∈ cs) : isNameText c = true := by
  rcases h c hc with rfl | rfl <;> decide

theorem IsIdentifier.isNameText (h : IsIdentifier cs) (hc : c ∈ cs) : isNameText c = true := by
  unfold Requirement.isNameText
  rcases h.1 c hc with halnum | hmark
  · rw [halnum, Bool.true_or]
  · simp only [List.mem_cons, List.not_mem_nil, or_false] at hmark
    rcases hmark with rfl | rfl | rfl <;> decide

theorem IsExtra.isNameText {extra : String} (h : IsExtra extra cs) (hc : c ∈ cs) :
    isNameText c = true := by
  obtain ⟨front, behind, hfront, hbehind, hextra, rfl⟩ := h
  simp only [List.mem_append] at hc
  rcases hc with hc | hc | hc
  · exact hfront.isNameText hc
  · exact hextra.isNameText hc
  · exact hbehind.isNameText hc

theorem IsVersion.isClauseText (h : IsVersion cs) (hc : c ∈ cs) : isClauseText c = true := by
  unfold Requirement.isClauseText Requirement.isNameText
  rcases h.2 c hc with halnum | hmark
  · rw [halnum, Bool.true_or, Bool.true_or]
  · simp only [List.mem_cons, List.not_mem_nil, or_false] at hmark
    rcases hmark with rfl | rfl | rfl | rfl | rfl | rfl <;> decide

theorem Comparison.isClauseText (comparison : Comparison) :
    ∀ c ∈ comparison.text, isClauseText c = true := by
  have hall : comparison.text.all Requirement.isClauseText = true := by
    cases comparison <;> rfl
  exact List.all_eq_true.1 hall

theorem IsSpace.isClauseText (h : IsSpace cs) (hc : c ∈ cs) : isClauseText c = true := by
  rw [Requirement.isClauseText, h.isNameText hc, Bool.true_or]

theorem Clause.IsWritten.isClauseText (h : clause.IsWritten cs) (hc : c ∈ cs) :
    isClauseText c = true := by
  obtain ⟨front, between, behind, hfront, hbetween, hbehind, hversion, rfl⟩ := h
  simp only [List.mem_append] at hc
  rcases hc with hc | hc | hc | hc | hc
  · exact hfront.isClauseText hc
  · exact clause.comparison.isClauseText c hc
  · exact hbetween.isClauseText hc
  · exact hversion.isClauseText hc
  · exact hbehind.isClauseText hc

/-- A list holds no characters but those of its members and the comma. -/
theorem Separated.all {p : Char → Bool} (h : Separated written as cs)
    (hp : ∀ a cs, written a cs → ∀ c ∈ cs, p c = true) (hc : c ∈ cs) : p c = true ∨ c = ',' := by
  induction h with
  | one ha => exact .inl (hp _ _ ha c hc)
  | more ha _ ih =>
    simp only [List.mem_append, List.mem_cons] at hc
    rcases hc with hc | rfl | hc
    · exact .inl (hp _ _ ha c hc)
    · exact .inr rfl
    · exact ih hc

/-- A character of neither the members nor the comma stands in no list of them. -/
theorem Separated.not_mem {p : Char → Bool} (h : Separated written as cs)
    (hp : ∀ a cs, written a cs → ∀ c ∈ cs, p c = true) (hc : p c = false) (hcomma : c ≠ ',') :
    c ∉ cs := by
  intro hmem
  rcases h.all hp hmem with htrue | hcomma'
  · rw [hc] at htrue
    cases htrue
  · exact hcomma hcomma'

/-- Extras are nothing, or brackets around characters of names, and commas. -/
theorem IsExtras.eq_nil_or (h : IsExtras extras cs) : cs = [] ∨ ∃ inner,
    cs = '[' :: (inner ++ [']']) ∧ ∀ c, isNameText c = false → c ≠ ',' → c ∉ inner := by
  cases h with
  | absent => exact .inl rfl
  | empty hgap =>
    refine .inr ⟨_, rfl, fun c hc _ hmem => ?_⟩
    rw [hgap.isNameText hmem] at hc
    cases hc
  | listed h =>
    exact .inr ⟨_, rfl, fun c => h.not_mem fun _ _ hextra _ hmem => hextra.isNameText hmem⟩

/-- Clauses have no signs but their own, and the commas. -/
theorem not_mem_clauses (h : Separated Clause.IsWritten clauses cs) (hc : isClauseText c = false)
    (hcomma : c ≠ ',') : c ∉ cs :=
  h.not_mem (fun _ _ hclause _ hmem => hclause.isClauseText hmem) hc hcomma

/-- There is no semicolon in the extras. -/
theorem IsExtras.no_semicolon (h : IsExtras extras cs) : ';' ∉ cs := by
  rcases h.eq_nil_or with rfl | ⟨inner, rfl, hinner⟩
  · exact List.not_mem_nil
  · simp [hinner ';' (by decide) (by decide)]

theorem IsSpecifier.not_mem (h : IsSpecifier clauses cs) (hc : isClauseText c = false)
    (hsign : c ∉ [',', '(', ')']) : c ∉ cs := by
  simp only [List.mem_cons, List.not_mem_nil, or_false, not_or] at hsign
  obtain ⟨hcomma, hopen, hclose⟩ := hsign
  cases h with
  | absent => exact List.not_mem_nil
  | bare h => exact not_mem_clauses h hc hcomma
  | inParens h => simp [not_mem_clauses h hc hcomma, hopen, hclose]

/-- The first semicolon of a requirement begins its marker. -/
theorem Parts.IsDemand.no_semicolon (h : r.IsDemand cs) : ';' ∉ cs := by
  obtain ⟨front, afterName, extras, afterExtras, specifier, behind, hfront, hname, hafterName,
    hextras, hafterExtras, hspecifier, hbehind, rfl⟩ := h
  have hspace : ∀ {gap : List Char}, IsSpace gap → ';' ∉ gap := by
    intro gap hgap hmem
    cases hgap.isNameText hmem
  have hinName : ';' ∉ r.name.toList := fun hmem => nomatch hname.isNameText hmem
  have hinSpecifier : ';' ∉ specifier := hspecifier.not_mem (by decide) (by decide)
  simp only [List.mem_append, hspace hfront, hinName, hspace hafterName, hextras.no_semicolon,
    hspace hafterExtras, hinSpecifier, hspace hbehind, or_self, not_false_eq_true]

end PackageGate.Requirement
