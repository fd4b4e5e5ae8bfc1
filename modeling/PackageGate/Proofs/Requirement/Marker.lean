import PackageGate.Package.Requirement

/-!
# Markers

A marker compares variables of the environment with quoted values, and says with it where a
requirement counts. A requirement that belongs to an extra compares the variable `extra`.

- `Requirement.IsMarker`: how markers are written, and the operands that they compare.
- `Requirement.Operand.Mentions`: the operands that the word `extra` stands in.
- `Requirement.IsMarker.infix_extra`: the word stands in a marker only within such an operand.
-/

namespace PackageGate.Requirement

/-! ## Grammar -/

/-- What may stand between the parts of a requirement. -/
def IsSpace (cs : List Char) : Prop := ∀ c ∈ cs, c = ' ' ∨ c = '\t'

instance (cs : List Char) : Decidable (IsSpace cs) := List.decidableBAll _ cs

/-- How a version is compared with another one. -/
inductive Comparison
  | less
  | atMost
  | unequal
  | equal
  | atLeast
  | greater
  | compatible
  /-- Equal as texts, whether these are versions or not. -/
  | arbitrary
deriving DecidableEq

/-- The sign of a comparison. -/
def Comparison.text : Comparison → List Char
  | less => ['<']
  | atMost => ['<', '=']
  | unequal => ['!', '=']
  | equal => ['=', '=']
  | atLeast => ['>', '=']
  | greater => ['>']
  | compatible => ['~', '=']
  | arbitrary => ['=', '=', '=']

/-- The variables that a marker may compare. -/
def knownNames : List String :=
  ["python_version", "python_full_version", "os_name", "sys_platform", "platform_release",
    "platform_system", "platform_version", "platform_machine", "platform_python_implementation",
    "implementation_name", "implementation_version", "extra"]

/-- One side of a comparison in a marker. -/
inductive Operand
  | named (name : String)
  /-- A text between two quotes of one kind. -/
  | quoted (quote : Char) (text : List Char)
deriving DecidableEq

namespace Operand

/-- The characters that an operand is written as. -/
def text : Operand → List Char
  | named name => name.toList
  | quoted quote text => quote :: (text ++ [quote])

/-- The variable is known, or the value ends at its second quote. -/
def IsValid : Operand → Prop
  | named name => name ∈ knownNames
  | quoted quote text => (quote = '"' ∨ quote = '\'') ∧ quote ∉ text

instance : DecidablePred IsValid
  | named _ => inferInstanceAs (Decidable (_ ∈ _))
  | quoted _ _ => inferInstanceAs (Decidable (_ ∧ _))

/-- The word `extra` is the operand, or stands in its value. -/
def Mentions : Operand → Prop
  | named name => name = "extra"
  | quoted _ text => "extra".toList <:+: text

end Operand

/-- What stands between the two sides of a comparison in a marker. -/
def IsOperator (cs : List Char) : Prop :=
  (∃ comparison : Comparison, cs = comparison.text) ∨ cs = "in".toList ∨
    ∃ gap, gap ≠ [] ∧ IsSpace gap ∧ cs = "not".toList ++ (gap ++ "in".toList)

/-- A marker as it is written, with its operands in their order. -/
inductive IsMarker : List Operand → List Char → Prop
  | comparison {l r : Operand} {front before operator behind : List Char} : l.IsValid → r.IsValid →
    IsSpace front → IsSpace before → IsOperator operator → IsSpace behind →
    IsMarker [l, r] (front ++ (l.text ++ (before ++ (operator ++ (behind ++ r.text)))))
  | inParens {os : List Operand} {front cs behind : List Char} : IsSpace front → IsMarker os cs →
    IsSpace behind → IsMarker os (front ++ '(' :: (cs ++ (behind ++ [')'])))
  | joined {os os' : List Operand} {cs cs' gap word : List Char} : IsMarker os cs → IsSpace gap →
    word = "and".toList ∨ word = "or".toList → IsMarker os' cs' →
    IsMarker (os ++ os') (cs ++ (gap ++ (word ++ cs')))

/-! ## The word `extra` -/

variable {word cs ds : List Char} {c : Char} {o : Operand} {os os' : List Operand}

/-- A word does not reach over a character that it does not hold. -/
theorem infix_append_cons (hc : c ∉ word) :
    word <:+: cs ++ c :: ds ↔ word <:+: cs ∨ word <:+: ds := by
  constructor
  · rintro ⟨front, behind, h⟩
    rcases List.append_eq_append_iff.1 h with ⟨rest, hcs, -⟩ | ⟨rest, hfront, hrest⟩
    · exact .inl ⟨front, rest, hcs.symm⟩
    · cases rest with
      | nil => exact .inl ⟨front, [], by rw [List.append_nil, hfront, List.append_nil]⟩
      | cons d rest =>
        obtain ⟨rfl, hds⟩ := List.cons.inj hrest
        rcases List.append_eq_append_iff.1 hfront with ⟨gap, -, hword⟩ | ⟨gap, -, hgap⟩
        · exact absurd (hword ▸ by simp) hc
        · cases gap with
          | nil =>
            have hword : c :: rest = word := hgap
            exact absurd (hword ▸ List.mem_cons_self) hc
          | cons e gap =>
            refine .inr ⟨gap, behind, ?_⟩
            rw [hds, (List.cons.inj hgap).2]
            rfl
  · rintro (h | h)
    · exact h.trans (List.prefix_append cs (c :: ds)).isInfix
    · exact h.trans ((List.suffix_cons c ds).trans (List.suffix_append cs (c :: ds))).isInfix

theorem toList_extra : "extra".toList = ['e', 'x', 't', 'r', 'a'] := rfl

/-- The word cannot begin in a text without an `x` and end behind it, unless an `x` follows. -/
theorem infix_extra_append (hcs : 'x' ∉ cs) (hds : ds.head? ≠ some 'x') :
    "extra".toList <:+: cs ++ ds ↔ "extra".toList <:+: ds := by
  -- `x` is the second letter: a word that begins in `cs` has it there too, or as the first of `ds`
  induction cs with
  | nil => rfl
  | cons c cs ih =>
    rw [List.cons_append, List.infix_cons_iff, ih (fun h => hcs (List.mem_cons_of_mem c h))]
    refine or_iff_right ?_
    rintro ⟨behind, hbehind⟩
    rw [toList_extra] at hbehind
    obtain ⟨-, hrest⟩ := List.cons.inj hbehind
    cases cs with
    | nil => exact hds (congrArg List.head? hrest).symm
    | cons d cs => exact hcs (by rw [← (List.cons.inj hrest).1]; simp)

/-- Operands, and between them characters other than `x`. -/
inductive Strewn : List Operand → List Char → Prop
  | nil : Strewn [] []
  | plain {os : List Operand} {cs ds : List Char} : 'x' ∉ cs → Strewn os ds → Strewn os (cs ++ ds)
  | operand {o : Operand} {os : List Operand} {cs : List Char} : o.IsValid → Strewn os cs →
    Strewn (o :: os) (o.text ++ cs)

namespace Strewn

theorem append (h : Strewn os cs) (h' : Strewn os' ds) : Strewn (os ++ os') (cs ++ ds) := by
  induction h with
  | nil => exact h'
  | plain hcs _ ih => exact List.append_assoc .. ▸ ih.plain hcs
  | operand ho _ ih => exact List.append_assoc .. ▸ ih.operand ho

theorem of_plain (h : 'x' ∉ cs) : Strewn [] cs := List.append_nil cs ▸ nil.plain h

end Strewn

namespace Operand

/-- Of the known names only `extra` has an `x` in it, and none begins with one. -/
theorem of_mem_knownNames : ∀ name ∈ knownNames,
    name.toList ≠ [] ∧ name.toList.head? ≠ some 'x' ∧ (name = "extra" ∨ 'x' ∉ name.toList) := by
  decide +kernel

theorem head?_text_append (ho : o.IsValid) (cs : List Char) :
    (o.text ++ cs).head? ≠ some 'x' := by
  cases o with
  | named name =>
    obtain ⟨hne, hhead, -⟩ := of_mem_knownNames name ho
    obtain ⟨c, cs', hname⟩ := List.exists_cons_of_ne_nil hne
    rw [text, hname]
    rwa [hname] at hhead
  | quoted quote text =>
    rcases ho with ⟨rfl | rfl, -⟩ <;> exact nofun

/-- In front of a text that begins with no `x`, the word stands in an operand or behind it. -/
theorem infix_text_append (ho : o.IsValid) (hds : ds.head? ≠ some 'x') :
    "extra".toList <:+: o.text ++ ds ↔ o.Mentions ∨ "extra".toList <:+: ds := by
  cases o with
  | named name =>
    obtain ⟨-, -, rfl | hname⟩ := of_mem_knownNames name ho
    · exact iff_of_true (List.prefix_append _ ds).isInfix (.inl rfl)
    · have hnot : ¬ (named name).Mentions := by
        rintro rfl
        exact hname (by decide +kernel)
      rw [or_iff_right hnot]
      exact infix_extra_append hname hds
  | quoted quote text =>
    -- the quotes part the value from all around it
    have hquote : quote ∉ "extra".toList := by
      rcases ho.1 with rfl | rfl <;> decide +kernel
    have hempty : ¬ "extra".toList <:+: [] := by
      rw [List.infix_nil]
      exact nofun
    have htext : (quoted quote text).text ++ ds = [] ++ quote :: (text ++ quote :: ds) := by
      rw [Operand.text, List.cons_append, List.append_assoc]
      rfl
    rw [htext, infix_append_cons hquote, infix_append_cons hquote, or_iff_right hempty]
    rfl

end Operand

namespace Strewn

theorem head?_ne (h : Strewn os cs) : cs.head? ≠ some 'x' := by
  induction h with
  | nil => exact nofun
  | @plain os cs ds hcs _ ih =>
    cases cs with
    | nil => exact ih
    | cons c cs => exact fun h => hcs (Option.some.inj h ▸ List.mem_cons_self)
  | operand ho => exact Operand.head?_text_append ho _

/-- The word `extra` occurs exactly where an operand mentions it. -/
theorem infix_extra (h : Strewn os cs) :
    "extra".toList <:+: cs ↔ ∃ o ∈ os, o.Mentions := by
  induction h with
  | nil =>
    rw [List.infix_nil]
    exact iff_of_false nofun nofun
  | plain hcs h ih => rw [infix_extra_append hcs h.head?_ne, ih]
  | operand ho h ih =>
    rw [Operand.infix_text_append ho h.head?_ne, ih]
    simp only [List.mem_cons, exists_eq_or_imp]

end Strewn

theorem IsSpace.ne_x (h : IsSpace cs) : 'x' ∉ cs := by
  intro hx
  rcases h 'x' hx with hx | hx <;> cases hx

theorem Comparison.ne_x (comparison : Comparison) : 'x' ∉ comparison.text := by
  cases comparison <;> decide

theorem IsOperator.ne_x (h : IsOperator cs) : 'x' ∉ cs := by
  rcases h with ⟨comparison, rfl⟩ | rfl | ⟨gap, -, hgap, rfl⟩
  · exact comparison.ne_x
  · decide +kernel
  · simp only [List.mem_append, hgap.ne_x, false_or]
    decide +kernel

/-- Outside of its operands, a marker holds no `x`. -/
theorem IsMarker.strewn (h : IsMarker os cs) : Strewn os cs := by
  induction h with
  | comparison hl hr hfront hbefore hoperator hbehind =>
    have hright : Strewn [_] (_ ++ []) := .operand hr .nil
    rw [List.append_nil] at hright
    exact .plain hfront.ne_x (.operand hl (.plain hbefore.ne_x (.plain hoperator.ne_x
      (.plain hbehind.ne_x hright))))
  | inParens hfront _ hbehind ih =>
    have hopen : 'x' ∉ ['('] := by decide
    have hclose : 'x' ∉ [')'] := by decide
    have hend := ih.append (.plain hbehind.ne_x (.of_plain hclose))
    rw [List.append_nil] at hend
    exact .plain hfront.ne_x (.plain hopen hend)
  | @joined os os' cs cs' gap word _ hgap hword _ ih ih' =>
    have hword : 'x' ∉ word := by
      rcases hword with rfl | rfl <;> decide +kernel
    exact ih.append (.plain hgap.ne_x (.plain hword ih'))

/-- The word stands in a marker, with or without a gap behind it, if an operand mentions it. -/
theorem IsMarker.infix_extra (h : IsMarker os cs) (hgap : IsSpace ds) :
    "extra".toList <:+: cs ++ ds ↔ ∃ o ∈ os, o.Mentions := by
  have hstrewn := h.strewn.append (.of_plain hgap.ne_x)
  rw [List.append_nil] at hstrewn
  exact hstrewn.infix_extra

end PackageGate.Requirement
