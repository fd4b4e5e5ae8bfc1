/-!
# Parts of a text

- `splitWhere`: the parts of a text between the characters that a property holds of.
- `splitAt`: the parts between the occurrences of one character.
-/

namespace PackageGate.Text

/-- The parts of a text between the characters that `isMark` holds of; one more than there
are of these. -/
def splitWhere (isMark : Char → Bool) : List Char → List (List Char)
  | [] => [[]]
  | c :: r =>
    match splitWhere isMark r with
    | [] => [[]]
    | part :: parts => if isMark c then [] :: part :: parts else (c :: part) :: parts

/-- The parts of a text between the characters `sep`. -/
def splitAt (sep : Char) (cs : List Char) : List (List Char) := splitWhere (· = sep) cs

end PackageGate.Text
