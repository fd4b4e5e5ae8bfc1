/-!
# Words compared without letter case

Answers and settings are compared with words of ASCII letters, after the text
has been put into lower case. Among all characters only the ASCII capitals and
the Kelvin sign have an ASCII letter as their whole lower-case form, so those
are the characters that can turn a text into such a word.

- `lowerAscii c`: the ASCII letter that `c` lower-cases to, else `c` itself.
- `readsAs s w`: `s` is the word `w` up to letter case.
-/

namespace PackageGate.Text

/-- The ASCII letter that `c` lower-cases to, if there is one, else `c`. -/
def lowerAscii (c : Char) : Char :=
  if c.toNat = 0x212A then 'k' else c.toLower

/-- `cs` with the capitals that have an ASCII lower-case letter replaced by it. -/
def lower (cs : List Char) : List Char :=
  cs.map lowerAscii

/-- Whether `cs` is the lower-case ASCII word `w` up to letter case. -/
def readsAs (cs : List Char) (w : String) : Bool :=
  lower cs == w.toList

end PackageGate.Text
