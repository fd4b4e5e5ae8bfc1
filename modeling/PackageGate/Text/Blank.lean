/-!
# Blank characters and trimming

A package name that is all blank is no name, and the texts that people type
(specifiers, requirements, answers) are read without the blanks around them.

- `isBlank c`: the characters of the Unicode property *White_Space*.
- `trim cs`: `cs` without the blanks at its two ends.
- `isBlankText s`: nothing but blanks, or nothing at all.
-/

namespace PackageGate.Text

/-- The Unicode property *White_Space*: tab to carriage return, the space, next
line, the no-break space, and the wide, thin and line-separating spaces. -/
def isBlank (c : Char) : Bool :=
  let n := c.toNat
  (9 ≤ n && n ≤ 13) || n == 0x20 || n == 0x85 || n == 0xA0 || n == 0x1680 ||
  (0x2000 ≤ n && n ≤ 0x200A) || n == 0x2028 || n == 0x2029 || n == 0x202F ||
  n == 0x205F || n == 0x3000

/-- `cs` from its first character that is not blank. -/
def trimStart (cs : List Char) : List Char :=
  cs.dropWhile isBlank

/-- `cs` up to its last character that is not blank. -/
def trimEnd (cs : List Char) : List Char :=
  (cs.reverse.dropWhile isBlank).reverse

/-- `cs` without the blanks at its two ends. -/
def trim (cs : List Char) : List Char :=
  trimEnd (trimStart cs)

/-- Whether `s` holds nothing but blanks. -/
def isBlankText (s : String) : Bool :=
  s.toList.all isBlank

/-- Text that is not blank, or nothing. -/
def unlessBlank (s : Option String) : Option String :=
  s.filter (fun t => !isBlankText t)

end PackageGate.Text
