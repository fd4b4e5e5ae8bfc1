/-!
# Places in a YAML text

- `isBreak`, `isGap`: the characters that end a line, and those between tokens.
- `Cursor`: what is left of a text, and where that is. Columns matter to YAML,
  so every step keeps line and column; distances are counted in bytes.
-/

namespace PackageGate.Yaml

/-- The characters that end a line. -/
def isBreak (c : Char) : Bool :=
  c = '\n' || c = '\r' || c.toNat = 0x85 || c.toNat = 0x2028 || c.toNat = 0x2029

/-- The characters between tokens of one line. -/
def isGap (c : Char) : Bool :=
  c = ' ' || c = '\t'

/-- Whether a text begins with a gap or a line break, or is at its end. -/
def startsBlank : List Char → Bool
  | [] => true
  | c :: _ => isGap c || isBreak c

/-- Whether a text is at the end of a line or at its own. -/
def startsBreak : List Char → Bool
  | [] => true
  | c :: _ => isBreak c

/-- The characters of names of anchors, tags and directives. -/
def isWordChar (c : Char) : Bool :=
  c.isAlphanum || c = '_' || c = '-'

/-- The characters that a YAML text may hold. -/
def isPrintable (c : Char) : Bool :=
  let n := c.toNat
  n = 0x09 || n = 0x0A || n = 0x0D || (0x20 ≤ n && n ≤ 0x7E) || n = 0x85 ||
  (0xA0 ≤ n && n ≤ 0xD7FF) || (0xE000 ≤ n && n ≤ 0xFFFD) || 0x10000 ≤ n

/-- The number of bytes that characters take up. -/
def byteCount (cs : List Char) : Nat := cs.foldl (fun n c => n + c.utf8Size) 0

/-- A place in a text. Lines and columns count from zero; `index` is the number of bytes in
front. -/
structure Cursor where
  rest : List Char
  index : Nat
  line : Nat
  column : Nat
deriving DecidableEq, Inhabited

namespace Cursor

/-- The beginning of a text. -/
def start (text : List Char) : Cursor := ⟨text, 0, 0, 0⟩

/-- `n` characters further in the same line. -/
def skip (n : Nat) (c : Cursor) : Cursor :=
  { c with
    rest := c.rest.drop n
    index := c.index + byteCount (c.rest.take n)
    column := c.column + n }

/-- Further in the same line, where `rest` is left. -/
def skipTo (rest : List Char) (c : Cursor) : Cursor :=
  c.skip (c.rest.length - rest.length)

/-- Behind the characters of the same line that `p` holds of. -/
def skipWhile (p : Char → Bool) (c : Cursor) : Cursor :=
  c.skip (c.rest.takeWhile p).length

/-- Behind a line break, if there is one. -/
def skipBreak (c : Cursor) : Cursor :=
  match c.rest with
  | '\r' :: '\n' :: r => ⟨r, c.index + 2, c.line + 1, 0⟩
  | b :: r => if isBreak b then ⟨r, c.index + b.utf8Size, c.line + 1, 0⟩ else c
  | [] => c

/-- A line break as it stands in a scalar: the separators of lines and of paragraphs
stay, every other one becomes a line feed. -/
def breakText (c : Cursor) : List Char :=
  match c.rest with
  | b :: _ =>
    if b.toNat = 0x2028 || b.toNat = 0x2029 then [b]
    else if isBreak b then ['\n']
    else []
  | [] => []

/-- Whether the text starts with `word`, followed by a blank. -/
def isAtMark (word : List Char) (c : Cursor) : Bool :=
  c.column = 0 && word.isPrefixOf c.rest && startsBlank (c.rest.drop word.length)

/-- Whether a document starts or ends here. -/
def isAtDocumentMark (c : Cursor) : Bool :=
  c.isAtMark ['-', '-', '-'] || c.isAtMark ['.', '.', '.']

end Cursor

end PackageGate.Yaml
