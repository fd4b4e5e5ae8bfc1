import PackageGate.Yaml.Token.Scalar

/-!
# Names, tags and directives of YAML

- `readName`: the name of an anchor.
- `readTag`: a tag: in full between angle brackets, or short with a handle.
- `readDirective`: the version of YAML, or the meaning of a tag handle.
-/

namespace PackageGate.Yaml

/-- Reads the name of an anchor behind its indicator. -/
def readName (c : Cursor) : Option (String × Cursor) := do
  let name := c.rest.takeWhile isWordChar
  let c := c.skip name.length
  let isEnded := match c.rest with
    | [] => true
    | m :: _ => isGap m || isBreak m || ['?', ':', ',', ']', '}', '%', '@', '\x60'].contains m
  if name = [] || !isEnded then none
  return (String.ofList name, c)

/-! ## Tags -/

/-- The characters of a tag besides those of names; `isWide` admits those that delimit
flow collections too. -/
def isTagMark (isWide : Bool) (c : Char) : Bool :=
  [';', '/', '?', ':', '@', '&', '=', '+', '$', '.', '%', '!', '~', '*', '\'', '(', ')'].contains c
  || (isWide && (c = ',' || c = '[' || c = ']'))

/-- How many bytes a character has whose first byte is `b`. -/
def byteWidth (b : Nat) : Nat :=
  if b < 0x80 then 1
  else if 0xC0 ≤ b ∧ b < 0xE0 then 2
  else if 0xE0 ≤ b ∧ b < 0xF0 then 3
  else if 0xF0 ≤ b ∧ b < 0xF8 then 4
  else 0

/-- The next escaped byte of a tag, and the rest. -/
def escapedByte? : List Char → Option (Nat × List Char)
  | '%' :: a :: b :: r => do
    let high ← hexValue? a
    let low ← hexValue? b
    return (16 * high + low, r)
  | _ => none

/-- `n` more escaped bytes of the same character. -/
def trailingBytes? : (n : Nat) → List Char → Option (List Nat × List Char)
  | 0, cs => some ([], cs)
  | n + 1, cs => do
    let (b, r) ← escapedByte? cs
    if b < 0x80 || 0xC0 ≤ b then none
    let (bytes, r) ← trailingBytes? n r
    return (b :: bytes, r)

/-- The bytes of an escaped character of a tag, and the rest. Their number has to fit the
first of them; they need not be the bytes of a character. -/
def escapedBytes? (cs : List Char) : Option (Tag × List Char) := do
  let (b, r) ← escapedByte? cs
  let width := byteWidth b
  if width = 0 then none
  let (bytes, r) ← trailingBytes? (width - 1) r
  return ((b :: bytes).map UInt8.ofNat, r)

/-- The longest piece of a tag, and the rest. -/
def tagPiece (isWide : Bool) : (fuel : Nat) → List Char → Option (Tag × List Char)
  | 0, cs => some ([], cs)
  | fuel + 1, cs =>
    match cs with
    | [] => some ([], [])
    | c :: r =>
      if !isWordChar c && !isTagMark isWide c then some ([], c :: r)
      else do
        let (bytes, r) ← if c = '%' then escapedBytes? (c :: r)
          else some (Tag.ofText (String.singleton c), r)
        let (piece, rest) ← tagPiece isWide fuel r
        return (bytes ++ piece, rest)

/-- Reads a tag handle: words behind an exclamation mark, and possibly another one. -/
def readHandle (c : Cursor) : Option (List Char × Cursor) :=
  match c.rest with
  | '!' :: r =>
    let word := r.takeWhile isWordChar
    let c := c.skip (1 + word.length)
    if c.rest.head? = some '!' then some ('!' :: word ++ ['!'], c.skip 1)
    else some ('!' :: word, c)
  | _ => none

/-- Reads handle and suffix of a tag. -/
def readTagParts (c : Cursor) : Option (String × Tag × Cursor) :=
  match c.rest with
  | '!' :: '<' :: r => do
    let (suffix, rest) ← tagPiece true r.length r
    if suffix = [] || rest.head? ≠ some '>' then none
    return ("", suffix.cut, c.skipTo rest.tail)
  | _ => do
    let (handle, c) ← readHandle c
    let (suffix, rest) ← tagPiece false c.rest.length c.rest
    let c := c.skipTo rest
    if handle.length ≠ 1 && handle.getLast? = some '!' then
      if suffix = [] then none
      return (String.ofList handle, suffix.cut, c)
    else
      let suffix := (Tag.ofText (String.ofList (handle.drop 1)) ++ suffix).cut
      if suffix = [] then return ("", .ofText "!", c)
      return ("!", suffix, c)

/-- Reads a tag. -/
def readTag (inFlow : Bool) (c : Cursor) : Option (Token × Cursor) := do
  let (handle, suffix, c) ← readTagParts c
  if !startsBlank c.rest && !(inFlow && c.rest.head? = some ',') then none
  return (.tag handle suffix, c)

/-! ## Directives -/

/-- Reads a number of at most nine digits. -/
def readVersionPart (c : Cursor) : Option (Nat × Cursor) :=
  let digits := c.rest.takeWhile Char.isDigit
  if digits = [] || 9 < digits.length then none
  else some (digits.foldl (fun n d => 10 * n + (d.toNat - '0'.toNat)) 0, c.skip digits.length)

/-- Reads the version of YAML. -/
def readVersion (c : Cursor) : Option (Token × Cursor) := do
  let (major, c) ← readVersionPart (c.skipWhile isGap)
  if c.rest.head? ≠ some '.' then none
  let (minor, c) ← readVersionPart (c.skip 1)
  return (.version major minor, c)

/-- Reads the meaning of a tag handle. -/
def readTagHandle (c : Cursor) : Option (Token × Cursor) := do
  let (handle, c) ← readHandle (c.skipWhile isGap)
  if handle ≠ ['!'] && (handle.length = 1 || handle.getLast? ≠ some '!') then none
  if !c.rest.head?.any isGap then none
  let c := c.skipWhile isGap
  let (leading, rest) ← tagPiece true c.rest.length c.rest
  if leading = [] || !startsBlank rest then none
  return (.tagHandle (String.ofList handle) leading.cut, c.skipTo rest)

/-- Reads a directive, up to the end of its line. -/
def readDirective (c : Cursor) : Option (Token × Cursor) := do
  let c := c.skip 1
  let name := c.rest.takeWhile isWordChar
  let c := c.skip name.length
  if name = [] || !startsBlank c.rest then none
  let (token, c) ←
    if name = "YAML".toList then readVersion c
    else if name = "TAG".toList then readTagHandle c
    else none
  let c := c.skipWhile isGap
  let c := if c.rest.head? = some '#' then c.skipWhile (!isBreak ·) else c
  if !startsBreak c.rest then none
  return (token, c.skipBreak)

end PackageGate.Yaml
