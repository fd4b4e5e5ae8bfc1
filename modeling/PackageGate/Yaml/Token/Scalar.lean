import PackageGate.Yaml.Token

/-!
# Scalars of YAML

- `Fold`: the blanks and line breaks between two pieces of a scalar. A single
  line break between them is a space; of several, the first does not count.
- `readPlain`: a scalar without quotes; it ends at an indicator, at a comment or
  at a line that is not indented enough.
- `readQuoted`: a scalar in single or double quotes.
- `readBlock`: a literal or folded scalar, which goes on as long as its lines are
  indented.

Every loop takes at least one character in each turn, so that more turns than
there are characters suffice, also for the loops inside a turn.
-/

namespace PackageGate.Yaml

/-- What stands between two pieces of a scalar. -/
structure Fold where
  spaces : List Char
  firstBreak : List Char
  breaks : List Char
  isBroken : Bool
deriving DecidableEq, Inhabited

namespace Fold

/-- Nothing between two pieces. -/
def empty : Fold := ⟨[], [], [], false⟩

/-- What the blanks and breaks between two pieces mean. -/
def text (f : Fold) : List Char :=
  if f.isBroken then
    if f.firstBreak.head? = some '\n' then
      if f.breaks = [] then [' '] else f.breaks
    else f.firstBreak ++ f.breaks
  else f.spaces

/-- Reads blanks and breaks. A tab that stands for the indentation of a line, in front of
the column `indent`, is refused. -/
def read (indent : Int) : (fuel : Nat) → Fold → Cursor → Option (Fold × Cursor)
  | 0, f, c => some (f, c)
  | fuel + 1, f, c =>
    match c.rest with
    | b :: _ =>
      if isGap b then
        if f.isBroken && c.column < indent && b = '\t' then none
        else if f.isBroken then read indent fuel f (c.skip 1)
        else read indent fuel { f with spaces := f.spaces ++ [b] } (c.skip 1)
      else if isBreak b then
        if f.isBroken then read indent fuel { f with breaks := f.breaks ++ c.breakText } c.skipBreak
        else
          read indent fuel { f with spaces := [], firstBreak := c.breakText, isBroken := true }
            c.skipBreak
      else some (f, c)
    | [] => some (f, c)

end Fold

/-! ## Plain scalars -/

/-- The characters that end a plain scalar inside brackets or braces. -/
def isFlowMark (c : Char) : Bool :=
  c = ',' || c = '[' || c = ']' || c = '{' || c = '}'

/-- The characters that must not follow a colon inside brackets or braces. -/
def isColonTrouble (c : Char) : Bool :=
  isFlowMark c || c = '?'

/-- The piece of a plain scalar up to a blank or an indicator, and the rest. -/
def plainPiece (inFlow : Bool) : List Char → Option (List Char × List Char)
  | [] => some ([], [])
  | c :: r =>
    if isGap c || isBreak c then some ([], c :: r)
    else if inFlow && c = ':' && r.head?.any isColonTrouble then none
    else if c = ':' && startsBlank r then some ([], c :: r)
    else if inFlow && isFlowMark c then some ([], c :: r)
    else (plainPiece inFlow r).map fun (piece, rest) => (c :: piece, rest)

/-- Reads a plain scalar from the piece behind `before` on; tells whether a line break
follows it. Its lines are indented up to the column `indent` at least. -/
def readPlain (inFlow : Bool) (indent : Int) :
    (fuel : Nat) → (before : Fold) → Cursor → Option (List Char × Bool × Cursor)
  | 0, before, c => some ([], before.isBroken, c)
  | fuel + 1, before, c =>
    if c.isAtDocumentMark || c.rest.head? = some '#' then some ([], before.isBroken, c)
    else do
      let (piece, rest) ← plainPiece inFlow c.rest
      if piece = [] then return ([], before.isBroken, c)
      let text := before.text ++ piece
      let c := c.skip piece.length
      if rest = [] || !startsBlank rest then return (text, false, c)
      let (f, c) ← Fold.read indent fuel .empty c
      if !inFlow && c.column < indent then return (text, f.isBroken, c)
      let (more, isBroken, c) ← readPlain inFlow indent fuel f c
      return (text ++ more, isBroken, c)

/-! ## Quoted scalars -/

/-- The value of a hexadecimal digit. -/
def hexValue? (c : Char) : Option Nat :=
  if '0' ≤ c ∧ c ≤ '9' then some (c.toNat - '0'.toNat)
  else if 'a' ≤ c ∧ c ≤ 'f' then some (c.toNat - 'a'.toNat + 10)
  else if 'A' ≤ c ∧ c ≤ 'F' then some (c.toNat - 'A'.toNat + 10)
  else none

/-- The number that hexadecimal digits write. -/
def hexNumber? (digits : List Char) : Option Nat :=
  digits.foldlM (fun n d => (hexValue? d).map (16 * n + ·)) 0

/-- The character whose code is written in the first `width` digits, and the rest. -/
def hexChar? (width : Nat) (cs : List Char) : Option (Char × List Char) := do
  let digits := cs.take width
  if digits.length < width then none
  let n ← hexNumber? digits
  if (0xD800 ≤ n && n ≤ 0xDFFF) || 0x10FFFF < n then none
  return (Char.ofNat n, cs.drop width)

/-- The characters that stand for others behind a backslash. -/
def escapes : List (Char × Nat) := [
  ('0', 0x00), ('a', 0x07), ('b', 0x08), ('t', 0x09), ('\t', 0x09), ('n', 0x0A), ('v', 0x0B),
  ('f', 0x0C), ('r', 0x0D), ('e', 0x1B), (' ', 0x20), ('"', 0x22), ('/', 0x2F), ('\\', 0x5C),
  ('N', 0x85), ('_', 0xA0), ('L', 0x2028), ('P', 0x2029)]

/-- The character that an escape behind its backslash stands for, and the rest. -/
def readEscape : List Char → Option (Char × List Char)
  | 'x' :: r => hexChar? 2 r
  | 'u' :: r => hexChar? 4 r
  | 'U' :: r => hexChar? 8 r
  | e :: r => (escapes.lookup e).map fun n => (Char.ofNat n, r)
  | [] => none

/-- The mark around a quoted scalar. -/
def quoteMark (isSingle : Bool) : Char := if isSingle then '\'' else '"'

/-- The piece of a quoted scalar up to a blank, a closing quote or an escaped line break,
and the rest. -/
def quotedPiece (isSingle : Bool) : (fuel : Nat) → List Char → Option (List Char × List Char)
  | 0, cs => some ([], cs)
  | _ + 1, [] => some ([], [])
  | fuel + 1, c :: r =>
    if isGap c || isBreak c then some ([], c :: r)
    else if isSingle && c = '\'' && r.head? = some '\'' then
      (quotedPiece isSingle fuel r.tail).map fun (piece, rest) => (c :: piece, rest)
    else if c = quoteMark isSingle then some ([], c :: r)
    else if !isSingle && c = '\\' then
      if r.head?.any isBreak then some ([], c :: r)
      else do
        let (e, r) ← readEscape r
        let (piece, rest) ← quotedPiece isSingle fuel r
        return (e :: piece, rest)
    else (quotedPiece isSingle fuel r).map fun (piece, rest) => (c :: piece, rest)

/-- Reads a quoted scalar behind its opening mark. -/
def readQuoted (isSingle : Bool) : (fuel : Nat) → Cursor → Option (List Char × Cursor)
  | 0, _ => none
  | fuel + 1, c =>
    if c.isAtDocumentMark || c.rest = [] then none
    else do
      let (piece, rest) ← quotedPiece isSingle fuel c.rest
      let c := c.skipTo rest
      if rest.head? = some (quoteMark isSingle) then return (piece, c.skip 1)
      let (before, c) :=
        if rest.head? = some '\\' then ({ Fold.empty with isBroken := true }, (c.skip 1).skipBreak)
        else (Fold.empty, c)
      let (f, c) ← Fold.read (-1) fuel before c
      let (more, c) ← readQuoted isSingle fuel c
      return (piece ++ f.text ++ more, c)

/-! ## Block scalars -/

/-- What becomes of the line breaks at the end of a block scalar. -/
inductive Chomp
  | strip
  | clip
  | keep
deriving DecidableEq, Inhabited

/-- A chomping mark, if there is one, and the rest. -/
def readChomp : List Char → Option Chomp × List Char
  | '+' :: r => (some .keep, r)
  | '-' :: r => (some .strip, r)
  | cs => (none, cs)

/-- An indentation mark, if there is one, and the rest; a zero is refused. -/
def readIncrement : List Char → Option (Nat × List Char)
  | c :: r =>
    if c = '0' then none
    else if c.isDigit then some (c.toNat - '0'.toNat, r)
    else some (0, c :: r)
  | [] => some (0, [])

/-- The marks behind the indicator of a block scalar, in either order. -/
def readBlockMarks (cs : List Char) : Option (Chomp × Nat × List Char) :=
  match readChomp cs with
  | (some chomp, r) => (readIncrement r).map fun (n, r) => (chomp, n, r)
  | (none, r) => do
    let (n, r) ← readIncrement r
    if n = 0 then return (.clip, 0, r)
    let (chomp, r) := readChomp r
    return (chomp.getD .clip, n, r)

/-- Skips empty lines, and the indentation of the next line; `indent` is zero while it is
not known. Gives the line breaks and the widest indentation that was seen. -/
def readIndentation (indent : Nat) :
    (fuel : Nat) → (breaks : List Char) → (widest : Nat) → Cursor →
      Option (List Char × Nat × Cursor)
  | 0, breaks, widest, c => some (breaks, widest, c)
  | fuel + 1, breaks, widest, c =>
    match c.rest with
    | b :: _ =>
      let isMargin := indent = 0 || c.column < indent
      if b = ' ' && isMargin then readIndentation indent fuel breaks widest (c.skip 1)
      else
        let widest := max widest c.column
        if b = '\t' && isMargin then none
        else if isBreak b then
          readIndentation indent fuel (breaks ++ c.breakText) widest c.skipBreak
        else some (breaks, widest, c)
    | [] => some (breaks, max widest c.column, c)

/-- The text between two lines of a block scalar: line breaks are kept, but in a folded
scalar one break between two lines that start without a blank is a space, and of several
the first does not count. -/
def joinLines (isFolded : Bool) (lastBreak breaks : List Char) (wasBlank isBlank : Bool) :
    List Char :=
  if isFolded && lastBreak.head? = some '\n' && !wasBlank && !isBlank then
    if breaks = [] then [' '] else breaks
  else lastBreak ++ breaks

/-- Reads the lines of a block scalar, which start in the column `indent`. `lastBreak`
ends the line in front, and `breaks` are the empty lines behind it. -/
def readLines (isFolded : Bool) (chomp : Chomp) (indent : Nat) :
    (fuel : Nat) → (lastBreak breaks : List Char) → (wasBlank : Bool) → Cursor →
      Option (List Char × Cursor)
  | 0, _, _, _, c => some ([], c)
  | fuel + 1, lastBreak, breaks, wasBlank, c =>
    if c.column = indent && c.rest ≠ [] then do
      let isBlank := c.rest.head?.any isGap
      let line := c.rest.takeWhile (!isBreak ·)
      let joint := joinLines isFolded lastBreak breaks wasBlank isBlank
      let c := c.skip line.length
      let lastBreak := c.breakText
      let c := c.skipBreak
      let (breaks, _, c) ← readIndentation indent fuel [] 0 c
      let (more, c) ← readLines isFolded chomp indent fuel lastBreak breaks isBlank c
      return (joint ++ line ++ more, c)
    else
      some (match chomp with
        | .strip => []
        | .clip => lastBreak
        | .keep => lastBreak ++ breaks, c)

/-- Reads a block scalar behind its indicator, inside a block collection in the column
`outer`. -/
def readBlock (isFolded : Bool) (outer : Int) (fuel : Nat) (c : Cursor) :
    Option (List Char × Cursor) := do
  let (chomp, increment, rest) ← readBlockMarks c.rest
  let c := (c.skipTo rest).skipWhile isGap
  let c := if c.rest.head? = some '#' then c.skipWhile (!isBreak ·) else c
  if !startsBreak c.rest then none
  let c := c.skipBreak
  let given := if increment = 0 then 0 else (max outer 0).toNat + increment
  let (breaks, widest, c) ← readIndentation given fuel [] 0 c
  let indent := if given = 0 then max (max widest (outer + 1).toNat) 1 else given
  readLines isFolded chomp indent fuel [] breaks false c

end PackageGate.Yaml
