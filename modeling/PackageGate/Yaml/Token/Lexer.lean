import PackageGate.Yaml.Token.Mark

/-!
# From text to tokens

Block collections are not bracketed in the text: a token in a new column opens
one, and a token in front of its column closes it. And a mapping key is only
known as such when the colon behind it is read. So the lexer remembers for
each nesting of flow collections where the last token stands that may turn out
to be a key, and puts the token `key` in front of it when a colon follows. Such
a key ends in its line, after at most 1024 bytes.

- `Lexer`: the place in the text, the tokens so far, the columns of the open
  block collections and the possible keys.
- `Lexer.step`: reads one more token.
- `tokens?`: all tokens of a text, or nothing if it is no sequence of tokens.
-/

namespace PackageGate.Yaml

/-- A place that may turn out to be the beginning of a key. -/
structure KeyPlace where
  /-- How many tokens stand in front of it. -/
  token : Nat
  index : Nat
  line : Nat
  column : Nat
  /-- Whether it has to be a key, since no other token may begin in its column. -/
  isRequired : Bool
deriving DecidableEq, Inhabited

/-- A lexer in the middle of a text. -/
structure Lexer where
  cursor : Cursor
  tokens : Array Token
  /-- The columns of the open block collections, innermost first. -/
  columns : List Int
  /-- The possible key of each open flow collection, innermost first, and of the block. -/
  places : List (Option KeyPlace)
  /-- Whether a key may begin here. -/
  allowsKey : Bool
  /-- More turns than any loop over the text takes. -/
  turns : Nat

namespace Lexer

/-- A lexer at the beginning of a text. -/
def start (text : List Char) : Lexer := ⟨.start text, #[], [], [none], true, text.length + 2⟩

/-- Whether the lexer is inside brackets or braces. -/
def inFlow (s : Lexer) : Bool := 1 < s.places.length

/-- The column of the innermost block collection; `-1` if there is none. -/
def column (s : Lexer) : Int := s.columns.headD (-1)

/-- Adds a token. -/
def emit (s : Lexer) (t : Token) : Lexer := { s with tokens := s.tokens.push t }

/-- Skips blanks, comments and line breaks. A tab is no blank where a key may begin. -/
def skipBlanks : (fuel : Nat) → Lexer → Lexer
  | 0, s => s
  | fuel + 1, s =>
    let c := s.cursor
    let c := if c.column = 0 && c.rest.head? = some '\uFEFF' then c.skip 1 else c
    let c := c.skipWhile fun b => b = ' ' || (b = '\t' && (s.inFlow || !s.allowsKey))
    let c := if c.rest.head? = some '#' then c.skipWhile (!isBreak ·) else c
    if c.rest.head?.any isBreak then
      skipBlanks fuel { s with cursor := c.skipBreak, allowsKey := s.allowsKey || !s.inFlow }
    else { s with cursor := c }

/-- Whether a place is too far back to become a key. -/
def isStale (c : Cursor) (p : KeyPlace) : Bool :=
  p.line < c.line || p.index + 1024 < c.index

/-- Gives up the places that are too far back; refused if one of them has to be a key. -/
def dropStale (s : Lexer) : Option Lexer :=
  let stale := s.places.filterMap fun p => p.filter (isStale s.cursor)
  if stale.any (·.isRequired) then none
  else some { s with places := s.places.map fun p => p.filter (!isStale s.cursor ·) }

/-- Closes the block collections behind the column `column`. -/
def closeBlocks (column : Int) (s : Lexer) : Lexer :=
  if s.inFlow then s
  else
    let closed := s.columns.takeWhile (column < ·)
    { s with
      columns := s.columns.drop closed.length
      tokens := s.tokens ++ (Array.replicate closed.length Token.blockEnd) }

/-- Opens a block collection in the column `column`, if that is further right; its token
is the one with the number `number`. -/
def openBlock (column : Nat) (number : Nat) (t : Token) (s : Lexer) : Lexer :=
  if s.inFlow || column ≤ s.column then s
  else
    { s with
      columns := column :: s.columns
      tokens := s.tokens.insertIdxIfInBounds number t }

/-- Gives up the possible key of this nesting; refused if it has to be a key. -/
def dropPlace (s : Lexer) : Option Lexer :=
  match s.places with
  | some p :: rest => if p.isRequired then none else some { s with places := none :: rest }
  | _ => some s

/-- Remembers that a key may begin here. -/
def savePlace (s : Lexer) : Option Lexer :=
  if s.allowsKey then do
    let c := s.cursor
    let place := ⟨s.tokens.size, c.index, c.line, c.column, !s.inFlow && s.column = c.column⟩
    let s ← s.dropPlace
    return { s with places := some place :: s.places.tail }
  else some s

/-- Moves on by `n` characters. -/
def skip (n : Nat) (s : Lexer) : Lexer := { s with cursor := s.cursor.skip n }

/-- Ends the text. -/
def finish (s : Lexer) : Option Lexer :=
  (s.closeBlocks (-1)).dropPlace

/-- Reads a directive. -/
def directive (s : Lexer) : Option Lexer := do
  let s ← (s.closeBlocks (-1)).dropPlace
  let (t, cursor) ← readDirective s.cursor
  return { s.emit t with cursor, allowsKey := false }

/-- Reads the mark of a document's start or end. -/
def documentMark (t : Token) (s : Lexer) : Option Lexer := do
  let s ← (s.closeBlocks (-1)).dropPlace
  return { (s.emit t).skip 3 with allowsKey := false }

/-- Opens a flow collection. -/
def openFlow (t : Token) (s : Lexer) : Option Lexer := do
  let s ← s.savePlace
  return { (s.emit t).skip 1 with places := none :: s.places, allowsKey := true }

/-- Closes a flow collection. -/
def closeFlow (t : Token) (s : Lexer) : Option Lexer := do
  let s ← s.dropPlace
  let places := if s.inFlow then s.places.tail else s.places
  return { (s.emit t).skip 1 with places, allowsKey := false }

/-- Reads the comma between two items of a flow collection. -/
def comma (s : Lexer) : Option Lexer := do
  let s ← s.dropPlace
  return { (s.emit .comma).skip 1 with allowsKey := true }

/-- Reads the dash of a block sequence's item. -/
def entry (s : Lexer) : Option Lexer := do
  if !s.inFlow && !s.allowsKey then none
  let s ← (s.openBlock s.cursor.column s.tokens.size .blockSequence).dropPlace
  return { (s.emit .entry).skip 1 with allowsKey := true }

/-- Reads the question mark of a key. -/
def key (s : Lexer) : Option Lexer := do
  if !s.inFlow && !s.allowsKey then none
  let s ← (s.openBlock s.cursor.column s.tokens.size .blockMapping).dropPlace
  return { (s.emit .key).skip 1 with allowsKey := !s.inFlow }

/-- Reads the colon of a value: what stands in front of it is a key, if that is possible. -/
def value (s : Lexer) : Option Lexer :=
  match s.places with
  | some p :: rest =>
    let s := { s with tokens := s.tokens.insertIdxIfInBounds p.token .key, places := none :: rest }
    let s := s.openBlock p.column p.token .blockMapping
    some { (s.emit .value).skip 1 with allowsKey := false }
  | _ =>
    if !s.inFlow && !s.allowsKey then none
    else
      let s := s.openBlock s.cursor.column s.tokens.size .blockMapping
      some { (s.emit .value).skip 1 with allowsKey := !s.inFlow }

/-- Reads something that may be a key or the beginning of one. -/
def content (read : Cursor → Option (Token × Cursor)) (s : Lexer) : Option Lexer := do
  let s ← s.savePlace
  let (t, cursor) ← read s.cursor
  return { s.emit t with cursor, allowsKey := false }

/-- Reads a quoted scalar. -/
def quoted (isSingle : Bool) (s : Lexer) : Option Lexer :=
  s.content fun c => do
    let c := c.skip 1
    let (text, c) ← readQuoted isSingle s.turns c
    return (.scalar .quoted (String.ofList text), c)

/-- Reads a plain scalar. -/
def plain (s : Lexer) : Option Lexer := do
  let s ← s.savePlace
  let c := s.cursor
  let (text, isBroken, cursor) ← readPlain s.inFlow (s.column + 1) s.turns .empty c
  return { s.emit (.scalar .plain (String.ofList text)) with cursor, allowsKey := isBroken }

/-- Reads a literal or folded scalar. -/
def block (isFolded : Bool) (s : Lexer) : Option Lexer := do
  let s ← s.dropPlace
  let (text, cursor) ← readBlock isFolded s.column s.turns (s.cursor.skip 1)
  let style := if isFolded then Style.folded else Style.literal
  return { s.emit (.scalar style (String.ofList text)) with cursor, allowsKey := true }

/-- Whether a plain scalar can begin with `c`, followed by `r`. -/
def startsPlain (inFlow : Bool) (c : Char) (r : List Char) : Bool :=
  let isIndicator :=
    ['-', '?', ':', ',', '[', ']', '{', '}', '#', '&', '*', '!', '|', '>', '\'', '"', '%', '@',
      '\x60'].contains c
  (!isGap c && !isBreak c && !isIndicator) ||
  (c = '-' && !r.head?.any isGap) ||
  (!inFlow && (c = '?' || c = ':') && !startsBlank r)

/-- Reads the token that begins with `c`, followed by `r`. -/
def token (s : Lexer) (c : Char) (r : List Char) : Option Lexer :=
  let isSeparate := s.inFlow || startsBlank r
  if s.cursor.column = 0 && c = '%' then s.directive
  else if s.cursor.isAtMark ['-', '-', '-'] then s.documentMark .documentStart
  else if s.cursor.isAtMark ['.', '.', '.'] then s.documentMark .documentEnd
  else if c = '[' then s.openFlow .flowSequence
  else if c = '{' then s.openFlow .flowMapping
  else if c = ']' then s.closeFlow .flowSequenceEnd
  else if c = '}' then s.closeFlow .flowMappingEnd
  else if c = ',' then s.comma
  else if c = '-' && startsBlank r then s.entry
  else if c = '?' && isSeparate then s.key
  else if c = ':' && isSeparate then s.value
  else if c = '*' then
    s.content fun c => (readName (c.skip 1)).map fun (name, c) => (.reference name, c)
  else if c = '&' then
    s.content fun c => (readName (c.skip 1)).map fun (name, c) => (.anchor name, c)
  else if c = '!' then s.content (readTag s.inFlow)
  else if c = '|' && !s.inFlow then s.block false
  else if c = '>' && !s.inFlow then s.block true
  else if c = '\'' then s.quoted true
  else if c = '"' then s.quoted false
  else if startsPlain s.inFlow c r then s.plain
  else none

/-- Reads one more token; tells whether the text goes on behind it. -/
def step (s : Lexer) : Option (Bool × Lexer) := do
  let s := s.skipBlanks s.turns
  let s ← s.dropStale
  let s := s.closeBlocks s.cursor.column
  match s.cursor.rest with
  | [] => return (false, ← s.finish)
  | c :: r => return (true, ← s.token c r)

/-- Reads tokens to the end of the text. -/
def run (s : Lexer) : (fuel : Nat) → Option Lexer
  | 0 => none
  | fuel + 1 =>
    match s.step with
    | some (true, s) => run s fuel
    | some (false, s) => some s
    | none => none

end Lexer

/-- The tokens of a text. Every token but the last step takes at least one character. -/
def tokens? (text : List Char) : Option (List Token) :=
  if text.all isPrintable then
    let s := Lexer.start text
    (s.run s.turns).map (·.tokens.toList)
  else none

end PackageGate.Yaml
