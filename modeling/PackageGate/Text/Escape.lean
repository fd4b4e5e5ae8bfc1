/-!
# Escape sequences

Text for a terminal may hold sequences that are no text: they begin with an escape
character and set colours, move the cursor or name the window. What does not go to
a terminal is written without them, and without control characters.

- `Escape.State`, `Escape.State.next`: how far a sequence has come.
- `Escape.State.shows`: the characters that are text.
- `Escape.strip`: a text without escape sequences.
-/

namespace PackageGate.Text.Escape

/-- How far an escape sequence has come. -/
inductive State
  /-- In no sequence. -/
  | ground
  | escape
  /-- Behind an escape character and marks that are followed by one more character. -/
  | marks
  /-- In a control sequence: numbers and marks, up to a letter. -/
  | control
  /-- In front of the numbers of a device's string. -/
  | device
  | deviceNumbers
  | deviceMarks
  /-- In a string that the character `U+009C` ends. -/
  | string
  /-- In a string that a bell ends. -/
  | title
deriving DecidableEq, Inhabited

namespace State

/-- The state behind the first character of a sequence. -/
def afterEscape (c : Char) : State :=
  if c = '[' then .control
  else if c = ']' then .title
  else if c = 'P' then .device
  else if c = 'X' || c = '^' || c = '_' then .string
  else .ground

/-- Whether one of the bytes of a character is `0x9C`. -/
def hasEndByte (c : Char) : Bool := (String.singleton c).toUTF8.toList.contains 0x9C

/-- The state behind a character. An escape character begins a sequence anywhere, and the
controls `0x18` and `0x1A` end any. -/
def next (s : State) (c : Char) : State :=
  let n := c.toNat
  let isMark : Bool := 0x20 ≤ n && n ≤ 0x2F
  let isNumber : Bool := 0x30 ≤ n && n ≤ 0x3F
  let isLetter : Bool := 0x40 ≤ n && n ≤ 0x7E
  if n = 0x1B then .escape
  else if n = 0x18 || n = 0x1A then .ground
  else
    match s with
    | .ground => .ground
    | .escape => if isMark then .marks else if isNumber || isLetter then afterEscape c else .escape
    | .marks => if isNumber || isLetter then .ground else .marks
    | .control => if isLetter then .ground else .control
    | .device =>
      if isLetter || c = ':' then .string
      else if isMark then .deviceMarks
      else if isNumber then .deviceNumbers
      else .device
    | .deviceNumbers =>
      if isLetter || c = ':' || (isNumber && !c.isDigit && c ≠ ';') then .string
      else if isMark then .deviceMarks
      else .deviceNumbers
    | .deviceMarks => if isLetter || isNumber then .string else .deviceMarks
    | .string => if hasEndByte c then .ground else .string
    | .title => if n = 0x07 then .ground else .title

/-- Whether a character is text. Blanks between lines are so even in some sequences. -/
def shows (s : State) (c : Char) : Bool :=
  if c = '\t' || c = '\n' || c = '\r' || c.toNat = 0x0C then
    s = .ground || s = .escape || s = .marks || s = .control
  else s = .ground && 0x20 ≤ c.toNat && c.toNat ≠ 0x7F

end State

/-- A text without escape sequences. Where text begins, it goes on up to a character that is
none, also inside a sequence that it has interrupted; `isText` holds behind text. -/
def stripFrom (s : State) (isText : Bool) : List Char → List Char
  | [] => []
  | c :: r =>
    if isText && State.ground.shows c then
      c :: stripFrom (if c.toNat < 0x80 then s else .ground) true r
    else if s.shows c then c :: stripFrom (s.next c) true r
    else stripFrom (s.next c) false r

/-- A text without escape sequences. -/
def strip (text : String) : String :=
  String.ofList (stripFrom .ground false text.toList)

end PackageGate.Text.Escape
