import PackageGate.Json.Value

/-!
# Reading JSON

The grammar of RFC 8259: blanks are space, tab, line feed and carriage return; a
number has no leading zero; a string holds no raw control character.

- `Json.readString`: the rest of a string behind its opening quote.
- `Json.readNumber`: the longest number at the front of a text.
- `Json.readValue`: one value; every value is at least one character long, so
  as many nested steps as there are characters suffice.
- `Json.read?`: a whole text: one value, with nothing but blanks around it.
-/

namespace PackageGate.Json

/-- The blanks between the tokens of JSON. -/
def isSpace (c : Char) : Bool :=
  c = ' ' || c = '\t' || c = '\n' || c = '\r'

/-- The text behind its leading blanks. -/
def skipSpace (cs : List Char) : List Char :=
  cs.dropWhile isSpace

/-- The value of a hexadecimal digit. -/
def hexDigit? (c : Char) : Option Nat :=
  if '0' ≤ c ∧ c ≤ '9' then some (c.toNat - '0'.toNat)
  else if 'a' ≤ c ∧ c ≤ 'f' then some (c.toNat - 'a'.toNat + 10)
  else if 'A' ≤ c ∧ c ≤ 'F' then some (c.toNat - 'A'.toNat + 10)
  else none

/-- The number that four hexadecimal digits write. -/
def hex4? (a b c d : Char) : Option Nat := do
  let a ← hexDigit? a
  let b ← hexDigit? b
  let c ← hexDigit? c
  let d ← hexDigit? d
  return ((a * 16 + b) * 16 + c) * 16 + d

/-- The first half of a surrogate pair. -/
def isHighSurrogate (n : Nat) : Bool := 0xD800 ≤ n && n ≤ 0xDBFF

/-- The second half of a surrogate pair. -/
def isLowSurrogate (n : Nat) : Bool := 0xDC00 ≤ n && n ≤ 0xDFFF

/-- The character that a surrogate pair stands for. -/
def joinSurrogates (high low : Nat) : Char :=
  Char.ofNat (0x10000 + (high - 0xD800) * 0x400 + (low - 0xDC00))

/-- The character that `\c` stands for, when it is a short escape. -/
def shortEscape? : Char → Option Char
  | '"' => some '"'
  | '\\' => some '\\'
  | '/' => some '/'
  | 'b' => some '\x08'
  | 'f' => some '\x0c'
  | 'n' => some '\n'
  | 'r' => some '\r'
  | 't' => some '\t'
  | _ => none

/-- Reads the rest of a string behind its opening quote as code units: a character
is its code point, an escape the number that it writes. -/
def readUnits : List Char → Option (List Nat × List Char)
  | [] => none
  | '"' :: r => some ([], r)
  | '\\' :: 'u' :: a :: b :: c :: d :: r => do
    let n ← hex4? a b c d
    let (units, rest) ← readUnits r
    return (n :: units, rest)
  | '\\' :: e :: r => do
    let c ← shortEscape? e
    let (units, rest) ← readUnits r
    return (c.toNat :: units, rest)
  | c :: r => do
    if c.toNat < 0x20 then none
    let (units, rest) ← readUnits r
    return (c.toNat :: units, rest)

/-- The characters of a list of code units, in which a surrogate pair is one
character; nothing if half of a pair stands alone. -/
def joinUnits? : List Nat → Option (List Char)
  | [] => some []
  | [n] => if isHighSurrogate n || isLowSurrogate n then none else some [Char.ofNat n]
  | n :: m :: r =>
    if isHighSurrogate n then
      if isLowSurrogate m then (joinUnits? r).map (joinSurrogates n m :: ·) else none
    else if isLowSurrogate n then none
    else (joinUnits? (m :: r)).map (Char.ofNat n :: ·)

/-- Reads the rest of a string behind its opening quote. -/
def readString (cs : List Char) : Option (Option String × List Char) := do
  let (units, rest) ← readUnits cs
  return ((joinUnits? units).map String.ofList, rest)

/-- The digits at the front of a text, and the rest; refused if there are none. -/
def digits? (cs : List Char) : Option (List Char × List Char) :=
  match cs.takeWhile Char.isDigit with
  | [] => none
  | ds => some (ds, cs.dropWhile Char.isDigit)

/-- The integer part of a number: a zero alone, or digits that start with another. -/
def readInteger (cs : List Char) : Option (List Char × List Char) := do
  let (ds, r) ← digits? cs
  if ds.head? = some '0' && ds.length ≠ 1 then none else return (ds, r)

/-- The fraction of a number, if a point starts one. -/
def readFraction : List Char → Option (List Char × List Char)
  | '.' :: r => do
    let (ds, r) ← digits? r
    return ('.' :: ds, r)
  | cs => some ([], cs)

/-- The exponent of a number, if a letter starts one. -/
def readExponent : List Char → Option (List Char × List Char)
  | c :: r =>
    if c = 'e' || c = 'E' then do
      let (sign, r) := match r with
        | '+' :: r => (['+'], r)
        | '-' :: r => (['-'], r)
        | r => ([], r)
      let (ds, r) ← digits? r
      return (c :: sign ++ ds, r)
    else some ([], c :: r)
  | [] => some ([], [])

/-- The number at the front of a text. -/
def readNumber (cs : List Char) : Option (String × List Char) := do
  let (sign, r) := match cs with
    | '-' :: r => (['-'], r)
    | r => ([], r)
  let (whole, r) ← readInteger r
  let (fraction, r) ← readFraction r
  let (exponent, r) ← readExponent r
  return (String.ofList (sign ++ whole ++ fraction ++ exponent), r)

/-- The text behind `word`, if it starts with it. -/
def readWord (word cs : List Char) : Option (List Char) :=
  if word.isPrefixOf cs then some (cs.drop word.length) else none

mutual

/-- Reads one value, with blanks in front of it, in at most `fuel` nested steps. -/
def readValue (fuel : Nat) (cs : List Char) : Option (Value × List Char) :=
  match fuel with
  | 0 => none
  | fuel + 1 =>
    match skipSpace cs with
    | 'n' :: r => (readWord "ull".toList r).map (Value.null, ·)
    | 't' :: r => (readWord "rue".toList r).map (Value.bool true, ·)
    | 'f' :: r => (readWord "alse".toList r).map (Value.bool false, ·)
    | '"' :: r => (readString r).map fun (text, r) => (Value.string text, r)
    | '[' :: r =>
      match skipSpace r with
      | ']' :: r => some (Value.array [], r)
      | r => (readItems fuel r).map fun (items, r) => (Value.array items, r)
    | '{' :: r =>
      match skipSpace r with
      | '}' :: r => some (Value.object [], r)
      | r => (readFields fuel r).map fun (fields, r) => (Value.object fields, r)
    | r => (readNumber r).map fun (literal, r) => (Value.number literal, r)

/-- Reads the items of an array, from the first one to the closing bracket. -/
def readItems (fuel : Nat) (cs : List Char) : Option (List Value × List Char) :=
  match fuel with
  | 0 => none
  | fuel + 1 =>
    match readValue fuel cs with
    | none => none
    | some (item, r) =>
      match skipSpace r with
      | ']' :: r => some ([item], r)
      | ',' :: r => (readItems fuel r).map fun (items, r) => (item :: items, r)
      | _ => none

/-- Reads the fields of an object, from the first one to the closing brace. -/
def readFields (fuel : Nat) (cs : List Char) : Option (List (Option String × Value) × List Char) :=
  match fuel with
  | 0 => none
  | fuel + 1 =>
    match skipSpace cs with
    | '"' :: r =>
      match readString r with
      | none => none
      | some (name, r) =>
        match skipSpace r with
        | ':' :: r =>
          match readValue fuel r with
          | none => none
          | some (value, r) =>
            match skipSpace r with
            | '}' :: r => some ([(name, value)], r)
            | ',' :: r =>
              (readFields fuel r).map fun (fields, r) => ((name, value) :: fields, r)
            | _ => none
        | _ => none
    | _ => none

end

/-- Reads a whole text as one value. -/
def read? (text : String) : Option Value :=
  match readValue (text.toList.length + 1) text.toList with
  | some (value, r) => if skipSpace r = [] then some value else none
  | none => none

end PackageGate.Json
