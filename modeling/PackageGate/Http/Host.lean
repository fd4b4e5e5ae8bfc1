import PackageGate.Http.Component
import PackageGate.Text.Punycode
import PackageGate.Text.Split

/-!
# Hosts

A host is a name or a number. What ends in a number has to be one: the numbers of
version 4 may be decimal, octal or hexadecimal and have one to four parts, those of
version 6 stand in brackets.

- `Host`: a name or a number.
- `Host.read`: the host that a text stands for, or what is wrong with it.
- `Host.text`: the text of a host, which is the same for all texts that stand for it.
-/

namespace PackageGate.Http

/-- A host. -/
inductive Host
  | name (text : String)
  | v4 (number : Nat)
  | v6 (pieces : List Nat)
deriving DecidableEq, Inhabited

namespace Host

/-- Why a text stands for no host. -/
inductive Problem
  | empty
  | name
  | v4
  | v6
deriving DecidableEq, Inhabited

/-- The text of what is wrong with a host. -/
def Problem.message : Problem → String
  | .empty => "empty host"
  | .name => "invalid international domain name"
  | .v4 => "invalid IPv4 address"
  | .v6 => "invalid IPv6 address"

/-! ## Version 4 -/

/-- The number that digits write in a base; `none` where a digit is none of the base. -/
def digitsValue? (base : Nat) (digits : List Char) : Option Nat :=
  digits.foldlM (fun n c => do
    let d ← Component.digitValue? c
    if d < base then return base * n + d else none) 0

/-- The number that a part stands for: hexadecimal behind `0x`, octal behind `0`. -/
def partValue? : List Char → Option Nat
  | [] => none
  | '0' :: 'x' :: r | '0' :: 'X' :: r => digitsValue? 16 r
  | '0' :: c :: r => digitsValue? 8 (c :: r)
  | cs => digitsValue? 10 cs

/-- The parts of a name, without an empty one at its end. -/
def parts (name : List Char) : List (List Char) :=
  let ps := Text.splitAt '.' name
  if ps.getLast? = some [] then ps.dropLast else ps

/-- Whether the last part of a name is a number. -/
def endsInNumber (name : List Char) : Bool :=
  match (parts name).getLast? with
  | none => false
  | some [] => false
  | some last => last.all Char.isDigit || (partValue? last).isSome

/-- The number with the given parts. The last part stands for all bytes that are left. -/
def ofParts? : (left : Nat) → List (List Char) → Option Nat
  | _, [] => none
  | 0, _ => none
  | left + 1, [last] => (partValue? last).filter (· < 256 ^ (left + 1))
  | left + 1, p :: r => do
    let n ← (partValue? p).filter (· < 256)
    return n * 256 ^ left + (← ofParts? left r)

/-- Four bytes between points. -/
def textOfV4 (n : Nat) : String :=
  ".".intercalate ([n >>> 24, (n >>> 16) % 256, (n >>> 8) % 256, n % 256].map toString)

/-! ## Version 6 -/

/-- A piece: at most four hexadecimal digits. -/
def piece? (digits : List Char) : Option Nat :=
  if digits = [] || 4 < digits.length then none else digitsValue? 16 digits

/-- A byte without zeros in front. -/
def byte? (digits : List Char) : Option Nat :=
  if digits = [] || (1 < digits.length && digits.head? = some '0') || !digits.all Char.isDigit then
    none
  else (digitsValue? 10 digits).filter (· < 256)

/-- The pieces between colons. In the end there may be the four bytes of two pieces. -/
def pieces? : List (List Char) → Option (List Nat)
  | [] => some []
  | [last] =>
    if last.contains '.' then
      match (Text.splitAt '.' last).mapM byte? with
      | some [a, b, c, d] => some [256 * a + b, 256 * c + d]
      | _ => none
    else (piece? last).map ([·])
  | p :: r => do return (← piece? p) :: (← pieces? r)

/-- What stands in front of the first two colons in a row, and behind them. -/
def splitGap : List Char → Option (List Char × List Char)
  | ':' :: ':' :: r => some ([], r)
  | c :: r => (splitGap r).map fun (front, back) => (c :: front, back)
  | [] => none

/-- The pieces of a text without a gap; none for an empty text. -/
def group? (cs : List Char) : Option (List Nat) :=
  if cs = [] then some [] else pieces? (Text.splitAt ':' cs)

/-- The eight pieces of a number. A gap stands for as many zeros as are missing. -/
def ofV6? (cs : List Char) : Option (List Nat) := do
  match splitGap cs with
  | none => (group? cs).filter (·.length = 8)
  | some (front, back) =>
    if front.contains '.' then none
    let front ← group? front
    let back ← group? back
    if front.length + back.length < 8 then
      return front ++ List.replicate (8 - front.length - back.length) 0 ++ back
    else none

/-- How many zeros pieces start with. -/
def zeros (pieces : List Nat) : Nat := (pieces.takeWhile (· = 0)).length

/-- Where the longest run of zeros begins, and how long it is; of two, the first. -/
def longestGap (pieces : List Nat) : Nat × Nat :=
  (List.range pieces.length).foldl (fun best i =>
    let n := zeros (pieces.drop i)
    if best.2 < n then (i, n) else best) (0, 0)

/-- A piece in hexadecimal digits. -/
def hexText (n : Nat) : String := String.ofList (Nat.toDigits 16 n)

/-- Eight pieces between colons, with a gap for the longest run of at least two zeros. -/
def textOfV6 (pieces : List Nat) : String :=
  let between (ps : List Nat) := ":".intercalate (ps.map hexText)
  let (start, length) := longestGap pieces
  if length < 2 then between pieces
  else between (pieces.take start) ++ "::" ++ between (pieces.drop (start + length))

/-! ## Names -/

/-- The characters that no name holds. -/
def isForbidden (c : Char) : Bool :=
  c.toNat ≤ 0x20 || c.toNat = 0x7F || "%#/:<>?@[\\]^|".toList.contains c

/-- A character as it counts in a name. Capitals are those of ASCII, of Latin-1, and the Greek
and Cyrillic ones; wide characters stand for those of ASCII, and the soft hyphen for nothing.

This is a part of the mapping for internationalized names only. Capitals of other scripts and
characters that the mapping composes, replaces by others, leaves out or refuses are kept as they
are, so that a host that is written with them is not the host that the mapping leads to. -/
def normalChar (c : Char) : List Char :=
  let n := c.toNat
  let within (a b : Nat) : Bool := a ≤ n && n ≤ b
  if n = 0xAD then []
  else if n = 0x3002 || n = 0xFF61 then ['.']
  else if within 0xFF01 0xFF5E then [(Char.ofNat (n - 0xFEE0)).toLower]
  else if (within 0xC0 0xDE && n ≠ 0xD7) || within 0x391 0x3A9 || within 0x410 0x42F then
    [Char.ofNat (n + 0x20)]
  else if within 0x400 0x40F then [Char.ofNat (n + 0x50)]
  else [c.toLower]

/-- A part of a name in ASCII. -/
def asciiPart (p : List Char) : List Char :=
  if p.all fun c => c.toNat < 128 then p else "xn--".toList ++ Text.Punycode.encode p

/-- A name in ASCII. -/
def asciiName (name : List Char) : List Char :=
  ['.'].intercalate ((Text.splitAt '.' name).map asciiPart)

/-- The host that a text without brackets stands for. -/
def ofName (text : String) : Except Problem Host :=
  match Component.decode? text with
  | none => .error .name
  | some decoded =>
    let cs := decoded.toList.flatMap normalChar
    if cs = [] then .error .empty
    else if cs.any isForbidden then .error .name
    else
      let ascii := asciiName cs
      if endsInNumber ascii then
        match ofParts? 4 (parts ascii) with
        | some n => .ok (.v4 n)
        | none => .error .v4
      else .ok (.name (String.ofList ascii))

/-- The host that a text stands for. -/
def read (text : List Char) : Except Problem Host :=
  match text with
  | '[' :: r =>
    if r.getLast? = some ']' then
      match ofV6? r.dropLast with
      | some ps => .ok (.v6 ps)
      | none => .error .v6
    else .error .v6
  | cs => ofName (String.ofList cs)

/-- The text of a host. -/
def text : Host → String
  | .name text => text
  | .v4 n => textOfV4 n
  | .v6 ps => "[" ++ textOfV6 ps ++ "]"

/-- Whether a host is known without asking for its number. -/
def isKnown : Host → Bool
  | .name text => text = "localhost"
  | _ => true

end Host

end PackageGate.Http
