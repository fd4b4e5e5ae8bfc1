/-!
# Path components of request URLs

Names, versions and ids come from outside and become segments of a request's
path. Two steps keep a request at its endpoint: a component with a separator, a
`..` or a query or fragment mark is refused, and what remains is
percent-encoded.

- `Component.problem?`: the refusals, in the order in which they are reported.
- `Component.encode`: UTF-8 percent-encoding of all but the unreserved characters.
- `Component.decode?`: reads an encoded component back.
-/

namespace PackageGate.Http

namespace Component

/-- Why a text must not become a path component. -/
inductive Problem
  | empty
  | separator
  | parentSegment
  | reserved
deriving DecidableEq

/-- The text of a refused component; `label` names what the component is. -/
def Problem.message (label : String) : Problem → String
  | .empty => s!"{label} must not be empty"
  | .separator => s!"Security: {label} contains path separators which are not allowed"
  | .parentSegment => s!"Security: {label} contains '..' which is not allowed"
  | .reserved => s!"Security: {label} contains URL-unsafe characters"

/-- Whether two points follow each other in `cs`. -/
def hasDoublePoint : List Char → Bool
  | '.' :: '.' :: _ => true
  | _ :: r => hasDoublePoint r
  | [] => false

/-- The first reason to refuse `component`. -/
def problem? (component : String) : Option Problem :=
  let cs := component.toList
  if cs = [] then some .empty
  else if cs.contains '/' || cs.contains '\\' then some .separator
  else if hasDoublePoint cs then some .parentSegment
  else if cs.contains '#' || cs.contains '?' then some .reserved
  else none

/-- The characters that stand for themselves in an encoded component. -/
def isUnreserved (c : Char) : Bool :=
  c.isAlphanum || c = '-' || c = '_' || c = '.' || c = '~'

/-- The upper-case hexadecimal digit of `n < 16`. -/
def hexDigit (n : Nat) : Char :=
  if n < 10 then Char.ofNat ('0'.toNat + n) else Char.ofNat ('A'.toNat + (n - 10))

/-- A byte as `%XY`. -/
def encodeByte (b : UInt8) : List Char :=
  ['%', hexDigit (b.toNat / 16), hexDigit (b.toNat % 16)]

/-- A character of an encoded component. -/
def encodeChar (c : Char) : List Char :=
  if isUnreserved c then [c]
  else (String.singleton c).toUTF8.toList.flatMap encodeByte

/-- A component as it stands in a path. -/
def encode (component : String) : String :=
  String.ofList (component.toList.flatMap encodeChar)

/-- The value of a hexadecimal digit of an encoded byte. -/
def digitValue? (c : Char) : Option Nat :=
  if '0' ≤ c ∧ c ≤ '9' then some (c.toNat - '0'.toNat)
  else if 'A' ≤ c ∧ c ≤ 'F' then some (c.toNat - 'A'.toNat + 10)
  else if 'a' ≤ c ∧ c ≤ 'f' then some (c.toNat - 'a'.toNat + 10)
  else none

/-- The bytes that an encoded component stands for. -/
def decodeBytes : List Char → Option (List UInt8)
  | [] => some []
  | '%' :: a :: b :: r => do
    let high ← digitValue? a
    let low ← digitValue? b
    return UInt8.ofNat (high * 16 + low) :: (← decodeBytes r)
  | '%' :: _ => none
  | c :: r => do return (String.singleton c).toUTF8.toList ++ (← decodeBytes r)

/-- The text that an encoded component stands for. -/
def decode? (encoded : String) : Option String := do
  String.fromUTF8? (ByteArray.mk (← decodeBytes encoded.toList).toArray)

end Component

end PackageGate.Http
