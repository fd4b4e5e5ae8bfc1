import PackageGate.Number.Double
import PackageGate.Yaml.Node

/-!
# Values of YAML nodes

- `unsigned?`: a plain scalar as a count: decimal without padding, or in base
  16, 8 or 2 behind `0x`, `0o` or `0b`.
- `float?`: a plain scalar as a number that need not be whole.
- `Value.isSame`: whether two values are one key of a mapping.
- `Document.follow`: the node behind a reference. References can make a document
  unfold to any size, so every one is paid for from a budget.
- `Value.read`: a node with everything in it as a value; nothing if it is nested
  too deeply, unfolds to too much or repeats a key.
-/

namespace PackageGate.Yaml

/-! ## Plain scalars -/

/-- The number that digits write in the base `base`. -/
def digitsValue? (base : Nat) (digits : List Char) : Option Nat :=
  if digits = [] then none
  else digits.foldlM (fun n d => do
    let value ← hexDigit? d
    if value < base then return base * n + value else none) 0
where
  /-- The value of a digit. -/
  hexDigit? (c : Char) : Option Nat :=
    if '0' ≤ c ∧ c ≤ '9' then some (c.toNat - '0'.toNat)
    else if 'a' ≤ c ∧ c ≤ 'f' then some (c.toNat - 'a'.toNat + 10)
    else if 'A' ≤ c ∧ c ≤ 'F' then some (c.toNat - 'A'.toNat + 10)
    else none

/-- Whether a decimal number has a zero in front that does not count. -/
def isPadded (digits : List Char) : Bool :=
  1 < digits.length && digits.head? = some '0' && digits.all Char.isDigit

/-- The number that is written without a sign. -/
def magnitude? : List Char → Option Nat
  | '0' :: 'x' :: r => digitsValue? 16 r
  | '0' :: 'o' :: r => digitsValue? 8 r
  | '0' :: 'b' :: r => digitsValue? 2 r
  | cs => if isPadded cs then none else digitsValue? 10 cs

/-- A count below `bound`; a plus sign may stand in front. -/
def unsigned? (bound : Nat) (text : String) : Option Nat :=
  let n := match text.toList with
    | '+' :: r => magnitude? r
    | cs => magnitude? cs
  n.filter (· < bound)

/-- The magnitude of a negative number, at most `bound`. -/
def negative? (bound : Nat) (text : String) : Option Nat :=
  let n := match text.toList with
    | '-' :: r => magnitude? r
    | _ => none
  n.filter (· ≤ bound)

/-- The texts of plain scalars that stand for nothing. -/
def isNull (text : String) : Bool :=
  ["~", "null", "Null", "NULL"].contains text

/-- The truth value that a plain scalar stands for. -/
def truth? (text : String) : Option Bool :=
  if ["true", "True", "TRUE"].contains text then some true
  else if ["false", "False", "FALSE"].contains text then some false
  else none

/-- Whether a sign may be followed by the digits of a number with zeros in front. -/
def isPaddedSigned (text : String) : Bool :=
  match text.toList with
  | '+' :: r => isPadded r
  | '-' :: r => isPadded r
  | cs => isPadded cs

/-- The number that decimal digits write. -/
def decimalValue (digits : List Char) : Nat :=
  digits.foldl (fun n d => 10 * n + (d.toNat - '0'.toNat)) 0

/-- The exponent at the end of a decimal; without one it is zero. -/
def exponent? : List Char → Option Int
  | [] => some 0
  | e :: r =>
    let (isNegative, digits) := match r with
      | '+' :: r => (false, r)
      | '-' :: r => (true, r)
      | r => (false, r)
    if (e = 'e' || e = 'E') && digits ≠ [] && digits.all Char.isDigit then
      let n : Int := decimalValue digits
      some (if isNegative then -n else n)
    else none

/-- The number that digits with at most one point write, possibly with an exponent; nothing
if it is too large. -/
def decimal? (isNegative : Bool) (cs : List Char) : Option Number.Double := do
  let whole := cs.takeWhile Char.isDigit
  let r := cs.dropWhile Char.isDigit
  let (fraction, r) := match r with
    | '.' :: r => (r.takeWhile Char.isDigit, r.dropWhile Char.isDigit)
    | r => ([], r)
  let digits := whole ++ fraction
  if digits = [] then none
  let e ← exponent? r
  Number.Double.ofDecimal? isNegative digits.length (decimalValue digits) (e - fraction.length)

/-- The number of a plain scalar that need not be whole. -/
def float? (text : String) : Option Number.Double :=
  let isInfinite (cs : List Char) : Bool := [".inf", ".Inf", ".INF"].contains (String.ofList cs)
  if [".nan", ".NaN", ".NAN"].contains text then some .nan
  else match text.toList with
    | '-' :: r => if isInfinite r then some (.infinite true) else decimal? true r
    | '+' :: '-' :: _ => none
    | '+' :: r => if isInfinite r then some (.infinite false) else decimal? false r
    | cs => if isInfinite cs then some (.infinite false) else decimal? false cs

/-! ## Values -/

/-- A value without tags and references. -/
inductive Value
  | null
  | bool (b : Bool)
  | integer (n : Int)
  | float (x : Number.Double)
  | text (s : String)
  | sequence (items : List Value)
  | mapping (entries : List (Value × Value))
deriving Inhabited

namespace Value

/-- The whole number that a scalar writes, if it writes one; refused if that is too large
for 64 bits and yet fits 128. -/
def integer? (text : String) : Option (Option Int) :=
  match unsigned? (1 <<< 64) text, negative? (1 <<< 63) text with
  | some n, _ => some (some n)
  | none, some n => some (some (-n))
  | none, none =>
    if (unsigned? (1 <<< 128) text).isSome || (negative? (1 <<< 127) text).isSome then none
    else some none

/-- The value of a plain scalar without a tag. -/
def ofPlain (text : String) : Option Value :=
  if text.isEmpty || isNull text then some .null
  else
    match truth? text with
    | some b => some (.bool b)
    | none => do
      match ← integer? text with
      | some n => return .integer n
      | none =>
        match if isPaddedSigned text then none else float? text with
        | some x => return .float x
        | none => return .text text

/-- Whether a tag starts with an exclamation mark. -/
def isMarked (tag : Tag) : Bool := tag.head? = some '!'.toUInt8

/-- Whether a tag is of a document's own making: marked, and a text. -/
def isLocal (tag : Tag) : Bool :=
  isMarked tag && (String.fromUTF8? ⟨tag.toArray⟩).isSome

/-- The value of a scalar. -/
def ofScalar (tag : Option Tag) (style : Style) (text : String) : Option Value :=
  match tag with
  | none => if style = .plain then ofPlain text else some (.text text)
  | some tag =>
    if isLocal tag then none
    else if tag = coreTag "bool" then (truth? text).map .bool
    else if tag = coreTag "int" then do return .integer (← ← integer? text)
    else if tag = coreTag "float" then (float? text).map .float
    else if tag = coreTag "null" then if isNull text then some .null else none
    else if isMarked tag && style = .plain then ofPlain text
    else some (.text text)

/-- The number of lists of items and of entries that are nested in a value. -/
def depth : Value → Nat
  | .sequence items => depths items + 1
  | .mapping entries => entryDepths entries + 1
  | _ => 0
where
  /-- The depth of the deepest item. -/
  depths : List Value → Nat
    | [] => 0
    | v :: r => max v.depth (depths r)
  /-- The depth of the deepest entry. -/
  entryDepths : List (Value × Value) → Nat
    | [] => 0
    | (k, v) :: r => max (max k.depth v.depth) (entryDepths r)

/-- Whether two values of at most the depth `depth` are one key. The order of a mapping's
entries does not matter, and a whole number is never one that need not be whole. -/
def isSameTo : (depth : Nat) → Value → Value → Bool
  | _, .null, .null => true
  | _, .bool a, .bool b => a = b
  | _, .integer a, .integer b => a = b
  | _, .float a, .float b => a = b
  | _, .text a, .text b => a = b
  | depth + 1, .sequence a, .sequence b =>
    a.length = b.length && (a.zip b).all fun (v, w) => isSameTo depth v w
  | depth + 1, .mapping a, .mapping b =>
    a.length = b.length && a.all fun (k, v) =>
      b.any fun (l, w) => isSameTo depth k l && isSameTo depth v w
  | _, _, _ => false

/-- Whether two values are one key of a mapping. -/
def isSame (v w : Value) : Bool := isSameTo v.depth v w

/-- Whether some value occurs twice. -/
def hasRepeated : List Value → Bool
  | [] => false
  | v :: r => r.any v.isSame || hasRepeated r

end Value

/-- How many marks a node has in a document: one for a scalar or a reference, two around a
collection. -/
def Node.size : Node → Nat
  | .scalar _ _ _ => 1
  | .sequence _ items => 2 + sizes items
  | .mapping _ entries => 2 + entrySizes entries
  | .reference _ => 1
where
  /-- The marks of all items. -/
  sizes : List Node → Nat
    | [] => 0
    | item :: r => item.size + sizes r
  /-- The marks of all entries. -/
  entrySizes : List (Node × Node) → Nat
    | [] => 0
    | (key, value) :: r => key.size + value.size + entrySizes r

namespace Document

/-- How many references a document may follow. -/
def budget (d : Document) : Nat := 100 * d.root.size

/-- The node behind a reference, and what is left of the budget. -/
def follow (d : Document) (budget : Nat) : Node → Option (Node × Nat)
  | .reference n =>
    match budget with
    | 0 => none
    | budget + 1 => (d.anchored.lookup n).map (·, budget)
  | node => some (node, budget)

/-- The value of a node whose collections are nested at most `depth` times, and what is left
of the budget. -/
def value? (d : Document) (depth budget : Nat) (node : Node) : Option (Value × Nat) :=
  match depth with
  | 0 => do
    let (node, budget) ← d.follow budget node
    match node with
    | .scalar tag style text => return (← Value.ofScalar tag style text, budget)
    | _ => none
  | depth + 1 => do
    let (node, budget) ← d.follow budget node
    match node with
    | .scalar tag style text => return (← Value.ofScalar tag style text, budget)
    | .sequence tag items =>
      if tag.any Value.isLocal then none
      let (values, budget) ← items.foldlM
        (fun (values, budget) item => do
          let (v, budget) ← d.value? depth budget item
          return (v :: values, budget))
        ([], budget)
      return (.sequence values.reverse, budget)
    | .mapping tag entries =>
      if tag.any Value.isLocal then none
      let (values, budget) ← entries.foldlM
        (fun (values, budget) (key, value) => do
          let (k, budget) ← d.value? depth budget key
          let (v, budget) ← d.value? depth budget value
          return ((k, v) :: values, budget))
        ([], budget)
      if Value.hasRepeated (values.map (·.1)) then none
      return (.mapping values.reverse, budget)
    | .reference _ => none

end Document

end PackageGate.Yaml
