/-!
# Numbers in double precision

A number in double precision has 53 binary places, and none of a weight below
`2 ^ -1074`. Each has one form here, so equal numbers are equal terms; the two
zeros are one number.

- `quotientToEven`: the whole number next to a quotient, of two the even one.
- `Double.ofQuotient?`: the nearest number, unless that is too large for any.
- `Double.ofDecimal?`: the same for a decimal with an exponent.
-/

namespace PackageGate.Number

/-- The whole number next to `n / d`; halfway between two, the even one. -/
def quotientToEven (n d : Nat) : Nat :=
  let q := n / d
  let r := 2 * (n % d)
  if d < r || (r = d && q % 2 = 1) then q + 1 else q

/-- A number in double precision. -/
inductive Double
  | nan
  | infinite (isNegative : Bool)
  /-- The number `mantissa * 2 ^ exponent`, up to its sign. The exponent is as small as 53
  places allow, and never below `-1074`; zero has no sign. -/
  | finite (isNegative : Bool) (mantissa : Nat) (exponent : Int)
deriving DecidableEq, Inhabited

namespace Double

/-- Zero. -/
def zero : Double := .finite false 0 (-1074)

/-- The exponent of the leading binary place of `n / d`. -/
def leadingExponent (n d : Nat) : Int :=
  let e : Int := (n.log2 : Int) - d.log2
  if n <<< (-e).toNat < d <<< e.toNat then e - 1 else e

/-- The number nearest to `n / d`, for a positive `d`; nothing if that has an exponent too
large for its 53 places. -/
def ofQuotient? (isNegative : Bool) (n d : Nat) : Option Double :=
  let e := max (leadingExponent n d - 52) (-1074)
  let m := quotientToEven (n <<< (-e).toNat) (d <<< e.toNat)
  let (m, e) := if m = 1 <<< 53 then (1 <<< 52, e + 1) else (m, e)
  if m = 0 then some zero
  else if 971 < e then none
  else some (.finite isNegative m e)

/-- The number nearest to `n * 10 ^ e`, where `n` has at most `places` decimal places. Only
exponents that can matter are computed with. -/
def ofDecimal? (isNegative : Bool) (places n : Nat) (e : Int) : Option Double :=
  if n = 0 || (places : Int) + e < -330 then some zero
  else if 310 < e then none
  else ofQuotient? isNegative (n * Nat.pow 10 e.toNat) (Nat.pow 10 (-e).toNat)

end Double

end PackageGate.Number
