/-!
# Words in ASCII

A word with characters outside ASCII is written in ASCII as its ASCII characters
followed by the others as numbers. The others are taken in rising order. Each
number says how many places are passed on the way to the next character, where
every place between the characters so far counts once for each code point. A
number is written in digits of growing weight; the weights are adapted to the
size of the numbers in front.

- `Punycode.digits`: a number as digits.
- `Punycode.adapt`: the bias of the weights behind a number.
- `Punycode.encode`: a word in ASCII.
-/

namespace PackageGate.Text.Punycode

/-- The digit of `n < 36`: a letter, and then a decimal digit. -/
def digit (n : Nat) : Char :=
  if n < 26 then Char.ofNat ('a'.toNat + n) else Char.ofNat ('0'.toNat + (n - 26))

/-- The number from which on a digit at the place `k` is followed by another one. -/
def threshold (bias k : Nat) : Nat := min 26 (max 1 (36 * (k + 1) - bias))

theorem threshold_pos (bias k : Nat) : 0 < threshold bias k := by
  unfold threshold; omega

/-- A number as digits, from the place `k` on. -/
def digits (bias k n : Nat) : List Char :=
  let t := threshold bias k
  if n < t then [digit n]
  else digit (t + (n - t) % (36 - t)) :: digits bias (k + 1) ((n - t) / (36 - t))
termination_by n
decreasing_by
  have : 0 < threshold bias k := threshold_pos bias k
  exact Nat.lt_of_le_of_lt (Nat.div_le_self _ _) (by omega)

/-- Divides by 35 until the number is at most 455; `k` counts the divisions. -/
def scale (n k : Nat) : Nat × Nat :=
  if 455 < n then scale (n / 35) (k + 1) else (n, k)
termination_by n
decreasing_by omega

/-- The bias behind the number `n`, which is followed by `count` characters in all. -/
def adapt (n count : Nat) (isFirst : Bool) : Nat :=
  let n := if isFirst then n / 700 else n / 2
  let (n, k) := scale (n + n / count) 0
  36 * k + 36 * n / (n + 38)

/-- A word that is being written. -/
structure Encoder where
  written : List Char
  /-- The places that have been passed since the last number. -/
  passed : Nat
  bias : Nat
  /-- How many characters are placed. -/
  count : Nat

/-- Passes a character of the word while those with the code point `n` are being placed. -/
def Encoder.pass (basic n : Nat) (e : Encoder) (c : Char) : Encoder :=
  if c.toNat < n then { e with passed := e.passed + 1 }
  else if c.toNat = n then
    { written := e.written ++ digits e.bias 0 e.passed
      passed := 0
      bias := adapt e.passed (e.count + 1) (e.count = basic)
      count := e.count + 1 }
  else e

/-- Places the characters with the code points `points`, all of which are at least `n`. -/
def Encoder.place (word : List Char) (basic : Nat) :
    (n : Nat) → (points : List Nat) → Encoder → Encoder
  | _, [], e => e
  | n, p :: points, e =>
    let e := { e with passed := e.passed + (p - n) * (e.count + 1) }
    let e := word.foldl (pass basic p) e
    place word basic (p + 1) points { e with passed := e.passed + 1 }

/-- A word in ASCII. -/
def encode (word : List Char) : List Char :=
  let basic := word.filter fun c => c.toNat < 128
  let points := ((word.map Char.toNat).filter (128 ≤ ·)).mergeSort.eraseReps
  let e := Encoder.place word basic.length 128 points ⟨[], 0, 72, basic.length⟩
  basic ++ (if basic = [] then [] else ['-']) ++ e.written

end PackageGate.Text.Punycode
