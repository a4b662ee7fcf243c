import UsagePolicy.Text.Basic
import UsagePolicy.Number.Double

/-!
# Shortest decimal form

Among the decimal numbers that round to a given double, `Double.shortest` takes one with the fewest
digits, and of those the one nearest to the double. `Double.text` writes it positionally where the
decimal exponent is at least `-4` and below `16`, with an exponent elsewhere.
-/

namespace UsagePolicy

namespace Double

/-- `num / den` over a power of ten, as a quotient of natural numbers. -/
def overPowerOfTen (num den : Nat) (e : Int) : Nat × Nat :=
  match e with
  | .ofNat k => (num, den * Nat.pow 10 k)
  | .negSucc k => (num * Nat.pow 10 (k + 1), den)

/-- How many decimal digits a natural number has. -/
def digitCount (n : Nat) : Nat := (Text.decimal n).length

/-- The least `k` such that `num / den < 10 ^ k`, both not zero. -/
def decimalMagnitude (num den : Nat) : Int :=
  if den ≤ num then digitCount (num / den)
  else
    let c := digitCount (den / num)
    if num * Nat.pow 10 (c - 1) = den then 2 - (c : Int) else 1 - (c : Int)

/-- The reals that round to a double, and the double itself, over a common denominator. -/
structure Neighbourhood where
  low : Nat
  value : Nat
  high : Nat
  den : Nat
  closed : Bool

/-- The reals that round to `significand * 2 ^ exponent`. -/
def neighbourhood (significand : Nat) (exponent : Int) : Neighbourhood :=
  let below := if significand = leastNormal ∧ leastExponent < exponent then 1 else 2
  let (unit, den) := magnitude 1 (exponent - 2)
  ⟨(4 * significand - below) * unit, 4 * significand * unit, (4 * significand + 2) * unit, den,
    significand % 2 == 0⟩

/-- The decimal `digits * 10 ^ exponent` lies in the neighbourhood. -/
def Neighbourhood.holds (b : Neighbourhood) (digits : Nat) (exponent : Int) : Bool :=
  let (low, den) := overPowerOfTen b.low b.den exponent
  let (high, _) := overPowerOfTen b.high b.den exponent
  if b.closed then low ≤ digits * den && digits * den ≤ high
  else low < digits * den && digits * den < high

/-- The member of the grid of multiples of `10 ^ exponent` that lies in the neighbourhood and is
nearest to the value; of two equally near ones the even one. -/
def Neighbourhood.nearest? (b : Neighbourhood) (exponent : Int) : Option Nat :=
  let (num, den) := overPowerOfTen b.value b.den exponent
  let below := num / den
  match b.holds below exponent, b.holds (below + 1) exponent with
  | true, true =>
    let twice := 2 * (num % den)
    some (if twice < den then below else if den < twice then below + 1
      else if below % 2 = 0 then below else below + 1)
  | true, false => some below
  | false, true => some (below + 1)
  | false, false => none

/-- Digits and exponent of ten of the shortest decimal that rounds to a positive finite double. -/
def shortest (significand : Nat) (exponent : Int) : Nat × Int :=
  let b := neighbourhood significand exponent
  let k := decimalMagnitude b.value b.den
  let found := (List.range 17).findSome? fun n =>
    let e := k - (n + 1 : Nat)
    (b.nearest? e).map fun d => (d, e)
  found.getD (significand, 0)

/-- Digits and exponent of ten without zeros at the end of the digits. -/
def dropTrailingZeros : (fuel : Nat) → Nat → Int → Nat × Int
  | 0, d, e => (d, e)
  | f + 1, d, e => if d ≠ 0 ∧ d % 10 = 0 then dropTrailingZeros f (d / 10) (e + 1) else (d, e)

/-- The digits of the shortest decimal, and the place of the decimal point among them. -/
def shortestDigits (significand : Nat) (exponent : Int) : Text × Int :=
  let (d, e) := shortest significand exponent
  let (d, e) := dropTrailingZeros 20 d e
  let ds := Text.decimal d
  (ds, ds.length + e)

/-- A decimal exponent, its sign always written and at least two digits. -/
def exponentText (e : Int) : Text :=
  (if e < 0 then 0x2D else 0x2B) :: Text.padLeft 0x30 2 (Text.decimal e.natAbs)

/-- Digits with the decimal point after the first `point` of them. -/
def positional (digits : Text) (point : Int) : Text :=
  match point with
  | .ofNat 0 => "0." ++ digits
  | .ofNat k =>
    if digits.length ≤ k then digits ++ List.replicate (k - digits.length) 0x30 ++ (".0" : Text)
    else digits.take k ++ 0x2E :: digits.drop k
  | .negSucc k => ("0." : Text) ++ List.replicate (k + 1) 0x30 ++ digits

/-- Digits with one of them before the decimal point, and the exponent of ten. -/
def scientific (digits : Text) (point : Int) : Text :=
  match digits with
  | [] => []
  | [d] => d :: 0x65 :: exponentText (point - 1)
  | d :: ds => d :: 0x2E :: ds ++ 0x65 :: exponentText (point - 1)

/-- The spellings of the numbers that have no digits. -/
structure Spelling where
  nan : Text
  infinity : Text

/-- The shortest decimal form of a double. -/
def write (s : Spelling) : Double → Text
  | .nan => s.nan
  | .infinite neg => (if neg then ("-" : Text) else []) ++ s.infinity
  | .finite neg m e _ =>
    (if neg then ("-" : Text) else []) ++
      (if m = 0 then ("0.0" : Text)
      else
        let (ds, point) := shortestDigits m e
        if -4 < point ∧ point ≤ 16 then positional ds point else scientific ds point)

/-- The double as a literal is rendered. -/
def text (d : Double) : Text := write ⟨"nan", "inf"⟩ d

end Double

end UsagePolicy
