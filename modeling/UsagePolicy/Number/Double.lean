/-!
# Double precision numbers

A finite double is a sign, a significand below `2 ^ 53` and an exponent of two from `-1074` to
`971`; the significand reaches `2 ^ 52` unless the exponent is the least one. `Double.ofRatio`
rounds a quotient of natural numbers to the nearest double, a half to the even neighbour, and gives
an infinity beyond the greatest one. Comparison with integers and among doubles is exact.
-/

namespace UsagePolicy

namespace Double

/-- The least exponent of two. -/
def leastExponent : Int := -1074

/-- The greatest exponent of two. -/
def greatestExponent : Int := 971

/-- The least significand of a double whose exponent is not the least one, `2 ^ 52`. -/
def leastNormal : Nat := 0x10000000000000

/-- A significand and an exponent of a finite double. No other ones give the same magnitude. -/
def Proper (significand : Nat) (exponent : Int) : Prop :=
  significand < 2 * leastNormal ∧ leastExponent ≤ exponent ∧ exponent ≤ greatestExponent ∧
    (leastNormal ≤ significand ∨ exponent = leastExponent)

instance (significand : Nat) (exponent : Int) : Decidable (Proper significand exponent) :=
  inferInstanceAs (Decidable (_ ∧ _ ∧ _ ∧ _))

end Double

/-- A double precision number. -/
inductive Double
  | nan
  | infinite (negative : Bool)
  | finite (negative : Bool) (significand : Nat) (exponent : Int)
    (proper : Double.Proper significand exponent)
deriving DecidableEq, Repr

/-- The quotient rounded to the nearest natural number, a half to the even one. -/
def roundHalfEven (num den : Nat) : Nat :=
  let q := num / den
  let r := num % den
  if 2 * r < den then q
  else if den < 2 * r then q + 1
  else if q % 2 = 0 then q else q + 1

namespace Double

/-- Zero with a sign. -/
def zero (negative : Bool) : Double := .finite negative 0 leastExponent (by decide)

/-- `num / den` divided by a power of two, as a quotient of natural numbers. -/
def scaleDown (num den : Nat) (e : Int) : Nat × Nat :=
  match e with
  | .ofNat k => (num, den * Nat.pow 2 k)
  | .negSucc k => (num * Nat.pow 2 (k + 1), den)

/-- The double nearest to the quotient `num / den`, `den` not zero. What is rounded is proper unless
its exponent is too great. -/
def ofRatio (negative : Bool) (num den : Nat) : Double :=
  if num = 0 then zero negative
  else
    let guess : Int := (num.log2 : Int) - den.log2 - 52
    let (n, d) := scaleDown num den guess
    let e := max leastExponent (if n / d < leastNormal then guess - 1 else guess)
    let (n, d) := scaleDown num den e
    let q := roundHalfEven n d
    let (q, e) := if q = 2 * leastNormal then (leastNormal, e + 1) else (q, e)
    if h : Proper q e then .finite negative q e h else .infinite negative

/-- The double nearest to an integer. -/
def ofInt (i : Int) : Double := ofRatio (i < 0) i.natAbs 1

/-- The double nearest to `digits * 10 ^ exponent`, where `digits` has `width` decimal digits. -/
def ofDecimal (negative : Bool) (digits width : Nat) (exponent : Int) : Double :=
  if digits = 0 then zero negative
  else if 310 < (width : Int) + exponent then .infinite negative
  else if (width : Int) + exponent < -330 then zero negative
  else match exponent with
    | .ofNat k => ofRatio negative (digits * Nat.pow 10 k) 1
    | .negSucc k => ofRatio negative digits (Nat.pow 10 (k + 1))

/-- The magnitude of a finite double as a quotient of natural numbers. -/
def magnitude (significand : Nat) (exponent : Int) : Nat × Nat :=
  match exponent with
  | .ofNat k => (significand * Nat.pow 2 k, 1)
  | .negSucc k => (significand, Nat.pow 2 (k + 1))

/-- The sign bit is set. -/
def isNegative : Double → Bool
  | .nan => false
  | .infinite s => s
  | .finite s _ _ _ => s

/-- The double is zero of either sign. -/
def isZero : Double → Bool
  | .finite _ m _ _ => m == 0
  | _ => false

/-- The finite double as a numerator over a positive denominator. -/
def ratio? : Double → Option (Int × Nat)
  | .finite s m e _ =>
    let (n, d) := magnitude m e
    some (if s then -(n : Int) else n, d)
  | _ => none

/-- Numeric equality: zeros of both signs are equal, and a NaN equals nothing. -/
def numEq : Double → Double → Bool
  | .infinite a, .infinite b => a == b
  | a, b => match a.ratio?, b.ratio? with
    | some (n, d), some (n', d') => n * d' == n' * d
    | _, _ => false

/-- The double has exactly the value of the integer. -/
def eqInt (a : Double) (i : Int) : Bool :=
  match a.ratio? with
  | some (n, d) => n == i * d
  | none => false

/-- The integer nearest to the double on the side of zero. -/
def truncate? (a : Double) : Option Int :=
  match a with
  | .finite s m e _ =>
    let (n, d) := magnitude m e
    some (if s then -((n / d : Nat) : Int) else (n / d : Nat))
  | _ => none

end Double

end UsagePolicy
