import UsagePolicy.Number.Shortest

/-!
# Rounded decimal forms

A double written with a given number of digits: after the point (`Double.fixed`), after the first
digit and with an exponent (`Double.scaled`), or altogether (`Double.significant`), where small and
great exponents are written and zeros at the end are dropped on request. The value is rounded
exactly, a half to the even neighbour.
-/

namespace UsagePolicy

namespace Double

/-- Digits with a point before the last `places` of them; a point at the end on request. -/
def withPoint (places : Nat) (keepPoint : Bool) (digits : Text) : Text :=
  let digits := Text.padLeft 0x30 (places + 1) digits
  let (whole, fraction) := digits.splitAt (digits.length - places)
  if fraction.isEmpty && !keepPoint then whole else whole ++ 0x2E :: fraction

/-- The number `num / den` with `places` digits after the point. -/
def fixed (places : Nat) (keepPoint : Bool) (num den : Nat) : Text :=
  withPoint places keepPoint (Text.decimal (roundHalfEven (num * Nat.pow 10 places) den))

/-- The first `places + 1` digits of `num / den`, rounded, and the exponent of the first one. -/
def leadingDigits (places num den : Nat) : Nat × Int :=
  if num = 0 then (0, 0)
  else
    let e := decimalMagnitude num den - 1
    let (n, d) := overPowerOfTen num den (e - places)
    let q := roundHalfEven n d
    if q = Nat.pow 10 (places + 1) then (Nat.pow 10 places, e + 1) else (q, e)

/-- The number `num / den` with one digit before the point, `places` after it and an exponent. -/
def scaled (places : Nat) (keepPoint : Bool) (num den : Nat) : Text :=
  let (digits, e) := leadingDigits places num den
  withPoint places keepPoint (Text.decimal digits) ++ 0x65 :: exponentText e

/-- Digits without zeros at the end of those after the point, and without a point at the end. -/
def dropZerosAfterPoint (t : Text) : Text :=
  let (whole, fraction) := t.span (· ≠ 0x2E)
  match fraction with
  | [] => whole
  | point :: digits =>
    match (digits.reverse.dropWhile (· = 0x30)).reverse with
    | [] => whole
    | ds => whole ++ point :: ds

/-- The number `num / den` with `count` significant digits, positional if its exponent is at least
`-4` and below `count`. -/
def significant (count : Nat) (keepZeros : Bool) (num den : Nat) : Text :=
  let count := max count 1
  let (digits, e) := leadingDigits (count - 1) num den
  let trim (t : Text) : Text := if keepZeros then t else dropZerosAfterPoint t
  if -4 ≤ e ∧ e < count then
    trim (withPoint (count - 1 - e).toNat keepZeros (Text.decimal digits))
  else
    trim (withPoint (count - 1) keepZeros (Text.decimal digits)) ++ 0x65 :: exponentText e

end Double

end UsagePolicy
