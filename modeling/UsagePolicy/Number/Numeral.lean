import UsagePolicy.Text.Basic
import UsagePolicy.Number.Double

/-!
# Numerals

`Numeral.scan?` cuts a number of the JSON grammar off the front of a text: an optional minus sign,
a whole part without superfluous zeros, and optionally a fraction and an exponent, each with at
least one digit. Without fraction and exponent it denotes an integer, with either the nearest
double.
-/

namespace UsagePolicy

/-- A number as it is written: sign, digits before and after the point, and the exponent. -/
structure Numeral where
  negative : Bool
  whole : Text
  fraction : Text
  exponent : Option Int

namespace Numeral

/-- The number is written without fraction and exponent. -/
def isInteger (n : Numeral) : Bool := n.fraction.isEmpty && n.exponent.isNone

/-- The integer that the sign and the whole part denote. -/
def toInt (n : Numeral) : Int :=
  if n.negative then -(Text.digitsValue n.whole : Int) else Text.digitsValue n.whole

/-- The double nearest to the number. -/
def toDouble (n : Numeral) : Double :=
  let digits := (n.whole ++ n.fraction).dropWhile (· == 0x30)
  Double.ofDecimal n.negative (Text.digitsValue digits) digits.length
    (n.exponent.getD 0 - n.fraction.length)

/-- Digits after a point. A point without a digit is left where it is. -/
def scanFraction : Text → Text × Text
  | [] => ([], [])
  | c :: r =>
    if c = 0x2E then
      match r.takeWhile CodePoint.isDigit with
      | [] => ([], c :: r)
      | d :: ds => (d :: ds, r.dropWhile CodePoint.isDigit)
    else ([], c :: r)

/-- The sign of an exponent, true for a minus. -/
def scanSign : Text → Bool × Text
  | [] => (false, [])
  | c :: r => if c = 0x2D then (true, r) else if c = 0x2B then (false, r) else (false, c :: r)

/-- An exponent. A letter e without a digit is left where it is. -/
def scanExponent : Text → Option Int × Text
  | [] => (none, [])
  | c :: r =>
    if c = 0x65 ∨ c = 0x45 then
      match (scanSign r).2.takeWhile CodePoint.isDigit with
      | [] => (none, c :: r)
      | d :: ds =>
        let value : Int := Text.digitsValue (d :: ds)
        (some (if (scanSign r).1 then -value else value),
          (scanSign r).2.dropWhile CodePoint.isDigit)
    else (none, c :: r)

/-- The digits before the point: a zero, or digits that do not start with one. -/
def scanWhole : Text → Text × Text
  | [] => ([], [])
  | c :: r =>
    if c = 0x30 then ([c], r)
    else ((c :: r).takeWhile CodePoint.isDigit, (c :: r).dropWhile CodePoint.isDigit)

/-- The number after its sign. -/
def scanUnsigned? (negative : Bool) (t : Text) : Option (Numeral × Text) :=
  match scanWhole t with
  | ([], _) => none
  | (w :: ws, r) =>
    let (fraction, r) := scanFraction r
    let (exponent, r) := scanExponent r
    some (⟨negative, w :: ws, fraction, exponent⟩, r)

/-- The longest number at the front of a text, and what follows it. -/
def scan? : Text → Option (Numeral × Text)
  | [] => none
  | c :: r => if c = 0x2D then scanUnsigned? true r else scanUnsigned? false (c :: r)

theorem length_scanFraction_le (t : Text) : (scanFraction t).2.length ≤ t.length := by
  unfold scanFraction
  split
  · simp
  · next c r =>
    split
    · split
      · simp
      · have := (List.dropWhile_suffix CodePoint.isDigit (l := r)).length_le
        simp only [List.length_cons]
        omega
    · simp

theorem length_scanSign_le (t : Text) : (scanSign t).2.length ≤ t.length := by
  unfold scanSign
  split
  · simp
  · split
    · simp
    · split <;> simp

theorem length_scanExponent_le (t : Text) : (scanExponent t).2.length ≤ t.length := by
  unfold scanExponent
  split
  · simp
  · next c r =>
    split
    · split
      · simp
      · have := (List.dropWhile_suffix CodePoint.isDigit (l := (scanSign r).2)).length_le
        have := length_scanSign_le r
        simp only [List.length_cons]
        omega
    · simp

theorem length_scanWhole_lt {t r : Text} {w : CodePoint} {ws : Text}
    (h : scanWhole t = (w :: ws, r)) : r.length < t.length := by
  unfold scanWhole at h
  split at h
  · simp at h
  · next c s =>
    split at h
    · simp only [Prod.mk.injEq] at h
      simp [h.2]
    · simp only [Prod.mk.injEq] at h
      have h' := congrArg List.length (List.takeWhile_append_dropWhile (p := CodePoint.isDigit)
        (l := c :: s))
      rw [h.1, h.2] at h'
      simp only [List.length_append, List.length_cons] at h' ⊢
      omega

theorem length_scanUnsigned?_lt {negative : Bool} {t r : Text} {n : Numeral}
    (h : scanUnsigned? negative t = some (n, r)) : r.length < t.length := by
  unfold scanUnsigned? at h
  split at h
  · simp at h
  · next w ws r' hw =>
    have h₁ := length_scanWhole_lt hw
    have h₂ := length_scanFraction_le r'
    have h₃ := length_scanExponent_le (scanFraction r').2
    simp only [Option.some.injEq, Prod.mk.injEq] at h
    rw [← h.2]
    omega

/-- A number takes at least one code point. -/
theorem length_scan?_lt {t r : Text} {n : Numeral} (h : scan? t = some (n, r)) :
    r.length < t.length := by
  unfold scan? at h
  split at h
  · simp at h
  · next c s =>
    split at h
    · have := length_scanUnsigned?_lt h
      simp only [List.length_cons]
      omega
    · exact length_scanUnsigned?_lt h

end Numeral

end UsagePolicy
