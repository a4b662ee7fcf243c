import UsagePolicy.Number.Numeral
import UsagePolicy.Text.Case

/-!
# Reading doubles

`Double.ofText?` reads a decimal number with an optional sign, point and exponent, at least one
digit on one side of the point, or one of the words for infinity and not-a-number in any case.
-/

namespace UsagePolicy

namespace Double

/-- A number without its sign. -/
def ofUnsigned? (negative : Bool) (t : Text) : Option Double :=
  let word := t.lower
  if word = Text.ofString "inf" ∨ word = Text.ofString "infinity" then some (.infinite negative)
  else if word = Text.ofString "nan" then some .nan
  else
    let whole := t.takeWhile CodePoint.isDigit
    let rest := t.dropWhile CodePoint.isDigit
    let (fraction, rest) := match rest with
      | 0x2E :: r => (r.takeWhile CodePoint.isDigit, r.dropWhile CodePoint.isDigit)
      | r => ([], r)
    if whole.isEmpty && fraction.isEmpty then none
    else match Numeral.scanExponent rest with
      | (e, []) => some (Numeral.toDouble ⟨negative, whole, fraction, e⟩)
      | _ => none

/-- The double nearest to the number that a text denotes. -/
def ofText? (t : Text) : Option Double :=
  match t.strip with
  | 0x2D :: r => ofUnsigned? true r
  | 0x2B :: r => ofUnsigned? false r
  | r => ofUnsigned? false r

end Double

end UsagePolicy
