import UsagePolicy.Text.Basic

/-!
# Blanks and letter case

Names that are compared after trimming and a change of case are ASCII names. `Text.upper` and
`Text.lower` change a text so far as its letters have ASCII counterparts, those outside ASCII
included (dotless i, long s, sharp s, the Latin ligatures, the Kelvin sign); every other code point
stays as it is and so never makes an ASCII name.
-/

namespace UsagePolicy

namespace CodePoint

/-- The code points that trimming takes away. -/
def isBlank (c : CodePoint) : Bool :=
  (0x09 ≤ c.val && c.val ≤ 0x0D) || (0x1C ≤ c.val && c.val ≤ 0x20) || c == 0x85 || c == 0xA0
    || c == 0x1680 || (0x2000 ≤ c.val && c.val ≤ 0x200A) || c == 0x2028 || c == 0x2029
    || c == 0x202F || c == 0x205F || c == 0x3000

/-- The blanks without the four information separators. -/
def isWhiteSpace (c : CodePoint) : Bool := c.isBlank && !(0x1C ≤ c.val && c.val ≤ 0x1F)

/-- The letters outside ASCII whose capital form is written in ASCII. -/
def asciiCapitals : List (CodePoint × Text) :=
  [(0xDF, "SS"), (0x131, "I"), (0x17F, "S"), (0xFB00, "FF"), (0xFB01, "FI"), (0xFB02, "FL"),
    (0xFB03, "FFI"), (0xFB04, "FFL"), (0xFB05, "ST"), (0xFB06, "ST")]

/-- The capital form of a code point. -/
def upper (c : CodePoint) : Text :=
  if 0x61 ≤ c.val ∧ c.val ≤ 0x7A then [ofNat (c.val - 0x20)]
  else (asciiCapitals.lookup c).getD [c]

/-- The small form of a code point. -/
def lower (c : CodePoint) : CodePoint :=
  if 0x41 ≤ c.val ∧ c.val ≤ 0x5A then ofNat (c.val + 0x20)
  else if c = 0x212A then 0x6B
  else c

end CodePoint

namespace Text

/-- Every letter in its capital form. -/
def upper (t : Text) : Text := t.flatMap CodePoint.upper

/-- Every letter in its small form. -/
def lower (t : Text) : Text := t.map CodePoint.lower

/-- The text without the code points of a class at its two ends. -/
def trimBoth (p : CodePoint → Bool) (t : Text) : Text :=
  ((t.dropWhile p).reverse.dropWhile p).reverse

/-- The text without the blanks at its two ends. -/
def strip (t : Text) : Text := t.trimBoth CodePoint.isBlank

end Text

end UsagePolicy
