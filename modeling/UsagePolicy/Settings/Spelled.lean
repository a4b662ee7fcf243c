import UsagePolicy.Logging.Level
import UsagePolicy.Number.Numeral
import UsagePolicy.Payload.Issue

/-!
# Spelled settings

Settings are often given as texts. An integer may be spelled between blanks, after a plus sign and
zeros, with single underscores between its digits and with a fraction of zeros; a truth value is one
of twelve words in any case; the name of a level may be padded and in any case.
-/

namespace UsagePolicy

namespace Spelled

/-- The words for true. -/
def trueWords : List Text := ["1", "on", "t", "true", "y", "yes"]

/-- The words for false. -/
def falseWords : List Text := ["0", "off", "f", "false", "n", "no"]

/-- The text with the capitals of ASCII made small. -/
def smallLetters (t : Text) : Text :=
  t.map fun c => if 0x41 ≤ c.val ∧ c.val ≤ 0x5A then CodePoint.ofNat (c.val + 0x20) else c

/-- The truth value of a word. -/
def truth (t : Text) : Checked Bool :=
  if trueWords.contains (smallLetters t) then .ok true
  else if falseWords.contains (smallLetters t) then .ok false
  else .fail .unreadableBoolean

/-- How many digits an integer may be spelled with. -/
def digitLimit : Nat := Text.digitLimit

/-- A number with too many digits stands at the front of the text. -/
def startsOversized (t : Text) : Bool :=
  (Numeral.scan? t).any fun n => digitLimit < n.1.whole.length

/-- The integer that the whole text denotes as a numeral. -/
def numeral? (t : Text) : Option Int :=
  match Numeral.scan? t with
  | some (n, []) => if n.isInteger && n.whole.length ≤ digitLimit then some n.toInt else none
  | _ => none

/-- The text without a plus sign in front, after which no minus sign may come. -/
def dropPlus : Text → Option Text
  | 0x2B :: 0x2D :: _ => none
  | 0x2B :: t => some t
  | t => some t

/-- What counts after a zero, further zeros and underscores: the text from another digit or a minus
sign on, a point with the code point before it, or the last code point if nothing else comes. -/
def afterZeros (last : CodePoint) : Text → Option Text
  | [] => some [last]
  | c :: t =>
    if c = 0x30 ∨ c = 0x5F then afterZeros c t
    else if c.isDigit ∨ c = 0x2D then some (c :: t)
    else if c = 0x2E then some (last :: c :: t)
    else none

/-- The text without the zeros that are superfluous at its beginning. -/
def dropLeadingZeros : Text → Option Text
  | [] => none
  | c :: t =>
    if c = 0x30 then afterZeros c t
    else if c.isDigit ∨ c = 0x2D then some (c :: t)
    else none

/-- The text without a point and zeros after it at its end. -/
def dropZeroFraction (t : Text) : Text :=
  let (whole, fraction) := t.span (· ≠ 0x2E)
  match fraction with
  | _ :: c :: ds => if (c :: ds).all (· = 0x30) then whole else t
  | _ => t

/-- Two underscores stand next to each other. -/
def hasDoubleUnderscore : Text → Bool
  | 0x5F :: 0x5F :: _ => true
  | _ :: t => hasDoubleUnderscore t
  | [] => false

/-- The text without the underscores in it, of which none may stand at an end or next to another. -/
def dropUnderscores (t : Text) : Option Text :=
  if t.head? = some 0x5F ∨ t.getLast? = some 0x5F ∨ hasDoubleUnderscore t then none
  else some (t.filter (· ≠ 0x5F))

/-- The text without all that an integer may be spelled with beyond its numeral. -/
def bare? (t : Text) : Option Text := do
  let unsigned ← dropPlus (t.trimBoth CodePoint.isWhiteSpace)
  let significant ← dropLeadingZeros unsigned
  dropUnderscores (dropZeroFraction significant)

/-- The integer that a text spells. Too many digits are told apart only where the text begins with
them. -/
def integer (t : Text) : Checked Int :=
  if startsOversized t then .fail .oversizedInteger
  else match numeral? t <|> (bare? t).bind numeral? with
    | some i => .ok i
    | none => .fail .unreadableInteger

/-- The name of a level, brought to its usual form. -/
def level? (t : Text) : Option Text :=
  let name := t.strip.upper
  if (Level.ofName? name).isSome then some name else none

end Spelled

end UsagePolicy
