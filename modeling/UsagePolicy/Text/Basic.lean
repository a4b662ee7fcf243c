/-!
# Texts

A text is a list of code points. The code points of the surrogate range are allowed to stand in it,
alone or in any order, since documents may carry them; a text that holds none of them is the list
of characters of an ordinary string. Order and equality are those of lists of numbers, so texts
sort by code point.
-/

namespace UsagePolicy

/-- A number below `0x110000`; the surrogates `0xD800` to `0xDFFF` are included. -/
abbrev CodePoint := Fin 0x110000

/-- A list of code points. -/
abbrev Text := List CodePoint

namespace CodePoint

/-- There are code points, so numerals denote them. -/
instance : @NeZero Nat Zero.ofOfNat0 0x110000 := ⟨by decide⟩

/-- The code point of a character. -/
def ofChar (c : Char) : CodePoint :=
  ⟨c.toNat, by
    have h := c.valid
    simp only [UInt32.isValidChar, Nat.isValidChar] at h
    show c.val.toNat < _
    omega⟩

instance : Coe Char CodePoint := ⟨ofChar⟩

/-- The code point of a number, the replacement character for a number that is none. -/
def ofNat (n : Nat) : CodePoint :=
  if h : n < 0x110000 then ⟨n, h⟩ else 0xFFFD

/-- The first half of a surrogate pair. -/
def isHighSurrogate (c : CodePoint) : Bool := 0xD800 ≤ c.val && c.val ≤ 0xDBFF

/-- The second half of a surrogate pair. -/
def isLowSurrogate (c : CodePoint) : Bool := 0xDC00 ≤ c.val && c.val ≤ 0xDFFF

/-- Either half of a surrogate pair. -/
def isSurrogate (c : CodePoint) : Bool := 0xD800 ≤ c.val && c.val ≤ 0xDFFF

/-- The code point beyond `0xFFFF` that a surrogate pair stands for. -/
def ofSurrogates (high low : CodePoint) : CodePoint :=
  ofNat (0x10000 + (high.val - 0xD800) * 0x400 + (low.val - 0xDC00))

/-- One of the ten ASCII digits. -/
def isDigit (c : CodePoint) : Bool := 0x30 ≤ c.val && c.val ≤ 0x39

/-- The value of an ASCII digit. -/
def digitValue (c : CodePoint) : Nat := c.val - 0x30

/-- The ASCII digit of a number below ten. -/
def ofDigit (n : Nat) : CodePoint := ofNat (0x30 + n % 10)

/-- The value of a hexadecimal digit in either case. -/
def hexValue? (c : CodePoint) : Option Nat :=
  if 0x30 ≤ c.val ∧ c.val ≤ 0x39 then some (c.val - 0x30)
  else if 0x41 ≤ c.val ∧ c.val ≤ 0x46 then some (c.val - 0x41 + 10)
  else if 0x61 ≤ c.val ∧ c.val ≤ 0x66 then some (c.val - 0x61 + 10)
  else none

/-- The small hexadecimal digit of a number below sixteen. -/
def ofHexDigit (n : Nat) : CodePoint :=
  if n % 16 < 10 then ofNat (0x30 + n % 16) else ofNat (0x61 + (n % 16 - 10))

end CodePoint

namespace Text

/-- The code points of a string. -/
def ofString (s : String) : Text := s.toList.map CodePoint.ofChar

instance : Coe String Text := ⟨ofString⟩

/-- The string of a text, the replacement character in place of each lone surrogate. -/
def toString (t : Text) : String :=
  String.ofList (t.map fun c => if c.isSurrogate then Char.ofNat 0xFFFD else Char.ofNat c.val)

/-- No code point of the text is a surrogate. -/
def isScalar (t : Text) : Bool := t.all fun c => !c.isSurrogate

/-- The text with three replacement characters in place of each surrogate, one for each byte that
the surrogate would take in UTF-8. -/
def withoutSurrogates (t : Text) : Text :=
  t.flatMap fun c => if c.isSurrogate then [0xFFFD, 0xFFFD, 0xFFFD] else [c]

/-- The decimal digits of a natural number, without leading zeros. -/
def decimal (n : Nat) : Text :=
  if n < 10 then [CodePoint.ofDigit n] else decimal (n / 10) ++ [CodePoint.ofDigit (n % 10)]

/-- The decimal digits of an integer, after a minus sign if it is negative. -/
def decimalInt : Int → Text
  | .ofNat n => decimal n
  | .negSucc n => 0x2D :: decimal (n + 1)

/-- The most decimal digits that an integer is written or read with. -/
def digitLimit : Nat := 4300

/-- The number has more than so many decimal digits; zero has none. -/
def hasMoreDigits : (k : Nat) → (n : Nat) → Bool
  | 0, n => n != 0
  | k + 1, n => n != 0 && hasMoreDigits k (n / 10)

/-- The integer has too many decimal digits to be written. -/
def isOversized (i : Int) : Bool := hasMoreDigits digitLimit i.natAbs

/-- The number that a list of ASCII digits denotes. -/
def digitsValue (t : Text) : Nat := t.foldl (fun n c => 10 * n + c.digitValue) 0

/-- The last `width` hexadecimal digits of a number, small letters. -/
def hex : (width : Nat) → (n : Nat) → Text
  | 0, _ => []
  | w + 1, n => hex w (n / 16) ++ [CodePoint.ofHexDigit n]

/-- The texts one after the other with `sep` between two neighbours. -/
def join (sep : Text) : List Text → Text
  | [] => []
  | [t] => t
  | t :: ts => t ++ sep ++ join sep ts

/-- What follows `head` in `t`, if `t` begins with it. -/
def after? : (head t : Text) → Option Text
  | [], t => some t
  | _ :: _, [] => none
  | h :: hs, c :: t => if h = c then after? hs t else none

/-- `pad` in front of the text until it has `width` code points. -/
def padLeft (pad : CodePoint) (width : Nat) (t : Text) : Text :=
  List.replicate (width - t.length) pad ++ t

/-- The pieces between the occurrences of a code point. -/
def splitOn (sep : CodePoint) : Text → List Text
  | [] => [[]]
  | c :: t =>
    if c = sep then [] :: splitOn sep t
    else match splitOn sep t with
      | [] => [[c]]
      | p :: ps => (c :: p) :: ps

end Text

end UsagePolicy
