import UsagePolicy.Graph.Printer
import UsagePolicy.Number.Rounded
import UsagePolicy.Text.Case

/-!
# Conversions in message templates

A conversion begins with a percent sign and says how one argument is written: as text, as an integer
in one of three bases, as a rounded number or as a single character, with flags, a least width and a
precision. This module reads conversions and writes arguments; `UsagePolicy.Logging.Template` goes
through a whole message.
-/

namespace UsagePolicy

/-- A width or a precision. -/
inductive Size
  | none
  | digits (n : Nat)
  | tooBig
  /-- The size is an argument of its own. -/
  | argument
deriving DecidableEq

/-- The key of a conversion that takes its argument from a dictionary. -/
inductive ConversionKey
  | none
  | key (k : Text)
  | unclosed
deriving DecidableEq

/-- The flags of a conversion. -/
structure ConversionFlags where
  leftAligned : Bool
  signed : Bool
  spaced : Bool
  alternate : Bool
  zeroPadded : Bool
deriving DecidableEq

/-- A conversion as it is written in a template. -/
structure Conversion where
  key : ConversionKey
  flags : ConversionFlags
  width : Size
  precision : Size
  /-- The letter that decides the form; none if the template ends before. -/
  letter : Option CodePoint
deriving DecidableEq

/-- Why a template cannot be filled. -/
inductive TemplateFlaw
  | incomplete
  | unclosedKey
  | widthTooBig
  | precisionTooBig
  | unknownLetter (c : CodePoint) (position : Nat)
  | tooFewArguments
  | tooManyArguments
  | needsDictionary
  | missingKey (k : Text)
  | sizeNotInteger
  | widthOverflow
  | precisionOverflow
  | notReal (letter : CodePoint) (typeName : Text)
  | notInteger (letter : CodePoint) (typeName : Text)
  | notFloat (typeName : Text)
  | nanToInteger
  | infinityToInteger
  | integerToFloat
  | notACharacter
  | characterRange
  | unprintable (flaw : PrintFlaw)
deriving DecidableEq

/-- The digits of a number in a base up to sixteen. -/
def Text.digitsIn (base : Nat) : (fuel : Nat) → Nat → Text → Text
  | 0, _, ds => ds
  | f + 1, n, ds =>
    let ds := CodePoint.ofHexDigit (n % base) :: ds
    if n / base = 0 then ds else digitsIn base f (n / base) ds

/-- A number in a base from two to sixteen. -/
def Text.inBase (base n : Nat) : Text := digitsIn base (n.log2 + 1) n []

namespace TemplateFlaw

/-- A letter between a percent sign and what is said about its conversion. -/
def aboutLetter (c : CodePoint) (t : Text) : Text := 0x25 :: c :: t

/-- The message of a flaw. -/
def message : TemplateFlaw → Text
  | .incomplete => "incomplete format"
  | .unclosedKey => "incomplete format key"
  | .widthTooBig => "width too big"
  | .precisionTooBig => "precision too big"
  | .unknownLetter c i =>
    ("unsupported format character '" : Text)
      ++ (if 0x1F ≤ c.val ∧ c.val ≤ 0x7E then c else 0x3F)
      :: (("' (0x" : Text) ++ Text.inBase 16 c.val
        ++ (") at index " : Text) ++ Text.decimal i)
  | .tooFewArguments => "not enough arguments for format string"
  | .tooManyArguments => "not all arguments converted during string formatting"
  | .needsDictionary => "format requires a mapping"
  | .missingKey k => k.quoted
  | .sizeNotInteger => "* wants int"
  | .widthOverflow => "Python int too large to convert to C ssize_t"
  | .precisionOverflow => "Python int too large to convert to C int"
  | .notReal c t => aboutLetter c ((" format: a real number is required, not " : Text) ++ t)
  | .notInteger c t => aboutLetter c ((" format: an integer is required, not " : Text) ++ t)
  | .notFloat t => ("must be real number, not " : Text) ++ t
  | .nanToInteger => "cannot convert float NaN to integer"
  | .infinityToInteger => "cannot convert float infinity to integer"
  | .integerToFloat => "int too large to convert to float"
  | .notACharacter => "%c requires int or char"
  | .characterRange => "%c arg not in range(0x110000)"
  | .unprintable flaw => flaw.message .plain

end TemplateFlaw

namespace Conversion

/-- No flag at all. -/
def noFlags : ConversionFlags := ⟨false, false, false, false, false⟩

/-- The flags at the beginning of a text, and the rest. -/
def readFlags (f : ConversionFlags) : Text → ConversionFlags × Text
  | 0x2D :: t => readFlags { f with leftAligned := true } t
  | 0x2B :: t => readFlags { f with signed := true } t
  | 0x20 :: t => readFlags { f with spaced := true } t
  | 0x23 :: t => readFlags { f with alternate := true } t
  | 0x30 :: t => readFlags { f with zeroPadded := true } t
  | t => (f, t)

/-- The size at the beginning of a text, at most `greatest`, and the rest. -/
def readSize (greatest : Nat) (whenMissing : Size) : Text → Size × Text
  | 0x2A :: t => (.argument, t)
  | t =>
    let ds := t.takeWhile CodePoint.isDigit
    if ds.isEmpty then (whenMissing, t)
    else
      let n := Text.digitsValue ds
      (if greatest < n then .tooBig else .digits n, t.dropWhile CodePoint.isDigit)

/-- The key after an opening parenthesis, up to the one that closes it, and the rest. -/
def readKey (read : Text) : (depth : Nat) → Text → ConversionKey × Text
  | _, [] => (.unclosed, [])
  | depth, c :: t =>
    if c = 0x28 then readKey (c :: read) (depth + 1) t
    else if c = 0x29 then
      match depth with
      | 0 => (.key read.reverse, t)
      | d + 1 => readKey (c :: read) d t
    else readKey (c :: read) depth t

/-- The key at the beginning of a text, if there is one, and the rest. -/
def readKey? : Text → ConversionKey × Text
  | 0x28 :: t => readKey [] 0 t
  | t => (.none, t)

/-- The greatest width. -/
def greatestWidth : Nat := 0x7FFFFFFFFFFFFFFF

/-- The greatest precision. -/
def greatestPrecision : Nat := 0x7FFFFFFF

/-- The precision at the beginning of a text, zero after a mere point, and the rest. -/
def readPrecision : Text → Size × Text
  | 0x2E :: t => readSize greatestPrecision (.digits 0) t
  | t => (.none, t)

/-- What follows a length modifier, which means nothing. -/
def readModifier : Text → Text
  | 0x68 :: t => t
  | 0x6C :: t => t
  | 0x4C :: t => t
  | t => t

/-- The conversion that follows a percent sign, and the rest. -/
def read (t : Text) : Conversion × Text :=
  let key := readKey? t
  let flags := readFlags noFlags key.2
  let width := readSize greatestWidth .none flags.2
  let precision := readPrecision width.2
  let t := readModifier precision.2
  (⟨key.1, flags.1, width.1, precision.1, t.head?⟩, t.tail)

/-! ### Writing an argument -/

/-- The name of the type of an argument. -/
def typeName (v : Value) : Text := Graph.empty.typeName v

/-- The argument as it is printed. -/
def printed (how : Printing) (v : Value) : Except TemplateFlaw Text :=
  (match how with
  | .shown => Graph.empty.shown v
  | .plain => Graph.empty.plain v).mapError .unprintable

/-- A code point outside ASCII as an escape. -/
def asciiEscape (c : CodePoint) : Text :=
  if c.val < 0x80 then [c]
  else if c.val < 0x100 then 0x5C :: 0x78 :: Text.hex 2 c.val
  else if c.val < 0x10000 then 0x5C :: 0x75 :: Text.hex 4 c.val
  else 0x5C :: 0x55 :: Text.hex 8 c.val

/-- What is written of an argument, before it is brought to its width. -/
structure Body where
  /-- A sign, if the form has one. -/
  sign : Option CodePoint
  /-- What stands between the sign and the digits. -/
  mark : Text
  digits : Text
  /-- The width is made up by zeros. -/
  zeros : Bool

/-- The sign of a number under the flags. -/
def signOf (f : ConversionFlags) (negative : Bool) : Option CodePoint :=
  if negative then some 0x2D
  else if f.signed then some 0x2B
  else if f.spaced then some 0x20
  else none

/-- The body brought to a width. -/
def Body.pad (b : Body) (leftAligned : Bool) (width : Nat) : Text :=
  let start := b.sign.toList ++ b.mark
  let missing := width - (start.length + b.digits.length)
  if leftAligned then start ++ b.digits ++ List.replicate missing 0x20
  else if b.zeros then start ++ List.replicate missing 0x30 ++ b.digits
  else List.replicate missing 0x20 ++ start ++ b.digits

/-- A text that is written as it is. -/
def textBody (t : Text) : Body := ⟨none, [], t, false⟩

/-- The integer that an argument stands for in a decimal conversion. -/
def decimalArgument (letter : CodePoint) : Value → Except TemplateFlaw Int
  | .int i => if Text.isOversized i then .error (.unprintable .digits) else .ok i
  | .bool b => .ok (if b then 1 else 0)
  | .float .nan => .error .nanToInteger
  | .float (.infinite _) => .error .infinityToInteger
  | .float d => .ok (d.truncate?.getD 0)
  | v => .error (.notReal letter (typeName v))

/-- The integer that an argument stands for in another base. -/
def integerArgument (letter : CodePoint) : Value → Except TemplateFlaw Int
  | .int i => .ok i
  | .bool b => .ok (if b then 1 else 0)
  | v => .error (.notInteger letter (typeName v))

/-- The double that an argument stands for. -/
def doubleArgument : Value → Except TemplateFlaw Double
  | .float d => .ok d
  | .bool b => .ok (Double.ofInt (if b then 1 else 0))
  | .int i => match Double.ofInt i with
    | .infinite _ => .error .integerToFloat
    | d => .ok d
  | v => .error (.notFloat (typeName v))

/-- An integer in a base, with at least as many digits as the precision says. -/
def integerBody (f : ConversionFlags) (precision : Option Nat) (base : Nat) (mark : Text)
    (i : Int) :
    Body :=
  ⟨signOf f (i < 0), if f.alternate then mark else [],
    Text.padLeft 0x30 (precision.getD 0) (Text.inBase base i.natAbs), f.zeroPadded⟩

/-- How a rounded number is laid out. -/
inductive RoundedForm
  | scaled
  | fixed
  | significant

/-- A rounded number; six digits if there is no precision. -/
def doubleBody (f : ConversionFlags) (precision : Option Nat) (form : RoundedForm)
    (capitals : Bool) (d : Double) : Body :=
  let digits : Text := match d with
    | .nan => "nan"
    | .infinite _ => "inf"
    | .finite _ m e _ =>
      let (num, den) := Double.magnitude m e
      let count := precision.getD 6
      match form with
      | .scaled => Double.scaled count f.alternate num den
      | .fixed => Double.fixed count f.alternate num den
      | .significant => Double.significant count f.alternate num den
  ⟨signOf f d.isNegative, [], if capitals then digits.upper else digits, f.zeroPadded⟩

/-- A single character. -/
def characterBody (v : Value) : Except TemplateFlaw Body :=
  match v with
  | .int i => if 0 ≤ i ∧ i < 0x110000 then .ok (textBody [CodePoint.ofNat i.toNat])
    else .error .characterRange
  | .bool b => .ok (textBody [if b then 1 else 0])
  | v => match v.text? with
    | some [c] => .ok (textBody [c])
    | _ => .error .notACharacter

/-- A text up to its precision. -/
def cut (precision : Option Nat) (t : Text) : Text :=
  match precision with
  | none => t
  | some n => t.take n

/-- An argument in the form of a letter at a place of the template. -/
def body (f : ConversionFlags) (precision : Option Nat) (letter : CodePoint) (position : Nat)
    (v : Value) : Except TemplateFlaw Body :=
  match letter with
  | 0x73 => (printed .plain v).map fun t => textBody (cut precision t)
  | 0x72 => (printed .shown v).map fun t => textBody (cut precision t)
  | 0x61 => (printed .shown v).map fun t => textBody (cut precision (t.flatMap asciiEscape))
  | 0x64 | 0x69 | 0x75 => (decimalArgument letter v).map (integerBody f precision 10 [])
  | 0x6F => (integerArgument letter v).map (integerBody f precision 8 "0o")
  | 0x78 => (integerArgument letter v).map (integerBody f precision 16 "0x")
  | 0x58 => (integerArgument letter v).map fun i =>
    let b := integerBody f precision 16 "0X" i
    { b with digits := b.digits.upper }
  | 0x65 => (doubleArgument v).map (doubleBody f precision .scaled false)
  | 0x45 => (doubleArgument v).map (doubleBody f precision .scaled true)
  | 0x66 => (doubleArgument v).map (doubleBody f precision .fixed false)
  | 0x46 => (doubleArgument v).map (doubleBody f precision .fixed true)
  | 0x67 => (doubleArgument v).map (doubleBody f precision .significant false)
  | 0x47 => (doubleArgument v).map (doubleBody f precision .significant true)
  | 0x63 => characterBody v
  | c => .error (.unknownLetter c position)

end Conversion

end UsagePolicy
