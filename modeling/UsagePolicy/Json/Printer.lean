import UsagePolicy.Json.Basic
import UsagePolicy.Number.Shortest

/-!
# Writing JSON

One printer, `Json.write`, with a `Layout` that fixes separators, indentation and whether code
points outside ASCII are escaped. `Json.compact` and `Json.pretty` are the two forms of a document,
`Json.line` is the form of a log line.
-/

namespace UsagePolicy

namespace Json

/-- How a value is laid out. -/
structure Layout where
  /-- What stands between two items. -/
  itemSeparator : Text
  /-- What stands between a key and its value. -/
  keySeparator : Text
  /-- With indentation every item has a line of its own, this many spaces deeper per level. -/
  indent : Option Nat
  /-- Code points outside ASCII are escaped. -/
  asciiOnly : Bool

/-- No blanks at all. -/
def compactLayout : Layout := ⟨",", ":", none, false⟩

/-- An item per line. -/
def prettyLayout : Layout := ⟨",", ": ", some 2, false⟩

/-- All on one line, and ASCII only. -/
def lineLayout : Layout := ⟨", ", ": ", none, true⟩

/-- A code point as one or two four-digit escapes. -/
def unicodeEscape (c : CodePoint) : Text :=
  if c.val < 0x10000 then 0x5C :: 0x75 :: Text.hex 4 c.val
  else
    let n := c.val - 0x10000
    0x5C :: 0x75 :: Text.hex 4 (0xD800 + n / 0x400)
      ++ 0x5C :: 0x75 :: Text.hex 4 (0xDC00 + n % 0x400)

/-- A code point inside a string. -/
def escape (asciiOnly : Bool) (c : CodePoint) : Text :=
  match c with
  | 0x22 => [0x5C, 0x22]
  | 0x5C => [0x5C, 0x5C]
  | 0x0A => [0x5C, 0x6E]
  | 0x0D => [0x5C, 0x72]
  | 0x09 => [0x5C, 0x74]
  | 0x08 => [0x5C, 0x62]
  | 0x0C => [0x5C, 0x66]
  | c => if c.val < 0x20 ∨ (asciiOnly = true ∧ 0x7E < c.val) then unicodeEscape c else [c]

/-- A string between its quotes. -/
def writeText (asciiOnly : Bool) (t : Text) : Text :=
  0x22 :: t.flatMap (escape asciiOnly) ++ [0x22]

/-- The spelling of a double in JSON. -/
def writeDouble (d : Double) : Text := Double.write ⟨"NaN", "Infinity"⟩ d

/-- The line break before an item, `depth` levels deep. -/
def Layout.newline (l : Layout) (depth : Nat) : Text :=
  match l.indent with
  | none => []
  | some n => 0x0A :: List.replicate (n * depth) 0x20

mutual

/-- The text of a value that stands `depth` levels deep. -/
def write (l : Layout) (depth : Nat) : Json → Text
  | .null => "null"
  | .bool true => "true"
  | .bool false => "false"
  | .int i => Text.decimalInt i
  | .float d => writeDouble d
  | .text t => writeText l.asciiOnly t
  | .array [] => "[]"
  | .array (v :: vs) =>
    0x5B :: l.newline (depth + 1) ++ write l (depth + 1) v ++ writeItems l (depth + 1) vs
      ++ l.newline depth ++ [0x5D]
  | .object [] => "{}"
  | .object ((k, v) :: ms) =>
    0x7B :: l.newline (depth + 1) ++ writeText l.asciiOnly k ++ l.keySeparator
      ++ write l (depth + 1) v ++ writeMembers l (depth + 1) ms ++ l.newline depth ++ [0x7D]

/-- Further items, each after a separator. -/
def writeItems (l : Layout) (depth : Nat) : List Json → Text
  | [] => []
  | v :: vs =>
    l.itemSeparator ++ l.newline depth ++ write l depth v ++ writeItems l depth vs

/-- Further members, each after a separator. -/
def writeMembers (l : Layout) (depth : Nat) : List (Text × Json) → Text
  | [] => []
  | (k, v) :: ms =>
    l.itemSeparator ++ l.newline depth ++ writeText l.asciiOnly k ++ l.keySeparator
      ++ write l depth v ++ writeMembers l depth ms

end

mutual

/-- An integer in the value has too many digits to be written. -/
def hasOversized : Json → Bool
  | .int i => Text.isOversized i
  | .array vs => itemsHaveOversized vs
  | .object ms => membersHaveOversized ms
  | _ => false

/-- An integer in the items has too many digits. -/
def itemsHaveOversized : List Json → Bool
  | [] => false
  | v :: vs => v.hasOversized || itemsHaveOversized vs

/-- An integer in the members has too many digits. -/
def membersHaveOversized : List (Text × Json) → Bool
  | [] => false
  | (_, v) :: ms => v.hasOversized || membersHaveOversized ms

end

/-- The text without blanks. -/
def compact (v : Json) : Text := write compactLayout 0 v

/-- The indented text. -/
def pretty (v : Json) : Text := write prettyLayout 0 v

/-- The text on one line in ASCII. -/
def line (v : Json) : Text := write lineLayout 0 v

end Json

end UsagePolicy
