import UsagePolicy.Json.Basic
import UsagePolicy.Number.Numeral

/-!
# JSON tokens

`Json.tokens` cuts a text into punctuation, strings and scalars. It never fails: what is no token is
a token of its own kind, and the reader says whether anything could stand there at all. A token
keeps the text from its first code point on, which is its place.
-/

namespace UsagePolicy

namespace Json

/-- What two readers of JSON may see differently. -/
structure Dialect where
  /-- Half of a surrogate pair may be written as an escape. -/
  loneSurrogates : Bool
  /-- How deep containers that are not empty may nest. -/
  nesting : Option Nat
  /-- The limit on the digits of an integer holds for the whole part of every number. -/
  limitsWholePart : Bool

/-- The reader of documents and settings. -/
def lenient : Dialect := ⟨true, none, false⟩

/-- The reader of payloads. -/
def strict : Dialect := ⟨false, some 200, true⟩

/-- An integer may have this many digits. -/
def digitLimit : Nat := Text.digitLimit

/-- Why a text is not JSON. -/
inductive Flaw
  | value
  | key
  | colon
  | comma
  | unterminated
  | control
  | escape
  | unicodeEscape
  | extra
  | byteOrderMark
  | digits (count : Nat)
  | nesting
  | surrogate
deriving DecidableEq

/-- A flaw and the text from its place on. -/
structure FlawAt where
  flaw : Flaw
  rest : Text

/-- The smallest pieces of a JSON text. -/
inductive Token
  | openArray
  | closeArray
  | openObject
  | closeObject
  | comma
  | colon
  | text (t : Text)
  | scalar (v : Json)
  | broken (e : FlawAt)
  | unknown

/-- A token and the text from its first code point on. -/
structure Lexeme where
  token : Token
  place : Text

/-- The four code points that may stand between tokens. -/
def isSpace (c : CodePoint) : Bool := c == 0x20 || c == 0x0A || c == 0x0D || c == 0x09

/-- The code point that a one-letter escape stands for. -/
def unescape? (c : CodePoint) : Option CodePoint :=
  match c with
  | 0x22 => some 0x22
  | 0x5C => some 0x5C
  | 0x2F => some 0x2F
  | 0x62 => some 0x08
  | 0x66 => some 0x0C
  | 0x6E => some 0x0A
  | 0x72 => some 0x0D
  | 0x74 => some 0x09
  | _ => none

/-- The code point of four hexadecimal digits. -/
def hexPoint? (a b c d : CodePoint) : Option CodePoint :=
  match a.hexValue?, b.hexValue?, c.hexValue?, d.hexValue? with
  | some a, some b, some c, some d => some (CodePoint.ofNat (((a * 16 + b) * 16 + c) * 16 + d))
  | _, _, _, _ => none

/-- The part of a string that is read: its code points, last first, and the first half of a pair
that an escape has just given. -/
structure Scanned where
  points : Text
  high : Option CodePoint

namespace Scanned

/-- Nothing is read. -/
def empty : Scanned := ⟨[], none⟩

/-- The waiting half stays alone, if the dialect allows it. -/
def settle? (d : Dialect) (s : Scanned) : Option Text :=
  match s.high with
  | none => some s.points
  | some h => if d.loneSurrogates then some (h :: s.points) else none

/-- One more code point that is written as itself. -/
def push? (d : Dialect) (s : Scanned) (c : CodePoint) : Option Scanned :=
  (s.settle? d).map fun ps => ⟨c :: ps, none⟩

/-- One more code point that is written as a four-digit escape. -/
def pushEscaped? (d : Dialect) (s : Scanned) (u : CodePoint) : Option Scanned :=
  match s.high with
  | some h =>
    if u.isLowSurrogate then some ⟨CodePoint.ofSurrogates h u :: s.points, none⟩
    else if !d.loneSurrogates then none
    else if u.isHighSurrogate then some ⟨h :: s.points, some u⟩
    else some ⟨u :: h :: s.points, none⟩
  | none =>
    if u.isHighSurrogate then some ⟨s.points, some u⟩
    else if u.isLowSurrogate && !d.loneSurrogates then none
    else some ⟨u :: s.points, none⟩

end Scanned

/-- Reads a string after its opening quote; `start` is the text from that quote on. -/
def scanText (d : Dialect) (start : Text) : Scanned → Text → Token × Text
  | _, [] => (.broken ⟨.unterminated, start⟩, [])
  | s, 0x22 :: r =>
    match s.settle? d with
    | some ps => (.text ps.reverse, r)
    | none => (.broken ⟨.surrogate, start⟩, [])
  | s, 0x5C :: 0x75 :: a :: b :: c :: e :: r =>
    match if r.isEmpty then none else hexPoint? a b c e with
    | none => (.broken ⟨.unicodeEscape, 0x75 :: a :: b :: c :: e :: r⟩, [])
    | some u =>
      match s.pushEscaped? d u with
      | some s' => scanText d start s' r
      | none => (.broken ⟨.surrogate, start⟩, [])
  | _, 0x5C :: 0x75 :: r => (.broken ⟨.unicodeEscape, 0x75 :: r⟩, [])
  | s, 0x5C :: c :: r =>
    match unescape? c with
    | none => (.broken ⟨.escape, 0x5C :: c :: r⟩, [])
    | some u =>
      match s.push? d u with
      | some s' => scanText d start s' r
      | none => (.broken ⟨.surrogate, start⟩, [])
  | _, [0x5C] => (.broken ⟨.unterminated, start⟩, [])
  | s, c :: r =>
    if c.val < 0x20 then (.broken ⟨.control, c :: r⟩, [])
    else match s.push? d c with
      | some s' => scanText d start s' r
      | none => (.broken ⟨.surrogate, start⟩, [])

/-- The scalars that are written as words. -/
def words : List (Text × Json) :=
  [("null", .null), ("true", .bool true), ("false", .bool false), ("NaN", .float .nan),
    ("Infinity", .float (.infinite false)), ("-Infinity", .float (.infinite true))]

/-- The word at the front of a text, and what follows it. -/
def word? (t : Text) : Option (Json × Text) :=
  words.findSome? fun w => (Text.after? w.1 t).map fun r => (w.2, r)

/-- The token of a number. -/
def numberToken (d : Dialect) (place : Text) (n : Numeral) : Token :=
  if (n.isInteger || d.limitsWholePart) && digitLimit < n.whole.length then
    .broken ⟨.digits n.whole.length, place⟩
  else if n.isInteger then .scalar (.int n.toInt)
  else .scalar (.float n.toDouble)

/-- The token at the front of the text `c :: r`, whose first code point is no space, and what
follows it. -/
def nextToken (d : Dialect) (c : CodePoint) (r : Text) : Token × Text :=
  match c with
  | 0x5B => (.openArray, r)
  | 0x5D => (.closeArray, r)
  | 0x7B => (.openObject, r)
  | 0x7D => (.closeObject, r)
  | 0x2C => (.comma, r)
  | 0x3A => (.colon, r)
  | 0x22 => scanText d (c :: r) .empty r
  | c =>
    match word? (c :: r) with
    | some (v, r') => (.scalar v, r')
    | none =>
      match Numeral.scan? (c :: r) with
      | some (n, r') => (numberToken d (c :: r) n, r')
      | none => (.unknown, [])

theorem length_scanText_le (d : Dialect) (start : Text) (s : Scanned) (t : Text) :
    (scanText d start s t).2.length ≤ t.length := by
  fun_induction scanText d start s t <;> simp_all <;> omega

theorem length_after?_le {head t r : Text} (h : Text.after? head t = some r) :
    r.length + head.length = t.length := by
  induction head generalizing t with
  | nil => simp_all [Text.after?]
  | cons c cs ih =>
    cases t with
    | nil => simp [Text.after?] at h
    | cons a t =>
      simp only [Text.after?] at h
      split at h
      · have := ih h
        simp only [List.length_cons]
        omega
      · simp at h

theorem length_word?_le {t r : Text} {v : Json} (h : word? t = some (v, r)) :
    r.length < t.length := by
  obtain ⟨w, hw, h⟩ := List.exists_of_findSome?_eq_some h
  obtain ⟨r', hr, h⟩ := Option.map_eq_some_iff.1 h
  have := length_after?_le hr
  have hpos : ∀ w ∈ words.map Prod.fst, 0 < w.length := by decide
  have := hpos w.1 (List.mem_map_of_mem hw)
  simp only [Prod.mk.injEq] at h
  rw [← h.2]
  omega

theorem length_nextToken_le (d : Dialect) (c : CodePoint) (r : Text) :
    (nextToken d c r).2.length ≤ r.length := by
  unfold nextToken
  split <;> try simp
  · exact length_scanText_le d _ _ r
  · split
    · next v r' h => simpa [Nat.lt_succ_iff] using length_word?_le h
    · split
      · next n r' h => simpa [Nat.lt_succ_iff] using Numeral.length_scan?_lt h
      · simp

/-- The tokens of a text, in order. -/
def tokens (d : Dialect) : Text → List Lexeme
  | [] => []
  | c :: r =>
    if isSpace c then tokens d r
    else ⟨(nextToken d c r).1, c :: r⟩ :: tokens d (nextToken d c r).2
termination_by t => t.length
decreasing_by
  · simp
  · exact Nat.lt_succ_of_le (length_nextToken_le d c r)

end Json

end UsagePolicy
