import UsagePolicy.Text.Basic

/-!
# UTF-8

`Text.utf8?` writes a text as bytes and refuses surrogates; `Text.ofUtf8` reads bytes and names the
first place that is not UTF-8. Only the shortest form of a code point is read, and no surrogate.
-/

namespace UsagePolicy

/-- The bytes of one code point. -/
def CodePoint.utf8 (c : CodePoint) : List UInt8 :=
  let n := c.val
  let tail (shift : Nat) : UInt8 := UInt8.ofNat (0x80 + n / shift % 64)
  if n < 0x80 then [UInt8.ofNat n]
  else if n < 0x800 then [UInt8.ofNat (0xC0 + n / 64), tail 1]
  else if n < 0x10000 then [UInt8.ofNat (0xE0 + n / 4096), tail 64, tail 1]
  else [UInt8.ofNat (0xF0 + n / 262144), tail 4096, tail 64, tail 1]

namespace Text

/-- The bytes of a text, surrogates written like any other code point. -/
def utf8 (t : Text) : List UInt8 := t.flatMap CodePoint.utf8

/-- A run of surrogates that cannot be written: its place, its length and its first member. -/
structure UnencodableRun where
  position : Nat
  length : Nat
  first : CodePoint

/-- The first run of surrogates in a text. -/
def surrogateRun? (t : Text) : Option UnencodableRun :=
  let before := t.takeWhile fun c => !c.isSurrogate
  match t.drop before.length with
  | [] => none
  | c :: r => some ⟨before.length, 1 + (r.takeWhile CodePoint.isSurrogate).length, c⟩

/-- The bytes of a text without surrogates. -/
def utf8? (t : Text) : Except UnencodableRun (List UInt8) :=
  match t.surrogateRun? with
  | none => .ok t.utf8
  | some run => .error run

/-- What a writer says about a text that has no bytes. -/
def UnencodableRun.message (r : UnencodableRun) : Text :=
  if r.length = 1 then
    "'utf-8' codec can't encode character '\\u" ++ hex 4 r.first.val ++ "' in position "
      ++ decimal r.position ++ ": surrogates not allowed"
  else
    "'utf-8' codec can't encode characters in position " ++ decimal r.position ++ "-"
      ++ decimal (r.position + r.length - 1) ++ ": surrogates not allowed"

/-- Why bytes are not UTF-8. -/
inductive ByteFlaw
  | start
  | continuation
  | cutShort
deriving DecidableEq

/-- A place where bytes are not UTF-8: its flaw, its first byte and how many bytes it spans. -/
structure UndecodableBytes where
  flaw : ByteFlaw
  position : Nat
  first : UInt8
  length : Nat

/-- What a reader says about bytes that are not UTF-8. -/
def UndecodableBytes.message (u : UndecodableBytes) : Text :=
  let reason : Text := match u.flaw with
    | .start => "invalid start byte"
    | .continuation => "invalid continuation byte"
    | .cutShort => "unexpected end of data"
  if u.length = 1 then
    "'utf-8' codec can't decode byte 0x" ++ hex 2 u.first.toNat ++ " in position "
      ++ decimal u.position ++ ": " ++ reason
  else
    "'utf-8' codec can't decode bytes in position " ++ decimal u.position ++ "-"
      ++ decimal (u.position + u.length - 1) ++ ": " ++ reason

/-- How many bytes follow a first byte, and the range of the one next to it. -/
def followers (b : UInt8) : Option (Nat × UInt8 × UInt8) :=
  if 0xC2 ≤ b ∧ b ≤ 0xDF then some (1, 0x80, 0xBF)
  else if b = 0xE0 then some (2, 0xA0, 0xBF)
  else if b = 0xED then some (2, 0x80, 0x9F)
  else if 0xE1 ≤ b ∧ b ≤ 0xEF then some (2, 0x80, 0xBF)
  else if b = 0xF0 then some (3, 0x90, 0xBF)
  else if 0xF1 ≤ b ∧ b ≤ 0xF3 then some (3, 0x80, 0xBF)
  else if b = 0xF4 then some (3, 0x80, 0x8F)
  else none

/-- Reading under way: what is read of the present code point and how many bytes it still needs. -/
structure Pending where
  first : UInt8
  start : Nat
  got : Nat
  value : Nat
  low : UInt8
  high : UInt8
  missing : Nat

/-- Reads the bytes from place `i` on, after `done` (last first) and a code point under way. -/
def ofUtf8From (done : Text) : (i : Nat) → Option Pending → List UInt8 →
    Except UndecodableBytes Text
  | _, none, [] => .ok done.reverse
  | _, some p, [] => .error ⟨.cutShort, p.start, p.first, p.got⟩
  | i, none, b :: bs =>
    if b < 0x80 then ofUtf8From (CodePoint.ofNat b.toNat :: done) (i + 1) none bs
    else match followers b with
      | none => .error ⟨.start, i, b, 1⟩
      | some (n, lo, hi) =>
        let bits := b.toNat - (if n = 1 then 0xC0 else if n = 2 then 0xE0 else 0xF0)
        ofUtf8From done (i + 1) (some ⟨b, i, 1, bits, lo, hi, n⟩) bs
  | i, some p, b :: bs =>
    if p.low ≤ b ∧ b ≤ p.high then
      let value := p.value * 64 + (b.toNat - 0x80)
      if p.missing ≤ 1 then ofUtf8From (CodePoint.ofNat value :: done) (i + 1) none bs
      else
        ofUtf8From done (i + 1)
          (some ⟨p.first, p.start, p.got + 1, value, 0x80, 0xBF, p.missing - 1⟩) bs
    else .error ⟨.continuation, p.start, p.first, p.got⟩

/-- The text of UTF-8 bytes. -/
def ofUtf8 (bytes : List UInt8) : Except UndecodableBytes Text := ofUtf8From [] 0 none bytes

end Text

end UsagePolicy
