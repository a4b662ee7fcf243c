import UsagePolicy.Text.Basic

/-!
# SHA-256

The digest of a list of bytes: the message is padded to blocks of sixteen words, each block updates
eight words by sixty-four rounds. Arithmetic is that of 32-bit words.
-/

namespace UsagePolicy

namespace Sha256

/-- The constants of the rounds. -/
def roundConstants : List UInt32 := [
  0x428a2f98, 0x71374491, 0xb5c0fbcf, 0xe9b5dba5, 0x3956c25b, 0x59f111f1, 0x923f82a4, 0xab1c5ed5,
  0xd807aa98, 0x12835b01, 0x243185be, 0x550c7dc3, 0x72be5d74, 0x80deb1fe, 0x9bdc06a7, 0xc19bf174,
  0xe49b69c1, 0xefbe4786, 0x0fc19dc6, 0x240ca1cc, 0x2de92c6f, 0x4a7484aa, 0x5cb0a9dc, 0x76f988da,
  0x983e5152, 0xa831c66d, 0xb00327c8, 0xbf597fc7, 0xc6e00bf3, 0xd5a79147, 0x06ca6351, 0x14292967,
  0x27b70a85, 0x2e1b2138, 0x4d2c6dfc, 0x53380d13, 0x650a7354, 0x766a0abb, 0x81c2c92e, 0x92722c85,
  0xa2bfe8a1, 0xa81a664b, 0xc24b8b70, 0xc76c51a3, 0xd192e819, 0xd6990624, 0xf40e3585, 0x106aa070,
  0x19a4c116, 0x1e376c08, 0x2748774c, 0x34b0bcb5, 0x391c0cb3, 0x4ed8aa4a, 0x5b9cca4f, 0x682e6ff3,
  0x748f82ee, 0x78a5636f, 0x84c87814, 0x8cc70208, 0x90befffa, 0xa4506ceb, 0xbef9a3f7, 0xc67178f2]

/-- The eight words under way. -/
structure State where
  a : UInt32
  b : UInt32
  c : UInt32
  d : UInt32
  e : UInt32
  f : UInt32
  g : UInt32
  h : UInt32

/-- The words before the first block. -/
def State.start : State :=
  ⟨0x6a09e667, 0xbb67ae85, 0x3c6ef372, 0xa54ff53a, 0x510e527f, 0x9b05688c, 0x1f83d9ab, 0x5be0cd19⟩

/-- The word with its bits moved to the right around the end. -/
def rotate (x : UInt32) (n : UInt32) : UInt32 := (x >>> n) ||| (x <<< (32 - n))

/-- One round with a constant and a word of the schedule. -/
def State.round (s : State) (k w : UInt32) : State :=
  let s1 := rotate s.e 6 ^^^ rotate s.e 11 ^^^ rotate s.e 25
  let choice := (s.e &&& s.f) ^^^ ((~~~ s.e) &&& s.g)
  let t1 := s.h + s1 + choice + k + w
  let s0 := rotate s.a 2 ^^^ rotate s.a 13 ^^^ rotate s.a 22
  let majority := (s.a &&& s.b) ^^^ (s.a &&& s.c) ^^^ (s.b &&& s.c)
  ⟨t1 + (s0 + majority), s.a, s.b, s.c, s.d + t1, s.e, s.f, s.g⟩

/-- The word-wise sum of two states. -/
def State.add (s t : State) : State :=
  ⟨s.a + t.a, s.b + t.b, s.c + t.c, s.d + t.d, s.e + t.e, s.f + t.f, s.g + t.g, s.h + t.h⟩

/-- The word of the schedule that follows sixteen given ones. -/
def nextWord : List UInt32 → UInt32
  | w0 :: w1 :: _ :: _ :: _ :: _ :: _ :: _ :: _ :: w9 :: _ :: _ :: _ :: _ :: w14 :: _ =>
    let s0 := rotate w1 7 ^^^ rotate w1 18 ^^^ (w1 >>> 3)
    let s1 := rotate w14 17 ^^^ rotate w14 19 ^^^ (w14 >>> 10)
    w0 + s0 + w9 + s1
  | _ => 0

/-- The rounds of a block; `window` holds the next sixteen words of the schedule. -/
def rounds : (constants window : List UInt32) → State → State
  | [], _, s => s
  | k :: ks, window, s =>
    match window with
    | [] => s
    | w :: ws => rounds ks (ws ++ [nextWord (w :: ws)]) (s.round k w)

/-- The state after a block. -/
def State.block (s : State) (words : List UInt32) : State :=
  s.add (rounds roundConstants words s)

/-- The words of a list of bytes, four bytes each, the first one the highest. -/
def words : List UInt8 → List UInt32
  | a :: b :: c :: d :: r =>
    (a.toUInt32 <<< 24 ||| b.toUInt32 <<< 16 ||| c.toUInt32 <<< 8 ||| d.toUInt32) :: words r
  | _ => []

/-- The state after the blocks of sixteen words each. -/
def blocks : (count : Nat) → List UInt32 → State → State
  | 0, _, s => s
  | n + 1, ws, s => blocks n (ws.drop 16) (s.block (ws.take 16))

/-- The message with a one bit, zeros and its length in bits, so that blocks are full. -/
def padded (message : List UInt8) : List UInt8 :=
  let n := message.length
  let zeros := (119 - n % 64) % 64
  let bits := 8 * n
  message ++ 0x80 :: List.replicate zeros 0
    ++ (List.range 8).map fun i => UInt8.ofNat (bits / Nat.pow 256 (7 - i) % 256)

/-- The eight words of the digest. -/
def digest (message : List UInt8) : State :=
  let ws := words (padded message)
  blocks (ws.length / 16) ws .start

/-- The digest in hexadecimal digits. -/
def hexDigest (message : List UInt8) : Text :=
  let s := digest message
  [s.a, s.b, s.c, s.d, s.e, s.f, s.g, s.h].flatMap fun w => Text.hex 8 w.toNat

end Sha256

end UsagePolicy
