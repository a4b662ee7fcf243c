import UsagePolicy.Text.Basic

/-!
# Random identifiers

Documents and requests are named by 128 random bits, six of which say that the others are random.
They are written as hexadecimal digits in five groups.
-/

namespace UsagePolicy

namespace RandomId

/-- The byte at a place with the fixed bits set: the version in the seventh, the variant in the
ninth. -/
def fix (i : Nat) (b : UInt8) : UInt8 :=
  if i = 6 then 0x40 ||| (b &&& 0x0F)
  else if i = 8 then 0x80 ||| (b &&& 0x3F)
  else b

/-- A dash stands before the byte at a place. -/
def startsGroup (i : Nat) : Bool := i == 4 || i == 6 || i == 8 || i == 10

/-- The identifier of sixteen random bytes. -/
def ofBytes (bytes : List UInt8) : Text :=
  ((bytes.take 16).mapIdx fun i b =>
    (if startsGroup i then [0x2D] else []) ++ Text.hex 2 (fix i b).toNat).flatten

end RandomId

end UsagePolicy
