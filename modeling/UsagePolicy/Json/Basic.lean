import UsagePolicy.Text.Basic
import UsagePolicy.Number.Double

/-!
# JSON values

Members of an object keep their order. In a text a key may occur more than once; a repetition gives
the first member with the key a new value. Looking a key up takes its last occurrence, which is the
same before and after repeated members are merged.
-/

namespace UsagePolicy

/-- A JSON value. Integers and doubles are told apart, as their numerals are. -/
inductive Json
  | null
  | bool (b : Bool)
  | int (i : Int)
  | float (d : Double)
  | text (t : Text)
  | array (items : List Json)
  | object (members : List (Text × Json))
deriving Inhabited

namespace Json

/-- The members of an object, in order. -/
abbrev Members := List (Text × Json)

/-- The value of the last member with a key. -/
def get? (members : Members) (key : Text) : Option Json :=
  match members with
  | [] => none
  | (k, v) :: rest =>
    match get? rest key with
    | some w => some w
    | none => if k = key then some v else none

/-- Gives the first member with a key a new value, or puts a new member at the end. -/
def insert (members : Members) (key : Text) (value : Json) : Members :=
  match members with
  | [] => [(key, value)]
  | (k, v) :: rest => if k = key then (k, value) :: rest else (k, v) :: insert rest key value

/-- Each key once, at the place of its first occurrence and with the value of its last. -/
def mergeRepeated (members : Members) : Members :=
  members.foldl (fun ms m => insert ms m.1 m.2) []

theorem sizeOf_get?_lt {members : Members} {key : Text} {v : Json}
    (h : get? members key = some v) : sizeOf v < sizeOf members := by
  induction members with
  | nil => simp [get?] at h
  | cons m rest ih =>
    obtain ⟨k, w⟩ := m
    simp only [get?] at h
    split at h
    · next u hu =>
      have := ih (hu.trans h)
      simp only [List.cons.sizeOf_spec]
      omega
    · split at h
      · injection h with h
        subst h
        simp only [List.cons.sizeOf_spec, Prod.mk.sizeOf_spec]
        omega
      · simp at h

end Json

end UsagePolicy
