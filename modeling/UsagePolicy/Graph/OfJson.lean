import UsagePolicy.Graph.Basic
import UsagePolicy.Json.Basic

/-!
# JSON values as values of a graph

A JSON value is a value without nodes. In the other direction everything but a node has a JSON form:
a tuple is an array and a member of a name set is its value.
-/

namespace UsagePolicy

namespace Value

mutual

/-- The value of a JSON value. -/
def ofJson : Json → Value
  | .null => .absent
  | .bool b => .bool b
  | .int i => .int i
  | .float d => .float d
  | .text t => .text t
  | .array vs => .list (ofJsonItems vs)
  | .object ms => .dict (ofJsonMembers ms)

/-- The values of array items. -/
def ofJsonItems : List Json → List Value
  | [] => []
  | v :: vs => ofJson v :: ofJsonItems vs

/-- The entries of members. -/
def ofJsonMembers : List (Text × Json) → List (Text × Value)
  | [] => []
  | (k, v) :: ms => (k, ofJson v) :: ofJsonMembers ms

end

mutual

/-- The JSON form of a value, or the first node in it, which has none. -/
def toJson : Value → Except Ref Json
  | .absent => .ok .null
  | .bool b => .ok (.bool b)
  | .int i => .ok (.int i)
  | .float d => .ok (.float d)
  | .text t => .ok (.text t)
  | .member m => .ok (.text m.value)
  | .tuple vs => (toJsonItems vs).map .array
  | .list vs => (toJsonItems vs).map .array
  | .dict es => (toJsonEntries es).map .object
  | .node r => .error r

/-- The JSON forms of values. -/
def toJsonItems : List Value → Except Ref (List Json)
  | [] => .ok []
  | v :: vs =>
    match toJson v with
    | .ok j => (toJsonItems vs).map (j :: ·)
    | .error r => .error r

/-- The members of entries. -/
def toJsonEntries : List (Text × Value) → Except Ref (List (Text × Json))
  | [] => .ok []
  | (k, v) :: es =>
    match toJson v with
    | .ok j => (toJsonEntries es).map ((k, j) :: ·)
    | .error r => .error r

end

end Value

end UsagePolicy
