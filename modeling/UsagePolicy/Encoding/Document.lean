import UsagePolicy.Graph.OfJson
import UsagePolicy.Json.Fingerprint

/-!
# Written documents

An encoded document is a value; it is written by way of its JSON form. Whatever stands in it can be
written but a node.
-/

namespace UsagePolicy

namespace Value

mutual

/-- The value with the entries of its dictionaries sorted; tuples are looked into on request. -/
def sorted (inTuples : Bool) : Value → Value
  | .list vs => .list (sortedItems inTuples vs)
  | .tuple vs => .tuple (if inTuples then sortedItems inTuples vs else vs)
  | .dict es => .dict (Json.sortMembers (sortedEntries inTuples es))
  | v => v

/-- Items one by one. -/
def sortedItems (inTuples : Bool) : List Value → List Value
  | [] => []
  | v :: vs => sorted inTuples v :: sortedItems inTuples vs

/-- Entries one by one, in their old order. -/
def sortedEntries (inTuples : Bool) : List (Text × Value) → List (Text × Value)
  | [] => []
  | (k, v) :: es => (k, sorted inTuples v) :: sortedEntries inTuples es

end

/-- Why a document has no fingerprint. -/
inductive FingerprintError
  | node (r : Ref)
  | json (e : Json.FingerprintError)

/-- The compact text of a document. -/
def compact (v : Value) : Except Ref Text := v.toJson.map Json.compact

/-- The indented text of a document. -/
def pretty (v : Value) : Except Ref Text := v.toJson.map Json.pretty

/-- The compact text of a document whose entries are sorted; tuples are written as they are. -/
def canonicalText (v : Value) : Except Ref Text := (v.sorted false).compact

/-- The fingerprint of a document. -/
def fingerprint (v : Value) : Except FingerprintError Text :=
  match (v.sorted true).toJson with
  | .error r => .error (.node r)
  | .ok j => match j.fingerprint with
    | .error e => .error (.json e)
    | .ok t => .ok t

end Value

end UsagePolicy
