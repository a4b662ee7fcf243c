import UsagePolicy.Json.Basic

/-!
# Canonical form

In the canonical form of a value the keys of every object increase by code point; the order of
array items is kept.
-/

namespace UsagePolicy

namespace Json

/-- The members in the order of their keys; members with one key keep their order. -/
def sortMembers {α : Type} : List (Text × α) → List (Text × α)
  | [] => []
  | m :: ms => insertBefore m (sortMembers ms)
where
  /-- Puts a member before the first one whose key is not smaller. -/
  insertBefore (m : Text × α) : List (Text × α) → List (Text × α)
    | [] => [m]
    | n :: ns => if n.1 < m.1 then n :: insertBefore m ns else m :: n :: ns

mutual

/-- The canonical form of a value. -/
def canonical : Json → Json
  | .array items => .array (canonicalItems items)
  | .object members => .object (sortMembers (canonicalMembers members))
  | .null => .null
  | .bool b => .bool b
  | .int i => .int i
  | .float d => .float d
  | .text t => .text t

/-- The canonical forms of array items. -/
def canonicalItems : List Json → List Json
  | [] => []
  | v :: vs => canonical v :: canonicalItems vs

/-- Members with the canonical forms of their values, in their old order. -/
def canonicalMembers : List (Text × Json) → List (Text × Json)
  | [] => []
  | (k, v) :: ms => (k, canonical v) :: canonicalMembers ms

end

end Json

end UsagePolicy
