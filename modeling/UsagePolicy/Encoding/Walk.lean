import UsagePolicy.Encoding.Outline

/-!
# The walk through a policy

The walk fills the open places of an outline one after the other. Whoever enters a rule or a
constraint is put on the active path and taken off again, whatever the outcome. A node that is
already on the path is cyclic, and no node is entered beyond the depth limit: the room that is left
below the limit is what the recursion goes down by, so the walk ends on every graph.
-/

namespace UsagePolicy

/-- Where a walk stands. -/
structure Trail where
  /-- The values that are being encoded, the innermost first; what is no node has no reference. -/
  active : List (Option Ref)
  /-- The greatest length that the active path has had. -/
  deepest : Nat

namespace Trail

/-- The start of every walk. -/
def start : Trail := ⟨[], 0⟩

/-- The reference that a value has on the active path. -/
def mark : Value → Option Ref
  | .node r => some r
  | _ => none

/-- The node is on the active path. -/
def holds (t : Trail) : Value → Bool
  | .node r => t.active.contains (some r)
  | _ => false

/-- The trail with one more value on the active path. -/
def push (t : Trail) (v : Value) : Trail :=
  ⟨mark v :: t.active, max t.deepest (t.active.length + 1)⟩

/-- The trail without the innermost value. -/
def pop (t : Trail) : Trail := ⟨t.active.tail, t.deepest⟩

end Trail

/-- A step of a walk: its outcome and where the walk stands then. -/
abbrev Walk (α : Type) := Trail → Except Failure α × Trail

/-- How the open places of an outline are filled. -/
abbrev Filler := Spot → Value → Path → Walk Value

namespace Outline

mutual

/-- The outline with its places filled from left to right, up to the first failure. -/
def fill (f : Filler) : Outline → Walk Value
  | .leaf v, t => (.ok v, t)
  | .fault e, t => (.error e, t)
  | .place s v p, t => f s v p t
  | .items os, t =>
    match fillItems f os t with
    | (.ok vs, t) => (.ok (.list vs), t)
    | (.error e, t) => (.error e, t)
  | .members ms, t =>
    match fillMembers f ms t with
    | (.ok es, t) => (.ok (.dict es), t)
    | (.error e, t) => (.error e, t)

/-- Items filled one after the other. -/
def fillItems (f : Filler) : List Outline → Walk (List Value)
  | [], t => (.ok [], t)
  | o :: os, t =>
    match fill f o t with
    | (.error e, t) => (.error e, t)
    | (.ok v, t) =>
      match fillItems f os t with
      | (.ok vs, t) => (.ok (v :: vs), t)
      | (.error e, t) => (.error e, t)

/-- Members filled one after the other. -/
def fillMembers (f : Filler) : List (Text × Outline) → Walk (List (Text × Value))
  | [], t => (.ok [], t)
  | (k, o) :: ms, t =>
    match fill f o t with
    | (.error e, t) => (.error e, t)
    | (.ok v, t) =>
      match fillMembers f ms t with
      | (.ok es, t) => (.ok ((k, v) :: es), t)
      | (.error e, t) => (.error e, t)

end

end Outline

/-- Why a value is not entered before its depth is looked at. -/
def refusal? (g : Graph) (s : Spot) (v : Value) (p : Path) (t : Trail) : Option Failure :=
  let misplaced : Bool := match s with
    | .rule k => !(g.nodeClass? v).any fun c => c.isA k
    | .constraint => false
  if misplaced then some (g.unsupported v p)
  else if t.holds v then some (.encoding (.cyclic p (g.typeName v)))
  else none

/-- Encodes what stands at a place; `room` more values may be entered below the limit. -/
def visit (g : Graph) (limit : Int) : (room : Nat) → Filler
  | room, s, v, p, t =>
    match refusal? g s v p t with
    | some e => (.error e, t)
    | none =>
      match room with
      | 0 => (.error (.encoding (.tooDeep p limit)), t)
      | room + 1 =>
        let (outcome, t) := (Outline.ofSpot g s v p).fill (visit g limit room) (t.push v)
        (outcome, t.pop)

/-- Encodes what stands at a place from where a walk stands. -/
def visitFrom (g : Graph) (limit : Int) (s : Spot) (v : Value) (p : Path) : Walk Value :=
  fun t => visit g limit (limit.toNat - t.active.length) s v p t

end UsagePolicy
