import UsagePolicy.Graph.Basic

/-!
# Keys

A value is looked up in a table by its hash. Lists and dictionaries have none; a tuple has one if
its items do, and a node if its fields do, taken in the order of its class. The hash of a node that
contains itself has no end.
-/

namespace UsagePolicy

/-- Why a value has no hash. -/
inductive KeyFlaw
  /-- It contains a value of a type that has none. -/
  | unhashable (typeName : Text)
  /-- It contains a node that contains itself. -/
  | endless

namespace Value

mutual

/-- Why a value has no hash, by why nodes have none. -/
def keyFlawWith? (node : Ref → Option KeyFlaw) : Value → Option KeyFlaw
  | .tuple vs => itemFlawWith? node vs
  | .list _ => some (.unhashable "list")
  | .dict _ => some (.unhashable "dict")
  | .node r => node r
  | _ => none

/-- Why the first item without a hash has none. -/
def itemFlawWith? (node : Ref → Option KeyFlaw) : List Value → Option KeyFlaw
  | [] => none
  | v :: vs => match keyFlawWith? node v with
    | some flaw => some flaw
    | none => itemFlawWith? node vs

end

end Value

namespace Node

/-- The values of the fields, in the order of the class. -/
def inOrder (n : Node) : List Value := n.nodeClass.fields.filterMap n.get?

end Node

namespace Graph

/-- Why a node has no hash; at most `depth` nodes may stand inside one another. -/
def nodeKeyFlaw? (g : Graph) : (depth : Nat) → Ref → Option KeyFlaw
  | 0, _ => some .endless
  | n + 1, r => (g.node? r).bind fun node => Value.itemFlawWith? (g.nodeKeyFlaw? n) node.inOrder

/-- Why a value has no hash. -/
def keyFlaw? (g : Graph) (v : Value) : Option KeyFlaw :=
  v.keyFlawWith? (g.nodeKeyFlaw? g.nodes.size)

end Graph

end UsagePolicy
