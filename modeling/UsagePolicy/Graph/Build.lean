import UsagePolicy.Graph.Basic

/-!
# Unchecked nodes

`Node.make` builds a node from values for some of its fields; nothing is checked, and the fields
that are not given have their defaults, if they have one.
-/

namespace UsagePolicy

/-- The value of a field that is not given. -/
def NodeClass.default? : NodeClass → Field → Option Value
  | .policy, .type => some (.member (.policyType .set))
  | .atomicConstraint, .constraintType => some (.text "atomic")
  | .multiplicityConstraint, .constraintType => some (.text "multiplicity")
  | .literalExpression, .expressionType => some (.text "literal")
  | _, .constraints | _, .duties | _, .permissions | _, .prohibitions | _, .obligations =>
    some (.tuple [])
  | _, .action | _, .includedIn | _, .constraint | _, .consequence | _, .assignee | _, .assigner
  | _, .target => some .absent
  | _, _ => none

/-- The node of a class with the given values. -/
def Node.make (c : NodeClass) (given : List (Field × Value)) : Node where
  nodeClass := c
  fields := c.fields.filterMap fun f =>
    match given.lookup f with
    | some v => some (f, v)
    | none => (c.default? f).map fun v => (f, v)
  mem_fields := by
    intro e member
    obtain ⟨f, hf, he⟩ := List.mem_filterMap.mp member
    split at he
    · injection he with he
      exact he ▸ hf
    · obtain ⟨v, -, rfl⟩ := Option.map_eq_some_iff.mp he
      exact hf

/-- The field of a class with a name. -/
def NodeClass.field? (c : NodeClass) (name : Text) : Option Field :=
  c.fields.find? fun f => f.name = name

end UsagePolicy
