import UsagePolicy.Graph.Build
import UsagePolicy.Policy.Basic

/-!
# Policies as graphs

A policy is put into a graph part by part, each part as a node of its own after the parts inside it.
No node of such a graph is shared, and none contains itself.
-/

namespace UsagePolicy

/-- A value found while a graph grows. -/
abbrev Growing (α : Type) := Graph → α × Graph

/-- The value of a new node. -/
def Growing.node (c : NodeClass) (given : List (Field × Value)) : Growing Value := fun g =>
  let (g, r) := g.add (Node.make c given)
  (.node r, g)

/-- The value of a literal. -/
def Literal.value : Literal → Value
  | .text t => .text t
  | .int i => .int i
  | .float d => .float d
  | .bool b => .bool b

/-- The value of a text that may be absent. -/
def Value.ofText? : Option Text → Value
  | none => .absent
  | some t => .text t

/-- An operand as a node. -/
def Expression.grow (e : Expression) : Growing Value :=
  Growing.node .literalExpression [(.value, e.value.value)]

/-- A comparison as a node. -/
def AtomicConstraint.grow (a : AtomicConstraint) : Growing Value := fun g =>
  let (left, g) := a.left.grow g
  let (right, g) := a.right.grow g
  Growing.node .atomicConstraint
    [(.leftExpression, left), (.operator, .member (.operator a.operator)),
      (.rightExpression, right)] g

mutual

/-- A constraint as a node. -/
def Constraint.grow : Constraint → Growing Value
  | .atomic a, g => a.grow g
  | .multiplicity k cs, g =>
    let (members, g) := Constraint.growAll cs g
    Growing.node .multiplicityConstraint
      [(.kind, .member (.multiplicityKind k)), (.constraints, .tuple members)] g

/-- Constraints as nodes. -/
def Constraint.growAll : List Constraint → Growing (List Value)
  | [], g => ([], g)
  | c :: cs, g =>
    let (v, g) := c.grow g
    let (vs, g) := Constraint.growAll cs g
    (v :: vs, g)

end

/-- The value of a part that may be absent. -/
def Growing.optional {α : Type} (grow : α → Growing Value) : Option α → Growing Value
  | none, g => (.absent, g)
  | some a, g => grow a g

/-- The values of parts one after the other. -/
def Growing.each {α : Type} (grow : α → Growing Value) : List α → Growing (List Value)
  | [], g => ([], g)
  | a :: as, g =>
    let (v, g) := grow a g
    let (vs, g) := each grow as g
    (v :: vs, g)

/-- An action as a node. -/
def Action.grow (a : Action) : Growing Value := fun g =>
  let (refinement, g) := Growing.optional Constraint.grow a.refinement g
  Growing.node .action
    [(.type, .text a.type), (.includedIn, .ofText? a.includedIn), (.constraint, refinement)] g

/-- The fields that all rules share. -/
def Rule.growFields (r : Rule) : Growing (List (Field × Value)) := fun g =>
  let (action, g) := Growing.optional Action.grow r.action g
  let (constraints, g) := Constraint.growAll r.constraints g
  ([(.action, action), (.constraints, .tuple constraints)], g)

/-- A duty as a node. -/
def Duty.grow : Duty → Growing Value
  | .mk r none, g =>
    let (fields, g) := r.growFields g
    Growing.node .duty fields g
  | .mk r (some d), g =>
    let (fields, g) := r.growFields g
    let (consequence, g) := d.grow g
    Growing.node .duty (fields ++ [(.consequence, consequence)]) g

/-- A permission as a node. -/
def Permission.grow (p : Permission) : Growing Value := fun g =>
  let (fields, g) := p.rule.growFields g
  let (duties, g) := Growing.each Duty.grow p.duties g
  Growing.node .permission (fields ++ [(.duties, .tuple duties)]) g

/-- A prohibition as a node. -/
def Prohibition.grow (p : Prohibition) : Growing Value := fun g =>
  let (fields, g) := p.rule.growFields g
  Growing.node .prohibition fields g

/-- A policy as a node. -/
def Policy.grow (p : Policy) : Growing Value := fun g =>
  let (permissions, g) := Growing.each Permission.grow p.permissions g
  let (prohibitions, g) := Growing.each Prohibition.grow p.prohibitions g
  let (obligations, g) := Growing.each Duty.grow p.obligations g
  Growing.node .policy
    [(.type, .member (.policyType p.type)), (.permissions, .tuple permissions),
      (.prohibitions, .tuple prohibitions), (.obligations, .tuple obligations),
      (.assignee, .ofText? p.assignee), (.assigner, .ofText? p.assigner),
      (.target, .ofText? p.target)] g

end UsagePolicy
