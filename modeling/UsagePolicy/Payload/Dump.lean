import UsagePolicy.Graph.OfPolicy
import UsagePolicy.Payload.Check

/-!
# Parts of policies as values

`Part.dump` gives all fields of a part in the order of their declaration, under their wire names or
under their names. Checked again, a dump gives the part it came from.
-/

namespace UsagePolicy

/-- Which of its two keys a field is given under. -/
inductive Naming
  | wire
  | plain
deriving DecidableEq

/-- The key of a field. -/
def Naming.key : Naming → Field → Text
  | .wire, f => f.wireName
  | .plain, f => f.name

/-- The entries of an operand. -/
def Expression.dump (n : Naming) (e : Expression) : Value :=
  .dict [(n.key .expressionType, .text "literal"), (n.key .value, e.value.value)]

/-- The entries of a comparison. -/
def AtomicConstraint.dump (n : Naming) (a : AtomicConstraint) : Value :=
  .dict [(n.key .constraintType, .text "atomic"), (n.key .leftExpression, a.left.dump n),
    (n.key .operator, .member (.operator a.operator)), (n.key .rightExpression, a.right.dump n)]

mutual

/-- The entries of a constraint. -/
def Constraint.dump (n : Naming) : Constraint → Value
  | .atomic a => a.dump n
  | .multiplicity k cs =>
    .dict [(n.key .constraintType, .text "multiplicity"),
      (n.key .kind, .member (.multiplicityKind k)),
      (n.key .constraints, .tuple (Constraint.dumpList n cs))]

/-- The entries of constraints. -/
def Constraint.dumpList (n : Naming) : List Constraint → List Value
  | [] => []
  | c :: cs => c.dump n :: Constraint.dumpList n cs

end

/-- The entries of an action. -/
def Action.dump (n : Naming) (a : Action) : Value :=
  .dict [(n.key .type, .text a.type), (n.key .includedIn, .ofText? a.includedIn),
    (n.key .constraint, match a.refinement with
      | none => .absent
      | some c => c.dump n)]

/-- The entries that all rules share. -/
def Rule.entries (n : Naming) (r : Rule) : List (Text × Value) :=
  [(n.key .action, match r.action with
      | none => .absent
      | some a => a.dump n),
    (n.key .constraints, .tuple (Constraint.dumpList n r.constraints))]

/-- The entries of a duty. -/
def Duty.dump (n : Naming) : Duty → Value
  | .mk r none => .dict (r.entries n ++ [(n.key .consequence, .absent)])
  | .mk r (some d) => .dict (r.entries n ++ [(n.key .consequence, d.dump n)])

/-- The entries of a permission. -/
def Permission.dump (n : Naming) (p : Permission) : Value :=
  .dict (p.rule.entries n ++ [(n.key .duties, .tuple (p.duties.map (Duty.dump n)))])

/-- The entries of a prohibition. -/
def Prohibition.dump (n : Naming) (p : Prohibition) : Value := .dict (p.rule.entries n)

/-- The entries of a policy. -/
def Policy.dump (n : Naming) (p : Policy) : Value :=
  .dict [(n.key .type, .member (.policyType p.type)),
    (n.key .permissions, .tuple (p.permissions.map (Permission.dump n))),
    (n.key .prohibitions, .tuple (p.prohibitions.map (Prohibition.dump n))),
    (n.key .obligations, .tuple (p.obligations.map (Duty.dump n))),
    (n.key .assignee, .ofText? p.assignee), (n.key .assigner, .ofText? p.assigner),
    (n.key .target, .ofText? p.target)]

namespace Part

/-- The entries of a part. -/
def dump (n : Naming) : Part → Value
  | .policy p => p.dump n
  | .rule r => .dict (r.entries n)
  | .permission p => p.dump n
  | .prohibition p => p.dump n
  | .duty d => d.dump n
  | .action a => a.dump n
  | .constraint c => c.dump n
  | .expression e => e.dump n

/-- The dump of a part checks as the part. -/
def roundTrips (n : Naming) (t : Payload.Target) (p : Part) : Bool :=
  match (p.dump n).toJson with
  | .error _ => false
  | .ok v => match Payload.check .objects t v with
    | .ok q => p.same q
    | .error _ => false

end Part

end UsagePolicy
