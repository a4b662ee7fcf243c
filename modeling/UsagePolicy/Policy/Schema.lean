import UsagePolicy.Text.Basic

/-!
# Classes and fields

The classes of policy nodes and their fields, in the order in which they are declared. Every field
has a name and a wire name; they differ where the name has several words.
-/

namespace UsagePolicy

/-- The classes of policy nodes. -/
inductive NodeClass
  | policy
  | rule
  | permission
  | prohibition
  | duty
  | action
  | atomicConstraint
  | multiplicityConstraint
  | literalExpression
deriving DecidableEq, Repr

/-- The fields of policy nodes. -/
inductive Field
  | expressionType
  | value
  | constraintType
  | leftExpression
  | operator
  | rightExpression
  | kind
  | constraints
  | type
  | includedIn
  | constraint
  | action
  | duties
  | consequence
  | permissions
  | prohibitions
  | obligations
  | assignee
  | assigner
  | target
deriving DecidableEq, Repr

namespace NodeClass

/-- All classes. -/
def all : List NodeClass :=
  [.policy, .rule, .permission, .prohibition, .duty, .action, .atomicConstraint,
    .multiplicityConstraint, .literalExpression]

/-- The name of a class. -/
def name : NodeClass → Text
  | .policy => "Policy"
  | .rule => "Rule"
  | .permission => "Permission"
  | .prohibition => "Prohibition"
  | .duty => "Duty"
  | .action => "Action"
  | .atomicConstraint => "AtomicConstraint"
  | .multiplicityConstraint => "MultiplicityConstraint"
  | .literalExpression => "LiteralExpression"

/-- The class of a name. -/
def ofName? (t : Text) : Option NodeClass := all.find? fun c => c.name = t

/-- A node of the first class is also one of the second. -/
def isA (c d : NodeClass) : Bool :=
  c == d || (d == .rule && (c == .permission || c == .prohibition || c == .duty))

/-- The fields of a class, in the order of their declaration. -/
def fields : NodeClass → List Field
  | .policy =>
    [.type, .permissions, .prohibitions, .obligations, .assignee, .assigner, .target]
  | .rule | .prohibition => [.action, .constraints]
  | .permission => [.action, .constraints, .duties]
  | .duty => [.action, .constraints, .consequence]
  | .action => [.type, .includedIn, .constraint]
  | .atomicConstraint => [.constraintType, .leftExpression, .operator, .rightExpression]
  | .multiplicityConstraint => [.constraintType, .kind, .constraints]
  | .literalExpression => [.expressionType, .value]

end NodeClass

namespace Field

/-- The name of a field. -/
def name : Field → Text
  | .expressionType => "expression_type"
  | .value => "value"
  | .constraintType => "constraint_type"
  | .leftExpression => "left_expression"
  | .operator => "operator"
  | .rightExpression => "right_expression"
  | .kind => "kind"
  | .constraints => "constraints"
  | .type => "type"
  | .includedIn => "included_in"
  | .constraint => "constraint"
  | .action => "action"
  | .duties => "duties"
  | .consequence => "consequence"
  | .permissions => "permissions"
  | .prohibitions => "prohibitions"
  | .obligations => "obligations"
  | .assignee => "assignee"
  | .assigner => "assigner"
  | .target => "target"

/-- The wire name of a field, which is its preferred key in payloads. -/
def wireName : Field → Text
  | .expressionType => "expressionType"
  | .constraintType => "constraintType"
  | .leftExpression => "leftExpression"
  | .rightExpression => "rightExpression"
  | .includedIn => "includedIn"
  | f => f.name

end Field

end UsagePolicy
