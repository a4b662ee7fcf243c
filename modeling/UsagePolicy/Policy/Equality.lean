import UsagePolicy.Policy.Basic
import UsagePolicy.Policy.Schema

/-!
# Equality of policies

Two parts of policies are equal if they are of one class and agree field by field. Literals are
compared by value: the numbers `1` and `1.0` and the truth value `true` are equal, and a NaN equals
nothing, itself included. `sameBy` takes the comparison of literals as a parameter.
-/

namespace UsagePolicy

namespace Literal

/-- The literals have the same type and the same value. -/
def same (a b : Literal) : Bool := a == b

/-- The integer that a literal is, if it is one or a truth value. -/
def int? : Literal → Option Int
  | .int i => some i
  | .bool b => some (if b then 1 else 0)
  | _ => none

/-- The literals are equal as numbers or as texts. -/
def eqv : Literal → Literal → Bool
  | .text a, .text b => a == b
  | .float a, .float b => a.numEq b
  | .float a, b => match b.int? with
    | some i => a.eqInt i
    | none => false
  | a, .float b => match a.int? with
    | some i => b.eqInt i
    | none => false
  | a, b => match a.int?, b.int? with
    | some i, some j => i == j
    | _, _ => false

end Literal

/-- Both options are empty, or their values compare. -/
def optionBy {α : Type} (f : α → α → Bool) : Option α → Option α → Bool
  | none, none => true
  | some a, some b => f a b
  | _, _ => false

/-- The lists have one length and compare position by position. -/
def listBy {α : Type} (f : α → α → Bool) : List α → List α → Bool
  | [], [] => true
  | a :: as, b :: bs => f a b && listBy f as bs
  | _, _ => false

/-- A comparison of literals applied to operands. -/
def Expression.sameBy (f : Literal → Literal → Bool) (a b : Expression) : Bool := f a.value b.value

/-- A comparison of literals applied to comparisons. -/
def AtomicConstraint.sameBy (f : Literal → Literal → Bool) (a b : AtomicConstraint) : Bool :=
  a.left.sameBy f b.left && a.operator == b.operator && a.right.sameBy f b.right

mutual

/-- A comparison of literals applied to constraints. -/
def Constraint.sameBy (f : Literal → Literal → Bool) : Constraint → Constraint → Bool
  | .atomic a, .atomic b => a.sameBy f b
  | .multiplicity k cs, .multiplicity l ds => k == l && Constraint.listSameBy f cs ds
  | _, _ => false

/-- A comparison of literals applied to lists of constraints. -/
def Constraint.listSameBy (f : Literal → Literal → Bool) :
    List Constraint → List Constraint → Bool
  | [], [] => true
  | c :: cs, d :: ds => c.sameBy f d && Constraint.listSameBy f cs ds
  | _, _ => false

end

/-- A comparison of literals applied to actions. -/
def Action.sameBy (f : Literal → Literal → Bool) (a b : Action) : Bool :=
  a.type == b.type && a.includedIn == b.includedIn
    && optionBy (Constraint.sameBy f) a.refinement b.refinement

/-- A comparison of literals applied to the shared part of rules. -/
def Rule.sameBy (f : Literal → Literal → Bool) (a b : Rule) : Bool :=
  optionBy (Action.sameBy f) a.action b.action
    && Constraint.listSameBy f a.constraints b.constraints

/-- A comparison of literals applied to duties. -/
def Duty.sameBy (f : Literal → Literal → Bool) : Duty → Duty → Bool
  | .mk r none, .mk s none => r.sameBy f s
  | .mk r (some c), .mk s (some d) => r.sameBy f s && c.sameBy f d
  | _, _ => false

/-- A comparison of literals applied to permissions. -/
def Permission.sameBy (f : Literal → Literal → Bool) (a b : Permission) : Bool :=
  a.rule.sameBy f b.rule && listBy (Duty.sameBy f) a.duties b.duties

/-- A comparison of literals applied to prohibitions. -/
def Prohibition.sameBy (f : Literal → Literal → Bool) (a b : Prohibition) : Bool :=
  a.rule.sameBy f b.rule

/-- A comparison of literals applied to policies. -/
def Policy.sameBy (f : Literal → Literal → Bool) (a b : Policy) : Bool :=
  a.type == b.type
    && listBy (Permission.sameBy f) a.permissions b.permissions
    && listBy (Prohibition.sameBy f) a.prohibitions b.prohibitions
    && listBy (Duty.sameBy f) a.obligations b.obligations
    && a.assignee == b.assignee && a.assigner == b.assigner && a.target == b.target

/-- A part of a policy of any class. -/
inductive Part
  | policy (p : Policy)
  | rule (r : Rule)
  | permission (p : Permission)
  | prohibition (p : Prohibition)
  | duty (d : Duty)
  | action (a : Action)
  | constraint (c : Constraint)
  | expression (e : Expression)

namespace Part

/-- The class of a part. -/
def nodeClass : Part → NodeClass
  | .policy _ => .policy
  | .rule _ => .rule
  | .permission _ => .permission
  | .prohibition _ => .prohibition
  | .duty _ => .duty
  | .action _ => .action
  | .constraint (.atomic _) => .atomicConstraint
  | .constraint (.multiplicity _ _) => .multiplicityConstraint
  | .expression _ => .literalExpression

/-- A comparison of literals applied to parts. -/
def sameBy (f : Literal → Literal → Bool) : Part → Part → Bool
  | .policy a, .policy b => a.sameBy f b
  | .rule a, .rule b => a.sameBy f b
  | .permission a, .permission b => a.sameBy f b
  | .prohibition a, .prohibition b => a.sameBy f b
  | .duty a, .duty b => a.sameBy f b
  | .action a, .action b => a.sameBy f b
  | .constraint a, .constraint b => a.sameBy f b
  | .expression a, .expression b => a.sameBy f b
  | _, _ => false

/-- The parts are equal. -/
def eqv (a b : Part) : Bool := a.sameBy Literal.eqv b

/-- The parts agree down to the types of their literals. -/
def same (a b : Part) : Bool := a.sameBy Literal.same b

end Part

end UsagePolicy
