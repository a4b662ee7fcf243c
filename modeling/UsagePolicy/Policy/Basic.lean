import UsagePolicy.Policy.Vocabulary
import UsagePolicy.Number.Double

/-!
# Policies

The policy model that payloads are checked into: trees of rules, actions, constraints and literal
expressions. A duty may have a consequence, which is again a duty, and a multiplicity constraint has
member constraints; all other nesting is fixed.
-/

namespace UsagePolicy

/-- The value of a literal expression keeps the type it was written with. -/
inductive Literal
  | text (t : Text)
  | int (i : Int)
  | float (d : Double)
  | bool (b : Bool)
deriving DecidableEq, Repr

/-- An operand. Literals are the only ones. -/
structure Expression where
  value : Literal
deriving DecidableEq, Repr

/-- A comparison of two operands. -/
structure AtomicConstraint where
  left : Expression
  operator : Operator
  right : Expression
deriving DecidableEq, Repr

/-- A comparison, or a combination of constraints. -/
inductive Constraint
  | atomic (a : AtomicConstraint)
  | multiplicity (kind : MultiplicityKind) (members : List Constraint)

/-- What a rule is about; `refinement` narrows it. -/
structure Action where
  type : Text
  includedIn : Option Text
  refinement : Option Constraint

/-- What permissions, prohibitions and duties share. -/
structure Rule where
  action : Option Action
  constraints : List Constraint

/-- A rule to be fulfilled, and the duty that applies if it is not. -/
inductive Duty
  | mk (rule : Rule) (consequence : Option Duty)

/-- The shared part of a duty. -/
def Duty.rule : Duty → Rule
  | .mk r _ => r

/-- The duty that applies if the duty is not fulfilled. -/
def Duty.consequence : Duty → Option Duty
  | .mk _ c => c

/-- A rule that allows its action, with the duties that come with it. -/
structure Permission where
  rule : Rule
  duties : List Duty

/-- A rule that forbids its action. -/
structure Prohibition where
  rule : Rule

/-- A policy. Participants are identifiers of their own, the target is that of an asset. -/
structure Policy where
  type : PolicyType
  permissions : List Permission
  prohibitions : List Prohibition
  obligations : List Duty
  assignee : Option Text
  assigner : Option Text
  target : Option Text

end UsagePolicy
