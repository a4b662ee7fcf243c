import Mathlib.Data.List.Forall2
import UsagePolicy.Encoding.Outline
import UsagePolicy.Policy.Basic

/-!
# Policies in graphs

A value of an object graph depicts a policy if the nodes below it have the classes and the values
that the parts of the policy ask for. Nodes may be shared: what they depict is the same wherever
they stand.
-/

namespace UsagePolicy

namespace Value

/-- The literal that a value is written as. A member of a name set is written like a text. -/
def literal? : Value → Option Literal
  | .text t => some (.text t)
  | .member m => some (.text m.plain)
  | .int i => some (.int i)
  | .float d => some (.float d)
  | .bool b => some (.bool b)
  | _ => none

/-- The text that a value is, if it is not absent. -/
def optionalText? : Value → Option (Option Text)
  | .absent => some none
  | v => v.text?.map some

end Value

namespace Graph

variable (g : Graph)

/-- The value has the field, with a value as described. -/
def FieldIs (v : Value) (f : Field) (P : Value → Prop) : Prop := ∃ x, g.fieldOf v f = .ok x ∧ P x

/-- The value depicts the part that is there, and is absent if none is. -/
def DepictsOptional {α : Type} (depicts : Value → α → Prop) (v : Value) : Option α → Prop
  | none => v = .absent
  | some a => v ≠ .absent ∧ depicts v a

/-- The value is a tuple of values that depict the parts one by one. -/
def DepictsEach {α : Type} (depicts : Value → α → Prop) (v : Value) (as : List α) : Prop :=
  ∃ xs, v = .tuple xs ∧ List.Forall₂ depicts xs as

/-- The value depicts an operand. -/
def DepictsExpression (v : Value) (e : Expression) : Prop :=
  g.nodeClass? v = some .literalExpression ∧ g.FieldIs v .value fun x => x.literal? = some e.value

/-- The value depicts a comparison. -/
def DepictsAtomic (v : Value) (a : AtomicConstraint) : Prop :=
  g.nodeClass? v = some .atomicConstraint ∧
    g.FieldIs v .leftExpression (fun x => g.DepictsExpression x a.left) ∧
    g.FieldIs v .operator (fun x => x = .member (.operator a.operator)) ∧
    g.FieldIs v .rightExpression (fun x => g.DepictsExpression x a.right)

mutual

/-- The value depicts a constraint. -/
def DepictsConstraint : Value → Constraint → Prop
  | v, .atomic a => g.DepictsAtomic v a
  | v, .multiplicity k cs => g.nodeClass? v = some .multiplicityConstraint ∧
    g.FieldIs v .kind (fun x => x = .member (.multiplicityKind k)) ∧
    g.FieldIs v .constraints fun x => ∃ xs, x = .tuple xs ∧ DepictsConstraints xs cs

/-- The values depict constraints one by one. -/
def DepictsConstraints : List Value → List Constraint → Prop
  | [], [] => True
  | x :: xs, c :: cs => DepictsConstraint x c ∧ DepictsConstraints xs cs
  | _, _ => False

end

/-- The value depicts an action. -/
def DepictsAction (v : Value) (a : Action) : Prop :=
  g.nodeClass? v = some .action ∧ g.FieldIs v .type (fun x => x.text? = some a.type) ∧
    g.FieldIs v .includedIn (fun x => x.optionalText? = some a.includedIn) ∧
    g.FieldIs v .constraint fun x => DepictsOptional g.DepictsConstraint x a.refinement

/-- The value has the fields that all rules share, as the rule has them. -/
def DepictsRule (v : Value) (r : Rule) : Prop :=
  g.FieldIs v .action (fun x => DepictsOptional g.DepictsAction x r.action) ∧
    g.FieldIs v .constraints fun x => DepictsEach g.DepictsConstraint x r.constraints

/-- The value depicts a duty. -/
def DepictsDuty : Value → Duty → Prop
  | v, .mk r none => g.nodeClass? v = some .duty ∧ g.DepictsRule v r ∧
    g.FieldIs v .consequence fun x => x = .absent
  | v, .mk r (some d) => g.nodeClass? v = some .duty ∧ g.DepictsRule v r ∧
    g.FieldIs v .consequence fun x => x ≠ .absent ∧ DepictsDuty x d

/-- The value depicts a permission. -/
def DepictsPermission (v : Value) (p : Permission) : Prop :=
  g.nodeClass? v = some .permission ∧ g.DepictsRule v p.rule ∧
    g.FieldIs v .duties fun x => DepictsEach g.DepictsDuty x p.duties

/-- The value depicts a prohibition. -/
def DepictsProhibition (v : Value) (p : Prohibition) : Prop :=
  g.nodeClass? v = some .prohibition ∧ g.DepictsRule v p.rule

/-- The value depicts a policy. -/
structure Depicts (v : Value) (p : Policy) : Prop where
  policy : g.nodeClass? v = some .policy
  type : g.FieldIs v .type fun x => x = .member (.policyType p.type)
  permissions : g.FieldIs v .permissions fun x => DepictsEach g.DepictsPermission x p.permissions
  prohibitions : g.FieldIs v .prohibitions fun x =>
    DepictsEach g.DepictsProhibition x p.prohibitions
  obligations : g.FieldIs v .obligations fun x => DepictsEach g.DepictsDuty x p.obligations
  assignee : g.FieldIs v .assignee fun x => x.optionalText? = some p.assignee
  assigner : g.FieldIs v .assigner fun x => x.optionalText? = some p.assigner
  target : g.FieldIs v .target fun x => x.optionalText? = some p.target

theorem depictsConstraints_iff {xs : List Value} {cs : List Constraint} :
    g.DepictsConstraints xs cs ↔ List.Forall₂ g.DepictsConstraint xs cs := by
  induction xs generalizing cs with
  | nil => cases cs <;> simp [DepictsConstraints]
  | cons x xs ih => cases cs <;> simp [DepictsConstraints, ih]

end Graph

end UsagePolicy
