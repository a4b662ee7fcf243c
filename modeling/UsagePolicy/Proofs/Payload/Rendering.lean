import Mathlib.Data.List.Forall2
import UsagePolicy.Json.Basic
import UsagePolicy.Policy.Equality

/-!
# Renderings of policies

A payload renders a part of a policy if it says of every field what the part has there. A field
stands under either of its two keys, the members of an object stand in any order, and a field with
its default may be left out. Only the tag of a constraint that stands where both kinds of
constraints may stand is always given.
-/

namespace UsagePolicy

/-- The field may be given under the key. -/
def Field.IsKey (f : Field) (k : Text) : Prop := k = f.wireName ∨ k = f.name

namespace Json

variable {α : Type}

/-- The members give fields of a class the values: each field that has one stands under exactly one
of its keys, in any order, and nothing else is there. -/
structure Spell (ms : Members) (c : NodeClass) (given : Field → Option Json) : Prop where
  distinct : (ms.map Prod.fst).Nodup
  known : ∀ m ∈ ms, ∃ f ∈ c.fields, f.IsKey m.1 ∧ given f = some m.2
  spelled : ∀ f ∈ c.fields, (given f).isSome → ∃! m, m ∈ ms ∧ f.IsKey m.1

/-- The value is an object that gives fields of a class values as described. -/
def IsNode (v : Json) (c : NodeClass) (fields : (Field → Option Json) → Prop) : Prop :=
  ∃ ms given, v = .object ms ∧ Spell ms c given ∧ fields given

/-- The field is left out where it may be so, or its value is as described. -/
def GivenOr (omitted : Prop) (P : Json → Prop) : Option Json → Prop
  | none => omitted
  | some v => P v

/-- The value renders the part that is there, and is null if none is. -/
def RendersOptional (renders : α → Json → Prop) : Option α → Json → Prop
  | none, v => v = .null
  | some a, v => renders a v

/-- The value is an array of values that render the parts one by one. -/
def RendersEach (renders : α → Json → Prop) (as : List α) (v : Json) : Prop :=
  ∃ vs, v = .array vs ∧ List.Forall₂ renders as vs

/-- The value is the text. -/
def RendersText (t : Text) (v : Json) : Prop := v = .text t

end Json

open Json (GivenOr RendersOptional RendersEach RendersText)

/-- The JSON form of a literal. -/
def Literal.json : Literal → Json
  | .text t => .text t
  | .int i => .int i
  | .float d => .float d
  | .bool b => .bool b

/-- The value renders an operand. -/
def Expression.Renders (e : Expression) (v : Json) : Prop :=
  v.IsNode .literalExpression fun given =>
    GivenOr True (RendersText "literal") (given .expressionType) ∧
    GivenOr False (· = e.value.json) (given .value)

/-- The value renders a comparison, whose tag may be left out under a condition. -/
def AtomicConstraint.Renders (a : AtomicConstraint) (untagged : Prop) (v : Json) : Prop :=
  v.IsNode .atomicConstraint fun given =>
    GivenOr untagged (RendersText "atomic") (given .constraintType) ∧
    GivenOr False a.left.Renders (given .leftExpression) ∧
    GivenOr False (RendersText a.operator.name) (given .operator) ∧
    GivenOr False a.right.Renders (given .rightExpression)

mutual

/-- The value renders a constraint, whose tag may be left out under a condition. -/
def Constraint.Renders : Constraint → (untagged : Prop) → Json → Prop
  | .atomic a, untagged, v => a.Renders untagged v
  | .multiplicity k cs, untagged, v => v.IsNode .multiplicityConstraint fun given =>
    GivenOr untagged (RendersText "multiplicity") (given .constraintType) ∧
    GivenOr False (RendersText k.name) (given .kind) ∧
    GivenOr (cs = []) (fun w => ∃ vs, w = .array vs ∧ Constraint.RenderAll cs vs)
      (given .constraints)

/-- The values render constraints one by one. -/
def Constraint.RenderAll : List Constraint → List Json → Prop
  | [], [] => True
  | c :: cs, v :: vs => c.Renders False v ∧ Constraint.RenderAll cs vs
  | _, _ => False

end

/-- The value renders a constraint where both kinds may stand. -/
def Constraint.RendersTagged (c : Constraint) (v : Json) : Prop := c.Renders False v

/-- The value renders an action. -/
def Action.Renders (a : Action) (v : Json) : Prop :=
  v.IsNode .action fun given =>
    GivenOr False (RendersText a.type) (given .type) ∧
    GivenOr (a.includedIn = none) (RendersOptional RendersText a.includedIn) (given .includedIn) ∧
    GivenOr (a.refinement = none) (RendersOptional Constraint.RendersTagged a.refinement)
      (given .constraint)

/-- The fields that all rules share are given as the rule has them. -/
def Rule.RendersFields (r : Rule) (given : Field → Option Json) : Prop :=
  GivenOr (r.action = none) (RendersOptional Action.Renders r.action) (given .action) ∧
  GivenOr (r.constraints = []) (RendersEach Constraint.RendersTagged r.constraints)
    (given .constraints)

/-- The value renders a rule of no particular kind. -/
def Rule.Renders (r : Rule) (v : Json) : Prop := v.IsNode .rule r.RendersFields

/-- The value renders a duty. -/
def Duty.Renders : Duty → Json → Prop
  | .mk r none, v => v.IsNode .duty fun given =>
    r.RendersFields given ∧ GivenOr True (· = .null) (given .consequence)
  | .mk r (some d), v => v.IsNode .duty fun given =>
    r.RendersFields given ∧ GivenOr False d.Renders (given .consequence)

/-- The value renders a permission. -/
def Permission.Renders (p : Permission) (v : Json) : Prop :=
  v.IsNode .permission fun given =>
    p.rule.RendersFields given ∧
    GivenOr (p.duties = []) (RendersEach Duty.Renders p.duties) (given .duties)

/-- The value renders a prohibition. -/
def Prohibition.Renders (p : Prohibition) (v : Json) : Prop :=
  v.IsNode .prohibition p.rule.RendersFields

/-- The fields of a policy are given as the policy has them. -/
structure Policy.RendersFields (p : Policy) (given : Field → Option Json) : Prop where
  type : GivenOr (p.type = .set) (RendersText p.type.name) (given .type)
  permissions : GivenOr (p.permissions = []) (RendersEach Permission.Renders p.permissions)
    (given .permissions)
  prohibitions : GivenOr (p.prohibitions = []) (RendersEach Prohibition.Renders p.prohibitions)
    (given .prohibitions)
  obligations : GivenOr (p.obligations = []) (RendersEach Duty.Renders p.obligations)
    (given .obligations)
  assignee : GivenOr (p.assignee = none) (RendersOptional RendersText p.assignee) (given .assignee)
  assigner : GivenOr (p.assigner = none) (RendersOptional RendersText p.assigner) (given .assigner)
  target : GivenOr (p.target = none) (RendersOptional RendersText p.target) (given .target)

/-- The value renders a policy. -/
def Policy.Renders (p : Policy) (v : Json) : Prop := v.IsNode .policy p.RendersFields

/-! ## Values that render a part -/

theorem Json.IsNode.imp {v : Json} {c : NodeClass} {P Q : (Field → Option Json) → Prop}
    (h : v.IsNode c P) (hPQ : ∀ given, P given → Q given) : v.IsNode c Q := by
  obtain ⟨ms, given, same, spell, fields⟩ := h
  exact ⟨ms, given, same, spell, hPQ given fields⟩

theorem Json.GivenOr.mono {o o' : Prop} {P Q : Json → Prop} {x : Option Json} (h : GivenOr o P x)
    (ho : o → o') (hPQ : ∀ v, P v → Q v) : GivenOr o' Q x := by
  cases x with
  | none => exact ho h
  | some v => exact hPQ v h

theorem Constraint.renderAll_iff {cs : List Constraint} {vs : List Json} :
    Constraint.RenderAll cs vs ↔ List.Forall₂ Constraint.RendersTagged cs vs := by
  induction cs generalizing vs with
  | nil => cases vs <;> simp [RenderAll]
  | cons c cs ih => cases vs <;> simp [RenderAll, ih, RendersTagged]

theorem Constraint.renders_multiplicity {k : MultiplicityKind} {cs : List Constraint}
    {untagged : Prop} {v : Json} :
    (Constraint.multiplicity k cs).Renders untagged v ↔ v.IsNode .multiplicityConstraint
      fun given => GivenOr untagged (RendersText "multiplicity") (given .constraintType) ∧
        GivenOr False (RendersText k.name) (given .kind) ∧
        GivenOr (cs = []) (RendersEach Constraint.RendersTagged cs) (given .constraints) := by
  rw [Constraint.Renders]
  simp only [Constraint.renderAll_iff]
  exact Iff.rfl

/-- A part that is there is rendered by the value of its field. -/
theorem Json.GivenOr.option {α : Type} {R : α → Json → Prop} {o : Option α} {x : Option Json}
    (h : GivenOr (o = none) (RendersOptional R o) x) {a : α} (ha : a ∈ o) :
    ∃ v, x = some v ∧ R a v := by
  obtain rfl := Option.mem_def.mp ha
  cases x with
  | none => cases h
  | some v => exact ⟨v, rfl, h⟩

theorem exists_of_mem_left {α β : Type} {R : α → β → Prop} {as : List α} {bs : List β}
    (h : List.Forall₂ R as bs) {a : α} (ha : a ∈ as) : ∃ b ∈ bs, R a b := by
  induction h with
  | nil => cases ha
  | cons hab _ ih =>
    rcases List.mem_cons.mp ha with rfl | ha
    · exact ⟨_, List.mem_cons_self, hab⟩
    · obtain ⟨b, hb, related⟩ := ih ha
      exact ⟨b, List.mem_cons_of_mem _ hb, related⟩

/-- A part of a list is rendered by an item in the value of its field. -/
theorem Json.GivenOr.list {α : Type} {R : α → Json → Prop} {as : List α} {x : Option Json}
    (h : GivenOr (as = []) (RendersEach R as) x) {a : α} (ha : a ∈ as) :
    ∃ vs v, x = some (.array vs) ∧ v ∈ vs ∧ R a v := by
  cases x with
  | none =>
    obtain rfl : as = [] := h
    cases ha
  | some w =>
    obtain ⟨vs, rfl, each⟩ := h
    obtain ⟨v, hv, renders⟩ := exists_of_mem_left each ha
    exact ⟨vs, v, rfl, hv, renders⟩

theorem Json.IsNode.ne_null {v : Json} {c : NodeClass} {P : (Field → Option Json) → Prop}
    (h : v.IsNode c P) : v ≠ .null := by
  obtain ⟨ms, given, rfl, -⟩ := h
  nofun

theorem Constraint.Renders.isNode {c : Constraint} {untagged : Prop} {v : Json}
    (h : c.Renders untagged v) : ∃ d P, v.IsNode d P := by
  cases c with
  | atomic a =>
    rw [Constraint.Renders] at h
    exact ⟨_, _, h⟩
  | multiplicity k cs =>
    rw [Constraint.Renders] at h
    exact ⟨_, _, h⟩

theorem Duty.renders_iff {r : Rule} {o : Option Duty} {v : Json} :
    (Duty.mk r o).Renders v ↔ v.IsNode .duty fun given => r.RendersFields given ∧
      GivenOr (o = none) (RendersOptional Duty.Renders o) (given .consequence) := by
  cases o with
  | none =>
    rw [Duty.Renders, eq_self]
    exact Iff.rfl
  | some d =>
    rw [Duty.Renders, eq_false (Option.some_ne_none d)]
    exact Iff.rfl

theorem Duty.Renders.isNode {d : Duty} {v : Json} (h : d.Renders v) : ∃ P, v.IsNode .duty P := by
  obtain ⟨r, o⟩ := d
  exact ⟨_, Duty.renders_iff.mp h⟩

end UsagePolicy
