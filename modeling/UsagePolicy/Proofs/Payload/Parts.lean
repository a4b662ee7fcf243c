import UsagePolicy.Proofs.Payload.Acceptance

/-!
# Checks of the parts of policies

The check of every class of parts accepts exactly what renders a part of the class. Operands,
combinations and duties take references while they are checked; whether these find room depends on
the source and on the part, and not on how the part is rendered.
-/

namespace UsagePolicy

open Payload (openReferences?)

/-! ## Room for references -/

/-- An operand finds room. -/
def Source.FitsOperand (s : Source) (room : Nat) : Prop := (openReferences? s 1 room).isSome

mutual

/-- A constraint finds room; `count` references lead to it if it is a combination. -/
def Constraint.FitsIn (s : Source) : (count room : Nat) → Constraint → Prop
  | _, room, .atomic _ => s.FitsOperand room
  | count, room, .multiplicity _ cs =>
    ∃ rest, openReferences? s count room = some rest ∧ Constraint.AllFitIn s rest cs

/-- Members of a combination find room. -/
def Constraint.AllFitIn (s : Source) (room : Nat) : List Constraint → Prop
  | [] => True
  | c :: cs => Constraint.FitsIn s 1 room c ∧ Constraint.AllFitIn s room cs

end

theorem Constraint.allFitIn_iff {s : Source} {room : Nat} {cs : List Constraint} :
    AllFitIn s room cs ↔ ∀ c ∈ cs, FitsIn s 1 room c := by
  induction cs with
  | nil => simp [AllFitIn]
  | cons c cs ih => simp [AllFitIn, ih]

/-- An action finds room. -/
def Action.FitsIn (s : Source) (room : Nat) (a : Action) : Prop :=
  ∀ c ∈ a.refinement, Constraint.FitsIn s 2 room c

/-- The shared part of a rule finds room. -/
def Rule.FitsIn (s : Source) (room : Nat) (r : Rule) : Prop :=
  (∀ a ∈ r.action, a.FitsIn s room) ∧ ∀ c ∈ r.constraints, Constraint.FitsIn s 2 room c

/-- A duty that `count` references lead to finds room. -/
def Duty.FitsIn (s : Source) : (count room : Nat) → Duty → Prop
  | count, room, .mk r none => ∃ rest, openReferences? s count room = some rest ∧ r.FitsIn s rest
  | count, room, .mk r (some d) =>
    ∃ rest, openReferences? s count room = some rest ∧ r.FitsIn s rest ∧ Duty.FitsIn s 1 rest d

theorem Duty.fitsIn_iff {s : Source} {count room : Nat} {r : Rule} {o : Option Duty} :
    Duty.FitsIn s count room (.mk r o) ↔ ∃ rest, openReferences? s count room = some rest ∧
      r.FitsIn s rest ∧ ∀ d ∈ o, Duty.FitsIn s 1 rest d := by
  cases o <;> simp [Duty.FitsIn]

/-- A permission finds room. -/
def Permission.FitsIn (s : Source) (room : Nat) (p : Permission) : Prop :=
  p.rule.FitsIn s room ∧ ∀ d ∈ p.duties, Duty.FitsIn s 2 room d

/-- A policy finds room. -/
def Policy.FitsIn (s : Source) (room : Nat) (p : Policy) : Prop :=
  (∀ q ∈ p.permissions, q.FitsIn s room) ∧ (∀ q ∈ p.prohibitions, q.rule.FitsIn s room) ∧
    ∀ d ∈ p.obligations, Duty.FitsIn s 2 room d

namespace Payload

open Checked (both_eq_ok map_eq_ok)
open Json (Members GivenOr RendersOptional RendersEach RendersText)

variable {s : Source} {ms : Members} {given : Field → Option Json}

/-! ## Constraints -/

theorem accepts_expression (s : Source) (room : Nat) (e : Expression) :
    Accepts (expression s room) e e.Renders (s.FitsOperand room) := by
  intro v hv
  unfold expression Source.FitsOperand
  cases openReferences? s 1 room with
  | none => simp
  | some rest =>
    cases v with
    | object ms =>
      refine record_iff hv fun given found => ?_
      have tag := found.optional (f := .expressionType) (d := ()) (by decide) (fun _ => trivial)
        (accepts_constant "literal")
      have value := fun l => found.required (f := .value) (by decide) (accepts_literal l)
      obtain ⟨l⟩ := e
      simp only [Prod.exists, both_eq_ok, tag, value, and_true]
      simp
    | _ => simp [Expression.Renders, not_isNode]

theorem atomicFields_eq_ok (distinct : (Json.object ms).Distinct) (s : Source) (room : Nat)
    (a : AtomicConstraint) :
    atomicFields s room ms = .ok a ↔ a.Renders True (.object ms) ∧ s.FitsOperand room := by
  refine record_iff distinct fun given found => ?_
  have tag := found.optional (f := .constraintType) (d := ()) (by decide) (fun _ => trivial)
    (accepts_constant "atomic")
  have left := fun e => found.required (f := .leftExpression) (by decide)
    (accepts_expression s room e)
  have operator := fun o => found.required (f := .operator) (by decide) (accepts_operator o)
  have right := fun e => found.required (f := .rightExpression) (by decide)
    (accepts_expression s room e)
  obtain ⟨l, o, r⟩ := a
  simp only [Prod.exists, both_eq_ok, tag, left, operator, right, AtomicConstraint.mk.injEq]
  constructor
  · rintro ⟨_, _, _, _, ⟨tag, ⟨left, fits⟩, operator, right, -⟩, rfl, rfl, rfl⟩
    exact ⟨⟨tag.1, left, operator.1, right⟩, fits⟩
  · rintro ⟨⟨tag, left, operator, right⟩, fits⟩
    exact ⟨(), l, o, r, ⟨⟨tag, trivial⟩, ⟨left, fits⟩, ⟨operator, trivial⟩, right, fits⟩, rfl, rfl,
      rfl⟩

/-- A node with its tag is a node whose tag may be left out, with the tag that is looked at where
both kinds of constraints may stand. -/
theorem isNode_tagged {c : NodeClass} (hc : .constraintType ∈ c.fields) {t : Text}
    {P : (Field → Option Json) → Prop} :
    (Json.object ms).IsNode c
        (fun given => GivenOr False (RendersText t) (given .constraintType) ∧ P given) ↔
      tag? ms = some (.text t) ∧ (Json.object ms).IsNode c
        (fun given => GivenOr True (RendersText t) (given .constraintType) ∧ P given) := by
  constructor
  · rintro ⟨_, given, same, spell, tag, fields⟩
    cases same
    have looked := spell.tag? hc
    cases hg : given .constraintType with
    | none => exact absurd tag (by simp [hg, GivenOr])
    | some v =>
      rw [hg] at tag looked
      obtain rfl : v = .text t := tag
      exact ⟨looked, ms, given, rfl, spell, by rw [hg]; exact rfl, fields⟩
  · rintro ⟨looked, _, given, same, spell, -, fields⟩
    cases same
    refine ⟨ms, given, rfl, spell, ?_, fields⟩
    rw [← spell.tag? hc, looked]
    rfl

theorem constraint_not_object (s : Source) (count room : Nat) {v : Json} (h : ∀ ms, v ≠ .object ms)
    (c : Constraint) : constraint s count room v ≠ .ok c := by
  unfold constraint
  split
  · exact absurd rfl (h _)
  · split <;> simp

theorem constraint_object (s : Source) (count room : Nat) (ms : Members) (c : Constraint) :
    constraint s count room (.object ms) = .ok c ↔
      (tag? ms = some (.text "atomic") ∧
        ∃ a, atomicFields s room ms = .ok a ∧ Constraint.atomic a = c) ∨
      (tag? ms = some (.text "multiplicity") ∧
        ∃ rest, openReferences? s count room = some rest ∧
          multiplicityFields s rest ms = .ok c) := by
  have differ : ("atomic" : Text) ≠ "multiplicity" := by decide
  rw [constraint]
  split
  · next tag => simp [tag]
  · next t tag =>
    by_cases atomic : t = "atomic"
    · subst atomic
      simp [tag, differ, map_eq_ok]
    · by_cases multiplicity : t = "multiplicity"
      · subst multiplicity
        rw [if_neg differ.symm, if_pos rfl, Checked.under_eq_ok]
        cases openReferences? s count room <;> simp [tag, differ.symm]
      · simp [tag, atomic, multiplicity]
  · next v other tag =>
    have other : ∀ t, v ≠ .text t := other
    simp [tag, other]

/-- The members of a combination are checked as the items of any other array. -/
theorem constraints_eq_items (s : Source) (room i : Nat) (vs : List Json) :
    constraints s room i vs = items (constraint s 1 room) i vs := by
  induction vs generalizing i with
  | nil => rw [constraints, items]
  | cons v vs ih => rw [constraints, items, ih]

theorem multiplicityFields_eq (s : Source) (room : Nat) (ms : Members) :
    multiplicityFields s room ms =
      record .multiplicityConstraint ms (fun p => .multiplicity p.2.1 p.2.2)
        ((optional ms .constraintType () (constant "multiplicity")).both
          ((required ms .kind multiplicityKind).both
            (optional ms .constraints [] (sequence s (constraint s 1 room))))) := by
  rw [multiplicityFields]
  congr 2
  congr 1
  unfold optional
  split <;> simp [*, sequence, constraints_eq_items, Checked.under, Checked.fail]

/-- The members of a combination are checked as the combination has them, if each of them is. -/
theorem multiplicityFields_eq_ok (distinct : (Json.object ms).Distinct) {room : Nat}
    {k : MultiplicityKind} {cs : List Constraint}
    (accepts : ∀ c ∈ cs,
      Accepts (constraint s 1 room) c c.RendersTagged (Constraint.FitsIn s 1 room c)) :
    multiplicityFields s room ms = .ok (.multiplicity k cs) ↔
      (Constraint.multiplicity k cs).Renders True (.object ms) ∧
        Constraint.AllFitIn s room cs := by
  rw [multiplicityFields_eq, Constraint.renders_multiplicity, Constraint.allFitIn_iff]
  refine record_iff distinct fun given found => ?_
  have tag := found.optional (f := .constraintType) (d := ()) (by decide) (fun _ => trivial)
    (accepts_constant "multiplicity")
  have kind := fun k => found.required (f := .kind) (by decide) (accepts_multiplicityKind k)
  have members := found.list (f := .constraints) (by decide) s cs accepts
  simp only [Prod.exists, both_eq_ok, tag, kind, Constraint.multiplicity.injEq]
  constructor
  · rintro ⟨_, _, _, ⟨tag, kind, given⟩, rfl, rfl⟩
    obtain ⟨renders, fits⟩ := members.mp given
    exact ⟨⟨tag.1, kind.1, renders⟩, fits⟩
  · rintro ⟨⟨tag, kind, renders⟩, fits⟩
    exact ⟨(), k, cs, ⟨⟨tag, trivial⟩, ⟨kind, trivial⟩, members.mpr ⟨renders, fits⟩⟩, rfl, rfl⟩

theorem exists_multiplicity_of_ok {room : Nat} {c : Constraint}
    (h : multiplicityFields s room ms = .ok c) : ∃ k cs, c = .multiplicity k cs := by
  rw [multiplicityFields_eq] at h
  unfold record at h
  split at h
  · obtain ⟨-, p, -, rfl⟩ := Checked.build_eq_ok.mp h
    exact ⟨_, _, rfl⟩
  · cases h

/-- A constraint is accepted where both kinds may stand. -/
theorem accepts_constraint (s : Source) (count room : Nat) (c : Constraint) :
    Accepts (constraint s count room) c c.RendersTagged (Constraint.FitsIn s count room c) := by
  intro v hv
  by_cases object : ∃ ms, v = .object ms
  · obtain ⟨ms, rfl⟩ := object
    rw [constraint_object]
    cases c with
    | atomic a =>
      have other : ∀ rest, multiplicityFields s rest ms ≠ .ok (.atomic a) := by
        intro rest h
        obtain ⟨k, cs, same⟩ := exists_multiplicity_of_ok h
        cases same
      simp only [Constraint.atomic.injEq, exists_eq_right, other, and_false, exists_false, or_false,
        atomicFields_eq_ok hv, Constraint.RendersTagged, Constraint.Renders, Constraint.FitsIn]
      rw [← and_assoc]
      exact and_congr_left' (isNode_tagged (by decide)).symm
    | multiplicity k cs =>
      have accepts : ∀ rest, ∀ c ∈ cs,
          Accepts (constraint s 1 rest) c c.RendersTagged (Constraint.FitsIn s 1 rest c) :=
        fun rest c _ => accepts_constraint s 1 rest c
      have fields := fun rest => multiplicityFields_eq_ok hv (k := k) (accepts rest)
      simp only [reduceCtorEq, and_false, exists_false, false_or, fields,
        Constraint.RendersTagged, Constraint.Renders, Constraint.FitsIn]
      rw [isNode_tagged (by decide)]
      constructor
      · rintro ⟨tag, rest, open', renders, fits⟩
        exact ⟨⟨tag, renders⟩, rest, open', fits⟩
      · rintro ⟨⟨tag, renders⟩, rest, open', fits⟩
        exact ⟨tag, rest, open', renders, fits⟩
  · have object : ∀ ms, v ≠ .object ms := fun ms same => object ⟨ms, same⟩
    have unrendered : ¬ c.RendersTagged v := by
      intro renders
      obtain ⟨_, _, node⟩ := Constraint.Renders.isNode renders
      exact not_isNode object node
    simp [constraint_not_object s count room object c, unrendered]

/-! ## Rules and policies -/

theorem accepts_action (s : Source) (room : Nat) (a : Action) :
    Accepts (action s room) a a.Renders (a.FitsIn s room) := by
  intro v hv
  unfold action
  split
  · next ms =>
    refine record_iff hv fun given found => ?_
    have type := fun t => found.required (f := .type) (by decide) (accepts_text t)
    have includedIn := fun o => found.optionText (f := .includedIn) (by decide) o
    have refinement := fun o : Option Constraint => found.option (f := .constraint) (by decide) o
      (fun c _ => accepts_constraint s 2 room c) fun c _ renders => by
        obtain ⟨_, _, node⟩ := Constraint.Renders.isNode renders
        exact node.ne_null rfl
    obtain ⟨t, i, r⟩ := a
    simp only [Prod.exists, both_eq_ok, type, includedIn, refinement, Action.mk.injEq]
    constructor
    · rintro ⟨_, _, _, ⟨type, includedIn, refinement, fits⟩, rfl, rfl, rfl⟩
      exact ⟨⟨type.1, includedIn, refinement⟩, fits⟩
    · rintro ⟨⟨type, includedIn, refinement⟩, fits⟩
      exact ⟨t, i, r, ⟨⟨type, trivial⟩, includedIn, refinement, fits⟩, rfl, rfl, rfl⟩
  · next object =>
    simp [Action.Renders, not_isNode object]

/-- The shared part of a rule is checked as the rule has it, in every class of rules. -/
theorem ruleFields_eq_ok {c : NodeClass} (found : Found ms c given) (ha : .action ∈ c.fields)
    (hc : .constraints ∈ c.fields) (s : Source) (room : Nat) (r : Rule) :
    ruleFields s room ms = .ok r ↔ r.RendersFields given ∧ r.FitsIn s room := by
  have action := fun o : Option Action => found.option ha o
    (fun a _ => accepts_action s room a) fun a _ (renders : a.Renders .null) => renders.ne_null rfl
  have constraints := fun cs : List Constraint => found.list hc s cs
    fun c _ => accepts_constraint s 2 room c
  obtain ⟨a, cs⟩ := r
  simp only [ruleFields, constraintSequence, map_eq_ok, Prod.exists, both_eq_ok, action,
    constraints, Rule.mk.injEq]
  constructor
  · rintro ⟨_, _, ⟨⟨action, fits⟩, constraints, fits'⟩, rfl, rfl⟩
    exact ⟨⟨action, constraints⟩, fits, fits'⟩
  · rintro ⟨⟨action, constraints⟩, fits, fits'⟩
    exact ⟨a, cs, ⟨⟨action, fits⟩, constraints, fits'⟩, rfl, rfl⟩

theorem duty_object (s : Source) {count room rest : Nat}
    (h : openReferences? s count room = some rest) (ms : Members) :
    duty s count room (.object ms) =
      record .duty ms (fun p => .mk p.1 p.2) ((ruleFields s rest ms).both
        (optional ms .consequence none (nullable (duty s 1 rest)))) := by
  rw [duty, h]
  simp only
  congr 1
  congr 1
  unfold optional
  split <;> simp [*, nullable, Checked.under]

theorem duty_not_object {count room : Nat} {v : Json} (h : ∀ ms, v ≠ .object ms) (d : Duty) :
    duty s count room v ≠ .ok d := by
  rw [duty]
  split
  · simp
  · split
    · exact absurd rfl (h _)
    · simp

theorem accepts_duty (s : Source) (count room : Nat) (d : Duty) :
    Accepts (duty s count room) d d.Renders (Duty.FitsIn s count room d) := by
  intro v hv
  by_cases object : ∃ ms, v = .object ms
  · obtain ⟨ms, rfl⟩ := object
    cases hr : openReferences? s count room with
    | none =>
      rw [duty, hr]
      obtain ⟨r, o⟩ := d
      simp [Duty.fitsIn_iff, hr]
    | some rest =>
      rw [duty_object s hr]
      obtain ⟨r, o⟩ := d
      have accepts : ∀ d ∈ o, Accepts (duty s 1 rest) d d.Renders (Duty.FitsIn s 1 rest d) :=
        fun d _ => accepts_duty s 1 rest d
      have fields : ∀ given, Found ms .duty given → ((∃ p, ((ruleFields s rest ms).both
          (optional ms .consequence none (nullable (duty s 1 rest)))) = .ok p ∧
            Duty.mk p.1 p.2 = .mk r o) ↔
          (r.RendersFields given ∧ GivenOr (o = none) (RendersOptional Duty.Renders o)
            (given .consequence)) ∧ r.FitsIn s rest ∧ ∀ d ∈ o, Duty.FitsIn s 1 rest d) := by
        intro given found
        have consequence := found.option (f := .consequence) (by decide) o accepts
          fun d _ (renders : d.Renders .null) => by
            obtain ⟨_, node⟩ := Duty.Renders.isNode renders
            exact node.ne_null rfl
        have rule := ruleFields_eq_ok found (by decide) (by decide) s rest
        simp only [Prod.exists, both_eq_ok, rule, Duty.mk.injEq]
        constructor
        · rintro ⟨_, _, ⟨⟨fields, fits⟩, given⟩, rfl, rfl⟩
          obtain ⟨renders, fits'⟩ := consequence.mp given
          exact ⟨⟨fields, renders⟩, fits, fits'⟩
        · rintro ⟨⟨fields, renders⟩, fits, fits'⟩
          exact ⟨r, o, ⟨⟨fields, fits⟩, consequence.mpr ⟨renders, fits'⟩⟩, rfl, rfl⟩
      rw [record_iff hv fields, Duty.renders_iff, Duty.fitsIn_iff, hr]
      simp
  · have object : ∀ ms, v ≠ .object ms := fun ms same => object ⟨ms, same⟩
    have unrendered : ¬ d.Renders v := by
      intro renders
      obtain ⟨_, node⟩ := Duty.Renders.isNode renders
      exact not_isNode object node
    simp [duty_not_object object d, unrendered]

theorem accepts_rule (s : Source) (room : Nat) (r : Rule) :
    Accepts (rule s room) r r.Renders (r.FitsIn s room) := by
  intro v hv
  unfold rule
  split
  · refine record_iff hv fun given found => ?_
    simp only [id_eq, exists_eq_right]
    exact ruleFields_eq_ok found (by decide) (by decide) s room r
  · next object => simp [Rule.Renders, not_isNode object]

theorem accepts_prohibition (s : Source) (room : Nat) (p : Prohibition) :
    Accepts (prohibition s room) p p.Renders (p.rule.FitsIn s room) := by
  intro v hv
  unfold prohibition
  split
  · refine record_iff hv fun given found => ?_
    obtain ⟨r⟩ := p
    simp only [Prohibition.mk.injEq, exists_eq_right]
    exact ruleFields_eq_ok found (by decide) (by decide) s room r
  · next object => simp [Prohibition.Renders, not_isNode object]

theorem accepts_permission (s : Source) (room : Nat) (p : Permission) :
    Accepts (permission s room) p p.Renders (p.FitsIn s room) := by
  intro v hv
  unfold permission
  split
  · refine record_iff hv fun given found => ?_
    have duties := fun ds => found.list (f := .duties) (by decide) s ds
      fun d _ => accepts_duty s 2 room d
    have rule := ruleFields_eq_ok found (by decide) (by decide) s room
    obtain ⟨r, ds⟩ := p
    simp only [Prod.exists, both_eq_ok, rule, duties, Permission.mk.injEq]
    constructor
    · rintro ⟨_, _, ⟨⟨fields, fits⟩, duties, fits'⟩, rfl, rfl⟩
      exact ⟨⟨fields, duties⟩, fits, fits'⟩
    · rintro ⟨⟨fields, duties⟩, fits, fits'⟩
      exact ⟨r, ds, ⟨⟨fields, fits⟩, duties, fits'⟩, rfl, rfl⟩
  · next object => simp [Permission.Renders, not_isNode object]

theorem accepts_policy (s : Source) (room : Nat) (p : Policy) :
    Accepts (policy s room) p p.Renders (p.FitsIn s room) := by
  intro v hv
  unfold policy
  split
  · refine record_iff hv fun given found => ?_
    have type := fun t => found.optional (f := .type) (d := .set) (by decide) (fun _ => trivial)
      (accepts_policyType t)
    have permissions := fun ps => found.list (f := .permissions) (by decide) s ps
      fun p _ => accepts_permission s room p
    have prohibitions := fun ps => found.list (f := .prohibitions) (by decide) s ps
      fun p _ => accepts_prohibition s room p
    have obligations := fun ds => found.list (f := .obligations) (by decide) s ds
      fun d _ => accepts_duty s 2 room d
    have assignee := fun o => found.optionText (f := .assignee) (by decide) o
    have assigner := fun o => found.optionText (f := .assigner) (by decide) o
    have target := fun o => found.optionText (f := .target) (by decide) o
    obtain ⟨t, ps, qs, ds, a, b, o⟩ := p
    simp only [Prod.exists, both_eq_ok, type, permissions, prohibitions, obligations, assignee,
      assigner, target, Policy.mk.injEq]
    constructor
    · rintro ⟨_, _, _, _, _, _, _, ⟨type, ⟨permissions, fits⟩, ⟨prohibitions, fits'⟩,
        ⟨obligations, fits''⟩, assignee, assigner, target⟩, rfl, rfl, rfl, rfl, rfl, rfl, rfl⟩
      exact ⟨⟨type.1, permissions, prohibitions, obligations, assignee, assigner, target⟩, fits,
        fits', fits''⟩
    · rintro ⟨⟨type, permissions, prohibitions, obligations, assignee, assigner, target⟩, fits,
        fits', fits''⟩
      exact ⟨t, ps, qs, ds, a, b, o, ⟨⟨type, trivial⟩, ⟨permissions, fits⟩, ⟨prohibitions, fits'⟩,
        ⟨obligations, fits''⟩, assignee, assigner, target⟩, rfl, rfl, rfl, rfl, rfl, rfl, rfl⟩
  · next object => simp [Policy.Renders, not_isNode object]

end Payload

end UsagePolicy
