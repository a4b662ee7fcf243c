import UsagePolicy.Proofs.Encoding.Depiction
import UsagePolicy.Proofs.Encoding.Nesting

/-!
# Unfolding well-typed policies

A well-typed policy whose chains are bounded depicts a policy: its nodes can be unfolded into the
parts of a tree. The induction is on the bound, which goes down with every rule and constraint that
is entered.
-/

namespace UsagePolicy

namespace Graph

variable {g : Graph} {v x y : Value} {s : PathStep} {front : List PathStep} {n : Nat}
  {c : NodeClass} {f : Field}

/-- A value below a well-typed policy, and a bound on the chains below the value. -/
structure Below (g : Graph) (v : Value) (n : Nat) (x : Value) : Prop where
  reached : ∃ front, g.reach? v front = some x
  bounded : ∀ ss y, g.reach? x ss = some y → PathStep.depth ss ≤ n

theorem Below.follow (h : g.Below v n x) (hy : g.follow? x s = some y) : g.Below v n y where
  reached := by
    obtain ⟨front, hx⟩ := h.reached
    exact ⟨front ++ [s], reach?_snoc hx hy⟩
  bounded := by
    intro ss z hz
    have bounded := h.bounded (s :: ss) z (reach?_cons_eq_some.mpr ⟨y, hy, hz⟩)
    rw [PathStep.depth_cons] at bounded
    omega

/-- Where a step enters a rule or a constraint, the bound goes down. -/
theorem Below.enter (h : g.Below v n x) (hs : s.enters = true) (hy : g.follow? x s = some y) :
    ∃ m, n = m + 1 ∧ g.Below v m y := by
  have entered : ∀ ss z, g.reach? y ss = some z → PathStep.depth ss + 1 ≤ n := by
    intro ss z hz
    have bounded := h.bounded (s :: ss) z (reach?_cons_eq_some.mpr ⟨y, hy, hz⟩)
    rwa [PathStep.depth_cons, if_pos hs] at bounded
  have positive := entered [] y rfl
  refine ⟨n - 1, by omega, (h.follow hy).reached, ?_⟩
  intro ss z hz
  have bounded := entered ss z hz
  omega

/-! ## Fields -/

theorem Below.field (h : g.Below v n x) (typed : g.WellTyped v) (hc : g.nodeClass? x = some c)
    (hf : f ∈ c.fields) : ∃ y, g.fieldOf x f = .ok y ∧ g.HasType y (c.fieldType f) := by
  obtain ⟨front, hx⟩ := h.reached
  exact typed.field hx hc hf

theorem exists_forall₂ {α β : Type} {R : α → β → Prop} {xs : List α}
    (h : ∀ x ∈ xs, ∃ a, R x a) : ∃ as, List.Forall₂ R xs as := by
  induction xs with
  | nil => exact ⟨[], .nil⟩
  | cons x xs ih =>
    obtain ⟨a, ha⟩ := h x (List.mem_cons_self ..)
    obtain ⟨as, has⟩ := ih fun y member => h y (List.mem_cons_of_mem _ member)
    exact ⟨a :: as, .cons ha has⟩

/-- A field that may be absent depicts a part, if the value it leads to does. -/
theorem Below.exists_optional {α : Type} {depicts : Value → α → Prop} {t : FieldType}
    (h : g.Below v n x) (typed : g.WellTyped v) (hc : g.nodeClass? x = some c)
    (hf : s.field ∈ c.fields) (ht : c.fieldType s.field = .optional t) (hi : s.index? = none)
    (opens : g.opens x s = true)
    (each : ∀ y, g.follow? x s = some y → g.HasType y t → ∃ a, depicts y a) :
    ∃ o, g.FieldIs x s.field fun y => DepictsOptional depicts y o := by
  obtain ⟨y, hy, ytyped⟩ := h.field typed hc hf
  rw [ht] at ytyped
  by_cases absent : y = .absent
  · exact ⟨none, y, hy, absent⟩
  · obtain ⟨a, ha⟩ := each y ((follow?_of_single hi).mpr ⟨opens, hy, fun _ => absent⟩)
      (ytyped.resolve_left absent)
    exact ⟨some a, y, hy, absent, ha⟩

/-- A field that holds items depicts parts, if the values it leads to do. -/
theorem Below.exists_each {α : Type} {depicts : Value → α → Prop} {t : FieldType}
    (h : g.Below v n x) (f : Field) (step : Nat → PathStep) (typed : g.WellTyped v)
    (hc : g.nodeClass? x = some c) (hf : f ∈ c.fields) (ht : c.fieldType f = .tuple t)
    (hi : ∀ i, (step i).index? = some i ∧ (step i).field = f ∧ g.opens x (step i) = true)
    (each : ∀ i y, g.follow? x (step i) = some y → g.HasType y t → ∃ a, depicts y a) :
    ∃ as, g.FieldIs x f fun y => DepictsEach depicts y as := by
  obtain ⟨y, hy, ytyped⟩ := h.field typed hc hf
  rw [ht] at ytyped
  obtain ⟨xs, rfl, items⟩ := ytyped
  have depicted : ∀ z ∈ xs, ∃ a, depicts z a := by
    intro z member
    obtain ⟨i, hz⟩ := List.mem_iff_getElem?.mp member
    obtain ⟨index, field, opens⟩ := hi i
    refine each i z ((follow?_of_index index).mpr ⟨opens, .tuple xs, xs, ?_, rfl, hz⟩)
      (items z member)
    rw [field, hy]
  obtain ⟨as, has⟩ := exists_forall₂ depicted
  exact ⟨as, .tuple xs, hy, xs, rfl, has⟩

theorem exists_optionalText (h : g.HasType x (.optional .text)) :
    ∃ o, x.optionalText? = some o := by
  rcases h with rfl | text
  · exact ⟨none, rfl⟩
  · obtain ⟨t, ht⟩ := Option.isSome_iff_exists.mp text
    refine ⟨some t, ?_⟩
    cases x <;> simp [Value.text?] at ht <;> simp [Value.optionalText?, Value.text?, ht]

theorem exists_literal (h : g.HasType x .literal) : ∃ l, x.literal? = some l := by
  cases x with
  | text t => exact ⟨_, rfl⟩
  | member m => exact ⟨_, rfl⟩
  | int i => exact ⟨_, rfl⟩
  | float d => exact ⟨_, rfl⟩
  | bool b => exact ⟨_, rfl⟩
  | _ => exact absurd h id

/-! ## Constraints -/

theorem Below.exists_expression (h : g.Below v n x) (typed : g.WellTyped v)
    (ht : g.HasType x (.node .literalExpression)) : ∃ e, g.DepictsExpression x e := by
  have hc := nodeClass?_of_hasType ht (by decide)
  obtain ⟨y, hy, literal⟩ := h.field (f := .value) typed hc (by decide)
  obtain ⟨l, hl⟩ := exists_literal literal
  exact ⟨⟨l⟩, hc, y, hy, hl⟩

theorem Below.exists_atomic (h : g.Below v n x) (typed : g.WellTyped v)
    (hc : g.nodeClass? x = some .atomicConstraint) : ∃ a, g.DepictsAtomic x a := by
  have operand : ∀ s : PathStep, s = .leftOperand ∨ s = .rightOperand →
      ∃ e, g.FieldIs x s.field fun y => g.DepictsExpression y e := by
    intro s hs
    have declared : s.field ∈ NodeClass.atomicConstraint.fields ∧
        NodeClass.atomicConstraint.fieldType s.field = .node .literalExpression ∧
        g.opens x s = true ∧ s.index? = none ∧ s.isOptional = false := by
      rcases hs with rfl | rfl <;> simp [PathStep.field, NodeClass.fields, NodeClass.fieldType,
        opens, hc, PathStep.index?, PathStep.isOptional]
    obtain ⟨hf, ht, opens, hi, ho⟩ := declared
    obtain ⟨y, hy, ytyped⟩ := h.field typed hc hf
    rw [ht] at ytyped
    have below := h.follow ((follow?_of_single hi).mpr ⟨opens, hy, by simp [ho]⟩)
    obtain ⟨e, he⟩ := below.exists_expression typed ytyped
    exact ⟨e, y, hy, he⟩
  obtain ⟨left, hl⟩ := operand .leftOperand (.inl rfl)
  obtain ⟨right, hr⟩ := operand .rightOperand (.inr rfl)
  obtain ⟨_, ho, o, rfl⟩ := h.field (f := .operator) typed hc (by decide)
  exact ⟨⟨left, o, right⟩, hc, hl, ⟨_, ho, rfl⟩, hr⟩

theorem Below.exists_constraint (h : g.Below v n x) (typed : g.WellTyped v)
    (ht : g.HasType x .constraint) : ∃ c, g.DepictsConstraint x c := by
  induction n using Nat.strongRecOn generalizing x with
  | _ n ih =>
    rcases ht with hc | hc
    · obtain ⟨a, ha⟩ := h.exists_atomic typed hc
      exact ⟨.atomic a, by rwa [DepictsConstraint]⟩
    · obtain ⟨_, hk, k, rfl⟩ := h.field (f := .kind) typed hc (by decide)
      have known : Outline.kind? (.member (.multiplicityKind k)) = some k := by cases k <;> rfl
      have step : ∀ i, (PathStep.member k i).index? = some i ∧
          (PathStep.member k i).field = .constraints ∧ g.opens x (.member k i) = true := by
        intro i
        simp [PathStep.index?, PathStep.field, opens, hc, hk, Except.toOption, known]
      obtain ⟨cs, hcs⟩ := h.exists_each .constraints (.member k) typed hc (by decide) rfl step
        fun i y hy ytyped => by
          obtain ⟨m, rfl, below⟩ := h.enter (by rfl) hy
          exact ih m (Nat.lt_succ_self m) below ytyped
      refine ⟨.multiplicity k cs, ?_⟩
      obtain ⟨y, hy, xs, rfl, each⟩ := hcs
      rw [DepictsConstraint]
      exact ⟨hc, ⟨_, hk, rfl⟩, _, hy, xs, rfl, (g.depictsConstraints_iff).mpr each⟩

/-! ## Rules -/

theorem Below.exists_action (h : g.Below v n x) (typed : g.WellTyped v)
    (ht : g.HasType x (.node .action)) : ∃ a, g.DepictsAction x a := by
  have hc := nodeClass?_of_hasType ht (by decide)
  obtain ⟨y, hy, type⟩ := h.field (f := .type) typed hc (by decide)
  obtain ⟨t, ht⟩ := Option.isSome_iff_exists.mp type
  obtain ⟨z, hz, included⟩ := h.field (f := .includedIn) typed hc (by decide)
  obtain ⟨i, hi⟩ := exists_optionalText included
  obtain ⟨c, hc'⟩ := h.exists_optional (s := .refinement) typed hc (by decide) rfl rfl
    (by simp [opens, hc]) fun w hw wtyped => (h.follow hw).exists_constraint typed wtyped
  exact ⟨⟨t, i, c⟩, hc, ⟨y, hy, ht⟩, ⟨z, hz, hi⟩, hc'⟩

theorem Below.exists_rule (h : g.Below v n x) (typed : g.WellTyped v)
    (hc : g.nodeClass? x = some c) (isRule : c = .permission ∨ c = .prohibition ∨ c = .duty) :
    ∃ r, g.DepictsRule x r := by
  have opens : g.opens x .action = true ∧ ∀ i, g.opens x (.constraint i) = true := by
    rcases isRule with rfl | rfl | rfl <;> simp [opens, hc]
  have fields : Field.action ∈ c.fields ∧ Field.constraints ∈ c.fields := by
    rcases isRule with rfl | rfl | rfl <;> decide
  obtain ⟨a, ha⟩ := h.exists_optional (s := .action) typed hc fields.1 rfl rfl opens.1
    fun w hw wtyped => (h.follow hw).exists_action typed wtyped
  obtain ⟨cs, hcs⟩ := h.exists_each .constraints .constraint typed hc fields.2 rfl
    (fun i => ⟨rfl, rfl, opens.2 i⟩)
    fun i w hw wtyped => (h.follow hw).exists_constraint typed wtyped
  exact ⟨⟨a, cs⟩, ha, hcs⟩

theorem Below.exists_duty (h : g.Below v n x) (typed : g.WellTyped v)
    (ht : g.HasType x (.node .duty)) : ∃ d, g.DepictsDuty x d := by
  induction n using Nat.strongRecOn generalizing x with
  | _ n ih =>
    have hc := nodeClass?_of_hasType ht (by decide)
    obtain ⟨r, hr⟩ := h.exists_rule typed hc (by decide)
    obtain ⟨d, y, hy, hd⟩ := h.exists_optional (s := .consequence) typed hc (by decide) rfl rfl
      (by simp [opens, hc]) fun w hw wtyped => by
        obtain ⟨m, rfl, below⟩ := h.enter rfl hw
        exact ih m (Nat.lt_succ_self m) below wtyped
    refine ⟨.mk r d, ?_⟩
    cases d <;> rw [DepictsDuty] <;> exact ⟨hc, hr, y, hy, hd⟩

theorem Below.exists_permission (h : g.Below v n x) (typed : g.WellTyped v)
    (ht : g.HasType x (.node .permission)) : ∃ q, g.DepictsPermission x q := by
  have hc := nodeClass?_of_hasType ht (by decide)
  obtain ⟨r, hr⟩ := h.exists_rule typed hc (by decide)
  obtain ⟨ds, hds⟩ := h.exists_each .duties .duty typed hc (by decide) rfl
    (fun i => ⟨rfl, rfl, by simp [opens, hc]⟩)
    fun i w hw wtyped => (h.follow hw).exists_duty typed wtyped
  exact ⟨⟨r, ds⟩, hc, hr, hds⟩

theorem Below.exists_prohibition (h : g.Below v n x) (typed : g.WellTyped v)
    (ht : g.HasType x (.node .prohibition)) : ∃ q, g.DepictsProhibition x q := by
  have hc := nodeClass?_of_hasType ht (by decide)
  obtain ⟨r, hr⟩ := h.exists_rule typed hc (by decide)
  exact ⟨⟨r⟩, hc, hr⟩

/-- A well-typed policy with bounded chains depicts a policy. -/
theorem WellTyped.exists_policy (typed : g.WellTyped v) (bounded : ∀ m ∈ g.chains v, m ≤ n) :
    ∃ p, g.Depicts v p := by
  have h : g.Below v n v := ⟨⟨[], rfl⟩, fun ss y hy => bounded _ ⟨ss, y, hy, rfl⟩⟩
  have hc := typed.policy
  obtain ⟨_, htype, t, rfl⟩ := h.field (f := .type) typed hc (by decide)
  have text : ∀ f ∈ NodeClass.policy.fields, NodeClass.policy.fieldType f = .optional .text →
      ∃ o, g.FieldIs v f fun x => x.optionalText? = some o := by
    intro f hf ht
    obtain ⟨x, hx, xtyped⟩ := h.field typed hc hf
    rw [ht] at xtyped
    obtain ⟨o, ho⟩ := exists_optionalText xtyped
    exact ⟨o, x, hx, ho⟩
  obtain ⟨permissions, hp⟩ := h.exists_each .permissions .permission typed hc (by decide) rfl
    (fun i => ⟨rfl, rfl, by simp [opens, hc]⟩)
    fun i w hw wtyped => (h.follow hw).exists_permission typed wtyped
  obtain ⟨prohibitions, hq⟩ := h.exists_each .prohibitions .prohibition typed hc (by decide) rfl
    (fun i => ⟨rfl, rfl, by simp [opens, hc]⟩)
    fun i w hw wtyped => (h.follow hw).exists_prohibition typed wtyped
  obtain ⟨obligations, ho⟩ := h.exists_each .obligations .obligation typed hc (by decide) rfl
    (fun i => ⟨rfl, rfl, by simp [opens, hc]⟩)
    fun i w hw wtyped => (h.follow hw).exists_duty typed wtyped
  obtain ⟨assignee, hassignee⟩ := text .assignee (by decide) rfl
  obtain ⟨assigner, hassigner⟩ := text .assigner (by decide) rfl
  obtain ⟨target, htarget⟩ := text .target (by decide) rfl
  exact ⟨⟨t, permissions, prohibitions, obligations, assignee, assigner, target⟩, hc,
    ⟨_, htype, rfl⟩, hp, hq, ho, hassignee, hassigner, htarget⟩

end Graph

end UsagePolicy
