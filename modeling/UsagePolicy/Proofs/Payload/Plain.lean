import UsagePolicy.Proofs.Payload.Room

/-!
# Parts that are read from payloads

A part that is read from the text of a payload has no surrogates in its texts and no integers beyond
the limit on digits, since the values that it is read from have none.
-/

namespace UsagePolicy

/-! ## Plain parts -/

/-- A text has no surrogates, and an integer keeps to the limit on digits. -/
def Literal.Plain : Literal → Prop
  | .text t => t.isScalar = true
  | .int i => (Text.decimal i.natAbs).length ≤ Json.digitLimit
  | .float _ | .bool _ => True

/-- The literal is plain. -/
def Expression.Plain (e : Expression) : Prop := e.value.Plain

/-- Both operands are plain. -/
def AtomicConstraint.Plain (a : AtomicConstraint) : Prop := a.left.Plain ∧ a.right.Plain

mutual

/-- All operands are plain. -/
def Constraint.Plain : Constraint → Prop
  | .atomic a => a.Plain
  | .multiplicity _ cs => Constraint.AllPlain cs

/-- All constraints are plain. -/
def Constraint.AllPlain : List Constraint → Prop
  | [] => True
  | c :: cs => c.Plain ∧ Constraint.AllPlain cs

end

theorem Constraint.allPlain_iff {cs : List Constraint} : AllPlain cs ↔ ∀ c ∈ cs, c.Plain := by
  induction cs with
  | nil => simp [AllPlain]
  | cons c cs ih => simp [AllPlain, ih]

/-- The texts and the refinement are plain. -/
structure Action.Plain (a : Action) : Prop where
  type : a.type.isScalar = true
  includedIn : ∀ t ∈ a.includedIn, t.isScalar = true
  refinement : ∀ c ∈ a.refinement, c.Plain

/-- The action and the constraints are plain. -/
def Rule.Plain (r : Rule) : Prop := (∀ a ∈ r.action, a.Plain) ∧ ∀ c ∈ r.constraints, c.Plain

/-- The duty and its consequences are plain. -/
def Duty.Plain : Duty → Prop
  | .mk r none => r.Plain
  | .mk r (some d) => r.Plain ∧ d.Plain

theorem Duty.plain_iff {r : Rule} {o : Option Duty} :
    (Duty.mk r o).Plain ↔ r.Plain ∧ ∀ d ∈ o, d.Plain := by
  cases o <;> simp [Duty.Plain]

/-- The rule and its duties are plain. -/
def Permission.Plain (p : Permission) : Prop := p.rule.Plain ∧ ∀ d ∈ p.duties, d.Plain

/-- The rules, the participants and the target are plain. -/
structure Policy.Plain (p : Policy) : Prop where
  permissions : ∀ q ∈ p.permissions, q.Plain
  prohibitions : ∀ q ∈ p.prohibitions, q.rule.Plain
  obligations : ∀ d ∈ p.obligations, d.Plain
  assignee : ∀ t ∈ p.assignee, t.isScalar = true
  assigner : ∀ t ∈ p.assigner, t.isScalar = true
  target : ∀ t ∈ p.target, t.isScalar = true

/-! ## What a readable value renders is plain -/

open Json (GivenOr RendersOptional RendersEach RendersText)

variable {v : Json} {c : NodeClass} {given : Field → Option Json} {f : Field}

/-- The values that are given are readable. -/
def ReadableFields (c : NodeClass) (given : Field → Option Json) : Prop :=
  ∀ f ∈ c.fields, ∀ w, given f = some w → w.Readable

theorem Json.IsNode.readable {P : (Field → Option Json) → Prop} (h : v.IsNode c P)
    (hv : v.Readable) : ∃ given, P given ∧ ReadableFields c given := by
  obtain ⟨ms, given, rfl, spell, fields⟩ := h
  refine ⟨given, fields, fun f hf w hw => ?_⟩
  cases hv with
  | object _ _ readable =>
    obtain ⟨k, member⟩ := spell.exists_member hf hw
    exact readable _ member

theorem ReadableFields.required {P : Json → Prop} (h : ReadableFields c given) (hf : f ∈ c.fields)
    (field : GivenOr False P (given f)) : ∃ w, P w ∧ w.Readable := by
  cases hw : given f with
  | none =>
    rw [hw] at field
    cases field
  | some w =>
    rw [hw] at field
    exact ⟨w, field, h f hf w hw⟩

section

variable {α : Type} {R : α → Json → Prop}

theorem ReadableFields.option {o : Option α} (h : ReadableFields c given) (hf : f ∈ c.fields)
    (field : GivenOr (o = none) (RendersOptional R o) (given f)) {a : α} (ha : a ∈ o) :
    ∃ w, R a w ∧ w.Readable := by
  obtain ⟨w, hw, renders⟩ := field.option ha
  exact ⟨w, renders, h f hf w hw⟩

theorem ReadableFields.list {as : List α} (h : ReadableFields c given) (hf : f ∈ c.fields)
    (field : GivenOr (as = []) (RendersEach R as) (given f)) {a : α} (ha : a ∈ as) :
    ∃ w, R a w ∧ w.Readable := by
  obtain ⟨vs, w, hw, member, renders⟩ := field.list ha
  have array := h f hf _ hw
  cases array with
  | array readable => exact ⟨w, renders, readable w member⟩

end

theorem Json.RendersText.isScalar {t : Text} (h : RendersText t v) (hv : v.Readable) :
    t.isScalar = true := by
  obtain rfl : v = .text t := h
  cases hv with
  | text scalar => exact scalar

theorem ReadableFields.optionText (h : ReadableFields c given) (hf : f ∈ c.fields)
    {o : Option Text} (field : GivenOr (o = none) (RendersOptional RendersText o) (given f)) :
    ∀ t ∈ o, t.isScalar = true := by
  intro t ht
  obtain ⟨w, renders, readable⟩ := h.option hf field ht
  exact renders.isScalar readable

theorem Expression.Renders.plain {e : Expression} (h : e.Renders v) (hv : v.Readable) :
    e.Plain := by
  obtain ⟨given, ⟨-, value⟩, readable⟩ := Json.IsNode.readable h hv
  obtain ⟨w, rfl, literal⟩ := readable.required (by decide) value
  unfold Expression.Plain
  cases hl : e.value with
  | text t =>
    rw [hl] at literal
    cases literal with
    | text scalar => exact scalar
  | int i =>
    rw [hl] at literal
    cases literal with
    | int digits => exact digits
  | float d => trivial
  | bool b => trivial

theorem AtomicConstraint.Renders.plain {a : AtomicConstraint} {untagged : Prop}
    (h : a.Renders untagged v) (hv : v.Readable) : a.Plain := by
  obtain ⟨given, ⟨-, left, -, right⟩, readable⟩ := Json.IsNode.readable h hv
  obtain ⟨l, renders, hl⟩ := readable.required (by decide) left
  obtain ⟨r, renders', hr⟩ := readable.required (by decide) right
  exact ⟨Expression.Renders.plain renders hl, Expression.Renders.plain renders' hr⟩

theorem Constraint.Renders.plain : ∀ {c : Constraint} {untagged : Prop} {v : Json},
    c.Renders untagged v → v.Readable → c.Plain
  | .atomic a, _, _, h, hv => by
    rw [Constraint.Renders] at h
    rw [Constraint.Plain]
    exact AtomicConstraint.Renders.plain h hv
  | .multiplicity k cs, _, _, h, hv => by
    obtain ⟨given, ⟨-, -, members⟩, readable⟩ := (renders_multiplicity.mp h).readable hv
    rw [Constraint.Plain, allPlain_iff]
    intro c hc
    obtain ⟨w, renders, hw⟩ := readable.list (by decide) members hc
    exact Constraint.Renders.plain renders hw

theorem Action.Renders.plain {a : Action} (h : a.Renders v) (hv : v.Readable) : a.Plain := by
  obtain ⟨given, ⟨type, includedIn, refinement⟩, readable⟩ := Json.IsNode.readable h hv
  obtain ⟨w, text, hw⟩ := readable.required (by decide) type
  refine ⟨text.isScalar hw, readable.optionText (by decide) includedIn, fun c hc => ?_⟩
  obtain ⟨w, renders, hw⟩ := readable.option (by decide) refinement hc
  exact Constraint.Renders.plain renders hw

theorem Rule.RendersFields.plain {r : Rule} (h : r.RendersFields given)
    (readable : ReadableFields c given) (ha : .action ∈ c.fields) (hc : .constraints ∈ c.fields) :
    r.Plain := by
  obtain ⟨action, constraints⟩ := h
  constructor
  · intro a member
    obtain ⟨w, renders, hw⟩ := readable.option ha action member
    exact Action.Renders.plain renders hw
  · intro c member
    obtain ⟨w, renders, hw⟩ := readable.list hc constraints member
    exact Constraint.Renders.plain renders hw

theorem Duty.Renders.plain : ∀ {d : Duty} {v : Json}, d.Renders v → v.Readable → d.Plain
  | .mk r o, v, h, hv => by
    obtain ⟨given, ⟨fields, consequence⟩, readable⟩ := (Duty.renders_iff.mp h).readable hv
    refine Duty.plain_iff.mpr ⟨fields.plain readable (by decide) (by decide), fun d hd => ?_⟩
    obtain ⟨w, renders, hw⟩ := readable.option (by decide) consequence hd
    exact Duty.Renders.plain renders hw

theorem Permission.Renders.plain {p : Permission} (h : p.Renders v) (hv : v.Readable) :
    p.Plain := by
  obtain ⟨given, ⟨fields, duties⟩, readable⟩ := Json.IsNode.readable h hv
  refine ⟨fields.plain readable (by decide) (by decide), fun d hd => ?_⟩
  obtain ⟨w, renders, hw⟩ := readable.list (by decide) duties hd
  exact Duty.Renders.plain renders hw

theorem Prohibition.Renders.plain {p : Prohibition} (h : p.Renders v) (hv : v.Readable) :
    p.rule.Plain := by
  obtain ⟨given, fields, readable⟩ := Json.IsNode.readable h hv
  exact fields.plain readable (by decide) (by decide)

theorem Policy.Renders.plain {p : Policy} (h : p.Renders v) (hv : v.Readable) : p.Plain := by
  obtain ⟨given, fields, readable⟩ := Json.IsNode.readable h hv
  exact {
    permissions := fun q hq => by
      obtain ⟨w, renders, hw⟩ := readable.list (by decide) fields.permissions hq
      exact Permission.Renders.plain renders hw
    prohibitions := fun q hq => by
      obtain ⟨w, renders, hw⟩ := readable.list (by decide) fields.prohibitions hq
      exact Prohibition.Renders.plain renders hw
    obligations := fun d hd => by
      obtain ⟨w, renders, hw⟩ := readable.list (by decide) fields.obligations hd
      exact Duty.Renders.plain renders hw
    assignee := readable.optionText (by decide) fields.assignee
    assigner := readable.optionText (by decide) fields.assigner
    target := readable.optionText (by decide) fields.target }

/-- A policy that is read from a text is plain. -/
theorem Payload.plain_of_policyOfText {t : Text} {p : Policy}
    (h : Payload.policyOfText t = .ok p) : p.Plain := by
  unfold policyOfText at h
  cases parsed : parse t with
  | error issues =>
    rw [parsed] at h
    cases h
  | ok v =>
    rw [parsed] at h
    obtain ⟨readable, -⟩ := within_of_parse parsed
    have renders := ((accepts_policy .payload referenceLimit p v readable.distinct).mp h).1
    exact Policy.Renders.plain renders readable

end UsagePolicy
