import UsagePolicy.Proofs.Encoding.Unfolding
import UsagePolicy.Proofs.Payload.Room

/-!
# The grammar of payloads

What a payload may be is said by the types that the fields of each class are declared with, and
without a word about checks. The values that conform are the ones that render a part, and so the
check of a policy accepts them and no others.
-/

namespace UsagePolicy

/-- The fields of a class that must be given. -/
def NodeClass.required : NodeClass → List Field
  | .action => [.type]
  | .literalExpression => [.value]
  | .atomicConstraint => [.leftExpression, .operator, .rightExpression]
  | .multiplicityConstraint => [.kind]
  | _ => []

namespace Json

/-- The value may stand in a payload where the type is declared. An object has no key twice, has
only keys of fields of its class, has no field under both of its keys, has the required fields, and
has values of the declared types in its fields. A constraint names its class by its tag. -/
inductive Conforms : FieldType → Json → Prop
  | constant (t : Text) : Conforms (.constant t) (.text t)
  | text (t : Text) : Conforms .text (.text t)
  | literal (l : Literal) : Conforms .literal l.json
  | policyType (t : PolicyType) : Conforms .policyType (.text t.name)
  | multiplicityKind (k : MultiplicityKind) : Conforms .multiplicityKind (.text k.name)
  | operator (o : Operator) : Conforms .operator (.text o.name)
  | null (t : FieldType) : Conforms (.optional t) .null
  | given {t : FieldType} {v : Json} : Conforms t v → Conforms (.optional t) v
  | array {t : FieldType} {vs : List Json} : (∀ v ∈ vs, Conforms t v) →
    Conforms (.tuple t) (.array vs)
  | node {c : NodeClass} {ms : Members}
    (keys : (ms.map Prod.fst).Nodup)
    (known : ∀ m ∈ ms, ∃ f ∈ c.fields, f.IsKey m.1)
    (once : ∀ f ∈ c.fields, f.wireName ∈ ms.map Prod.fst → f.name ∈ ms.map Prod.fst →
      f.wireName = f.name)
    (complete : ∀ f ∈ c.required, ∃ m ∈ ms, f.IsKey m.1)
    (typed : ∀ m ∈ ms, ∀ f ∈ c.fields, f.IsKey m.1 → Conforms (c.fieldType f) m.2) :
    Conforms (.node c) (.object ms)
  | atomic {k : Text} {ms : Members} (key : Field.IsKey .constraintType k)
    (tag : (k, .text "atomic") ∈ ms) (node : Conforms (.node .atomicConstraint) (.object ms)) :
    Conforms .constraint (.object ms)
  | multiplicity {k : Text} {ms : Members} (key : Field.IsKey .constraintType k)
    (tag : (k, .text "multiplicity") ∈ ms)
    (node : Conforms (.node .multiplicityConstraint) (.object ms)) :
    Conforms .constraint (.object ms)

theorem Conforms.distinct {t : FieldType} {v : Json} (h : Conforms t v) : v.Distinct := by
  induction h with
  | constant t | text t => exact .text t
  | literal l =>
    cases l with
    | text t => exact .text t
    | int i => exact .int i
    | float d => exact .float d
    | bool b => exact .bool b
  | policyType t | multiplicityKind k | operator o => exact .text _
  | null t => exact .null
  | given _ ih => exact ih
  | array _ ih => exact .array ih
  | node keys known _ _ _ ih =>
    refine .object keys fun m hm => ?_
    obtain ⟨f, hf, key⟩ := known m hm
    exact ih m hm f hf key
  | atomic _ _ _ ih => exact ih
  | multiplicity _ _ _ ih => exact ih

/-! ## Objects of a class -/

variable {v : Json} {c : NodeClass} {ms : Members} {x : Option Json} {o : Prop}

theorem required_subset (c : NodeClass) : c.required ⊆ c.fields := by
  cases c <;> decide

/-- Members that are known, stand under one key each and are complete are what a node of the class
has in its fields. -/
theorem isNode_of_members {Q : Field → Json → Prop} (keys : (ms.map Prod.fst).Nodup)
    (known : ∀ m ∈ ms, ∃ f ∈ c.fields, f.IsKey m.1)
    (once : ∀ f ∈ c.fields, f.wireName ∈ ms.map Prod.fst → f.name ∈ ms.map Prod.fst →
      f.wireName = f.name)
    (complete : ∀ f ∈ c.required, ∃ m ∈ ms, f.IsKey m.1)
    (typed : ∀ m ∈ ms, ∀ f ∈ c.fields, f.IsKey m.1 → Q f m.2) :
    (object ms).IsNode c fun given =>
      ∀ f ∈ c.fields, GivenOr (f ∉ c.required) (Q f) (given f) := by
  have unique : ∀ f ∈ c.fields, ∀ m ∈ ms, ∀ m' ∈ ms, f.IsKey m.1 → f.IsKey m'.1 → m' = m := by
    intro f hf m hm m' hm' key key'
    have present := List.mem_map_of_mem (f := Prod.fst) hm
    have present' := List.mem_map_of_mem (f := Prod.fst) hm'
    refine List.inj_on_of_nodup_map keys hm' hm ?_
    rcases key with key | key <;> rcases key' with key' | key'
    · exact key'.trans key.symm
    · exact key'.trans ((once f hf (key ▸ present) (key' ▸ present')).symm.trans key.symm)
    · exact key'.trans ((once f hf (key' ▸ present') (key ▸ present)).trans key.symm)
    · exact key'.trans key.symm
  have extras : Payload.extras c ms = [] := by
    rw [Payload.extras_eq_nil_iff]
    intro m hm
    obtain ⟨f, hf, key⟩ := known m hm
    exact ⟨f, hf, m.2, Payload.find?_of_unique hm key fun m' hm' key' =>
      unique f hf m hm m' hm' key key'⟩
  refine ⟨ms, _, rfl, spell_of_extras keys extras, fun f hf => ?_⟩
  cases hx : Payload.find? ms f with
  | none =>
    intro required
    obtain ⟨m, hm, key⟩ := complete f required
    exact Payload.not_isKey_of_find? hx m hm key
  | some e =>
    obtain ⟨key, member⟩ := Payload.mem_of_find? hx
    exact typed e member f hf key

theorem Conforms.of_isNode (h : v.IsNode c fun given =>
    ∀ f ∈ c.fields, GivenOr (f ∉ c.required) (Conforms (c.fieldType f)) (given f)) :
    Conforms (.node c) v := by
  obtain ⟨ms, given, rfl, spell, fields⟩ := h
  refine .node spell.distinct (fun m hm => ?_) (fun f _ wire name => ?_) (fun f required => ?_)
    fun m hm f hf key => ?_
  · obtain ⟨f, hf, key, -⟩ := spell.known m hm
    exact ⟨f, hf, key⟩
  · obtain ⟨m, hm, same⟩ := List.mem_map.mp wire
    obtain ⟨m', hm', same'⟩ := List.mem_map.mp name
    rw [← same, ← same', spell.eq_of_isKey hm hm' (.inl same) (.inr same')]
  · have hf := required_subset c required
    have there : (given f).isSome := by
      cases hx : given f with
      | none => exact absurd required (by simpa [GivenOr, hx] using fields f hf)
      | some w => rfl
    obtain ⟨m, ⟨hm, key⟩, -⟩ := spell.spelled f hf there
    exact ⟨m, hm, key⟩
  · obtain ⟨f', -, key', value⟩ := spell.known m hm
    obtain rfl := Field.eq_of_isKey key key'
    have typed := fields f hf
    rw [value] at typed
    exact typed

end Json

/-! ## What renders a part conforms -/

open Json (Conforms GivenOr RendersOptional RendersEach RendersText)

variable {v : Json} {t : FieldType}

theorem Json.RendersText.conforms_constant {u : Text} (h : RendersText u v) :
    Conforms (.constant u) v := by
  rw [show v = .text u from h]
  exact .constant u

theorem Json.RendersText.conforms_text {u : Text} (h : RendersText u v) : Conforms .text v := by
  rw [show v = .text u from h]
  exact .text u

section

variable {α : Type} {R : α → Json → Prop}

theorem Json.RendersOptional.conforms {o : Option α} (h : RendersOptional R o v)
    (each : ∀ a ∈ o, ∀ w, R a w → Conforms t w) : Conforms (.optional t) v := by
  cases o with
  | none =>
    rw [show v = .null from h]
    exact .null t
  | some a => exact .given (each a rfl v h)

theorem Json.RendersEach.conforms {as : List α} (h : RendersEach R as v)
    (each : ∀ a ∈ as, ∀ w, R a w → Conforms t w) : Conforms (.tuple t) v := by
  obtain ⟨vs, rfl, related⟩ := h
  refine .array fun w hw => ?_
  obtain ⟨a, ha, renders⟩ := exists_of_mem_left related.flip hw
  exact each a ha w renders

end

theorem Expression.Renders.conforms {e : Expression} (h : e.Renders v) :
    Conforms (.node .literalExpression) v := by
  refine .of_isNode (Json.IsNode.imp h fun given ⟨tag, value⟩ => ?_)
  simp only [NodeClass.fields, List.forall_mem_cons]
  exact ⟨tag.mono (fun _ => by decide) fun _ => RendersText.conforms_constant,
    value.mono False.elim fun _ same => same ▸ .literal e.value, List.forall_mem_nil _⟩

theorem AtomicConstraint.Renders.conforms {a : AtomicConstraint} {untagged : Prop}
    (h : a.Renders untagged v) : Conforms (.node .atomicConstraint) v := by
  refine .of_isNode (Json.IsNode.imp h fun given ⟨tag, left, operator, right⟩ => ?_)
  simp only [NodeClass.fields, List.forall_mem_cons]
  exact ⟨tag.mono (fun _ => by decide) fun _ => RendersText.conforms_constant,
    left.mono False.elim fun _ => Expression.Renders.conforms,
    operator.mono False.elim fun _ same => same ▸ .operator a.operator,
    right.mono False.elim fun _ => Expression.Renders.conforms, List.forall_mem_nil _⟩

/-- A node that has to have its tag has it under one of the keys of the tag. -/
theorem Json.IsNode.exists_tag {c : NodeClass} {u : Text} {P : (Field → Option Json) → Prop}
    (h : v.IsNode c fun given =>
      GivenOr False (RendersText u) (given .constraintType) ∧ P given)
    (hc : .constraintType ∈ c.fields) :
    ∃ ms k, v = .object ms ∧ Field.IsKey .constraintType k ∧ (k, .text u) ∈ ms := by
  obtain ⟨ms, given, rfl, spell, tag, -⟩ := h
  cases hx : given .constraintType with
  | none => exact absurd tag (by simp [hx, GivenOr])
  | some w =>
    obtain rfl : w = .text u := by simpa [hx, GivenOr, RendersText] using tag
    obtain ⟨⟨k, w⟩, ⟨member, key⟩, -⟩ := spell.spelled _ hc (by rw [hx]; rfl)
    obtain ⟨f, -, key', value⟩ := spell.known _ member
    obtain rfl := Field.eq_of_isKey key key'
    obtain rfl : w = .text u := Option.some.inj (value.symm.trans hx)
    exact ⟨ms, k, rfl, key, member⟩

/-- A combination conforms to its class if its members are constraints. -/
theorem Constraint.Renders.conforms_multiplicity {k : MultiplicityKind} {cs : List Constraint}
    {untagged : Prop} (h : (Constraint.multiplicity k cs).Renders untagged v)
    (each : ∀ c ∈ cs, ∀ w, c.RendersTagged w → Conforms .constraint w) :
    Conforms (.node .multiplicityConstraint) v := by
  refine .of_isNode ((renders_multiplicity.mp h).imp fun given ⟨tag, kind, members⟩ => ?_)
  simp only [NodeClass.fields, List.forall_mem_cons]
  exact ⟨tag.mono (fun _ => by decide) fun _ => RendersText.conforms_constant,
    kind.mono False.elim fun _ same => same ▸ .multiplicityKind k,
    members.mono (fun _ => by decide) fun _ renders => renders.conforms each,
    List.forall_mem_nil _⟩

theorem Constraint.RendersTagged.conforms : ∀ {c : Constraint} {v : Json}, c.RendersTagged v →
    Conforms .constraint v
  | .atomic a, v, h => by
    rw [RendersTagged, Renders] at h
    obtain ⟨ms, k, rfl, key, tag⟩ := Json.IsNode.exists_tag h (by decide)
    exact .atomic key tag (AtomicConstraint.Renders.conforms h)
  | .multiplicity k cs, v, h => by
    have node := Constraint.Renders.conforms_multiplicity h
      fun c _ w renders => Constraint.RendersTagged.conforms renders
    obtain ⟨ms, k, rfl, key, tag⟩ :=
      Json.IsNode.exists_tag (renders_multiplicity.mp h) (by decide)
    exact .multiplicity key tag node

theorem Action.Renders.conforms {a : Action} (h : a.Renders v) : Conforms (.node .action) v := by
  refine .of_isNode (Json.IsNode.imp h fun given ⟨type, includedIn, refinement⟩ => ?_)
  simp only [NodeClass.fields, List.forall_mem_cons]
  exact ⟨type.mono False.elim fun _ => RendersText.conforms_text,
    includedIn.mono (fun _ => by decide) fun _ text =>
      text.conforms fun _ _ _ => RendersText.conforms_text,
    refinement.mono (fun _ => by decide) fun _ part =>
      part.conforms fun _ _ _ => Constraint.RendersTagged.conforms,
    List.forall_mem_nil _⟩

/-- The fields that all rules share conform in every class of rules. -/
theorem Rule.RendersFields.conforms {r : Rule} {given : Field → Option Json} {c : NodeClass}
    {rest : List Field} (h : r.RendersFields given) (none : c.required = [])
    (hc : c.fields = .action :: .constraints :: rest)
    (others : ∀ f ∈ rest, GivenOr True (Conforms (c.fieldType f)) (given f)) :
    ∀ f ∈ c.fields, GivenOr (f ∉ c.required) (Conforms (c.fieldType f)) (given f) := by
  obtain ⟨action, constraints⟩ := h
  have unrequired : ∀ f, f ∉ c.required := by simp [none]
  rw [hc, List.forall_mem_cons, List.forall_mem_cons]
  exact ⟨action.mono (fun _ => unrequired _) fun _ part =>
      part.conforms fun _ _ _ => Action.Renders.conforms,
    constraints.mono (fun _ => unrequired _) fun _ each =>
      each.conforms fun _ _ _ => Constraint.RendersTagged.conforms,
    fun f hf => (others f hf).mono (fun _ => unrequired f) fun _ => id⟩

theorem Rule.Renders.conforms {r : Rule} (h : r.Renders v) : Conforms (.node .rule) v :=
  .of_isNode (Json.IsNode.imp h fun _ fields => fields.conforms rfl rfl (List.forall_mem_nil _))

theorem Prohibition.Renders.conforms {p : Prohibition} (h : p.Renders v) :
    Conforms (.node .prohibition) v :=
  .of_isNode (Json.IsNode.imp h fun _ fields => fields.conforms rfl rfl (List.forall_mem_nil _))

theorem Duty.Renders.conforms : ∀ {d : Duty} {v : Json}, d.Renders v → Conforms (.node .duty) v
  | .mk r o, _, h => by
    refine .of_isNode ((renders_iff.mp h).imp fun given ⟨fields, consequence⟩ => ?_)
    refine fields.conforms rfl rfl (List.forall_mem_singleton.mpr ?_)
    exact consequence.mono (fun _ => trivial) fun _ part =>
      part.conforms fun d _ _ renders => Duty.Renders.conforms renders

theorem Permission.Renders.conforms {p : Permission} (h : p.Renders v) :
    Conforms (.node .permission) v := by
  refine .of_isNode (Json.IsNode.imp h fun given ⟨fields, duties⟩ => ?_)
  refine fields.conforms rfl rfl (List.forall_mem_singleton.mpr ?_)
  exact duties.mono (fun _ => trivial) fun _ each =>
    each.conforms fun _ _ _ => Duty.Renders.conforms

theorem Policy.Renders.conforms {p : Policy} (h : p.Renders v) : Conforms (.node .policy) v := by
  have list : ∀ {α : Type} {R : α → Json → Prop} {as : List α} {x : Option Json} {c : NodeClass},
      GivenOr (as = []) (RendersEach R as) x → (∀ a w, R a w → Conforms (.node c) w) →
        GivenOr True (Conforms (.tuple (.node c))) x :=
    fun given each => given.mono (fun _ => trivial) fun _ items => items.conforms fun a _ => each a
  have text : ∀ {o : Option Text} {x : Option Json},
      GivenOr (o = none) (RendersOptional RendersText o) x →
        GivenOr True (Conforms (.optional .text)) x :=
    fun given => given.mono (fun _ => trivial) fun _ text =>
      text.conforms fun _ _ _ => RendersText.conforms_text
  refine .of_isNode (Json.IsNode.imp h fun given fields => ?_)
  have unrequired : ∀ {f : Field} {x : Option Json} {P : Json → Prop}, GivenOr True P x →
      GivenOr (f ∉ NodeClass.required .policy) P x :=
    fun given => given.mono (fun _ => List.not_mem_nil) fun _ => id
  simp only [NodeClass.fields, List.forall_mem_cons]
  exact ⟨fields.type.mono (fun _ => List.not_mem_nil) fun _ same => same ▸ .policyType p.type,
    unrequired (list fields.permissions fun _ _ => Permission.Renders.conforms),
    unrequired (list fields.prohibitions fun _ _ => Prohibition.Renders.conforms),
    unrequired (list fields.obligations fun _ _ => Duty.Renders.conforms),
    unrequired (text fields.assignee), unrequired (text fields.assigner),
    unrequired (text fields.target), List.forall_mem_nil _⟩

/-! ## What conforms renders a part -/

/-- The value renders some part of the class. -/
def NodeClass.Rendered : NodeClass → Json → Prop
  | .policy, v => ∃ p : Policy, p.Renders v
  | .rule, v => ∃ r : Rule, r.Renders v
  | .permission, v => ∃ p : Permission, p.Renders v
  | .prohibition, v => ∃ p : Prohibition, p.Renders v
  | .duty, v => ∃ d : Duty, d.Renders v
  | .action, v => ∃ a : Action, a.Renders v
  | .atomicConstraint, v => ∃ a : AtomicConstraint, a.Renders True v
  | .multiplicityConstraint, v => ∃ k cs, (Constraint.multiplicity k cs).Renders True v
  | .literalExpression, v => ∃ e : Expression, e.Renders v

/-- The value renders something of the type. -/
def FieldType.Rendered : FieldType → Json → Prop
  | .constant t, v => RendersText t v
  | .text, v => ∃ t, RendersText t v
  | .literal, v => ∃ l : Literal, v = l.json
  | .policyType, v => ∃ t : PolicyType, RendersText t.name v
  | .multiplicityKind, v => ∃ k : MultiplicityKind, RendersText k.name v
  | .operator, v => ∃ o : Operator, RendersText o.name v
  | .node c, v => c.Rendered v
  | .constraint, v => ∃ c : Constraint, c.RendersTagged v
  | .optional t, v => v = .null ∨ t.Rendered v
  | .tuple t, v => ∃ vs, v = .array vs ∧ ∀ w ∈ vs, t.Rendered w

namespace Json

variable {α : Type} {R : α → Json → Prop} {o : Prop} {x : Option Json}

theorem GivenOr.exists_required (h : GivenOr o (fun v => ∃ a, R a v) x) (ho : ¬ o) :
    ∃ a, GivenOr False (R a) x := by
  cases x with
  | none => exact absurd h ho
  | some v => exact h

theorem GivenOr.exists_default (h : GivenOr o (fun v => ∃ a, R a v) x) (d : α) :
    ∃ a, GivenOr (a = d) (R a) x := by
  cases x with
  | none => exact ⟨d, rfl⟩
  | some v => exact h

theorem GivenOr.exists_optional (h : GivenOr o (fun v => v = .null ∨ ∃ a, R a v) x) :
    ∃ a : Option α, GivenOr (a = none) (RendersOptional R a) x := by
  cases x with
  | none => exact ⟨none, rfl⟩
  | some v =>
    obtain null | ⟨a, renders⟩ := h
    · exact ⟨none, null⟩
    · exact ⟨some a, renders⟩

theorem GivenOr.exists_list
    (h : GivenOr o (fun v => ∃ vs, v = .array vs ∧ ∀ w ∈ vs, ∃ a, R a w) x) :
    ∃ as : List α, GivenOr (as = []) (RendersEach R as) x := by
  cases x with
  | none => exact ⟨[], rfl⟩
  | some v =>
    obtain ⟨vs, rfl, each⟩ := h
    obtain ⟨as, related⟩ := Graph.exists_forall₂ (R := fun w a => R a w) each
    exact ⟨as, vs, rfl, related.flip⟩

end Json

/-- What the fields of a rule hold is what some rule has there. -/
theorem exists_rule {given : Field → Option Json} {c : NodeClass} {rest : List Field}
    (hc : c.fields = .action :: .constraints :: rest)
    (h : ∀ f ∈ c.fields, GivenOr (f ∉ c.required) (c.fieldType f).Rendered (given f)) :
    ∃ r : Rule, r.RendersFields given := by
  rw [hc, List.forall_mem_cons, List.forall_mem_cons] at h
  obtain ⟨a, action⟩ := h.1.exists_optional (R := Action.Renders)
  obtain ⟨cs, constraints⟩ := h.2.1.exists_list (R := Constraint.RendersTagged)
  exact ⟨⟨a, cs⟩, action, constraints⟩

/-- A node whose fields all render something renders a part of its class. -/
theorem NodeClass.rendered {c : NodeClass} (h : v.IsNode c fun given =>
    ∀ f ∈ c.fields, GivenOr (f ∉ c.required) (c.fieldType f).Rendered (given f)) :
    c.Rendered v := by
  obtain ⟨ms, given, rfl, spell, fields⟩ := h
  cases c with
  | policy =>
    simp only [NodeClass.fields, List.forall_mem_cons] at fields
    obtain ⟨type, permissions, prohibitions, obligations, assignee, assigner, target, -⟩ := fields
    obtain ⟨t, type⟩ := type.exists_default .set
    obtain ⟨ps, permissions⟩ := permissions.exists_list (R := Permission.Renders)
    obtain ⟨qs, prohibitions⟩ := prohibitions.exists_list (R := Prohibition.Renders)
    obtain ⟨ds, obligations⟩ := obligations.exists_list (R := Duty.Renders)
    obtain ⟨a, assignee⟩ := assignee.exists_optional (R := RendersText)
    obtain ⟨b, assigner⟩ := assigner.exists_optional (R := RendersText)
    obtain ⟨o, target⟩ := target.exists_optional (R := RendersText)
    exact ⟨⟨t, ps, qs, ds, a, b, o⟩, ms, given, rfl, spell, type, permissions, prohibitions,
      obligations, assignee, assigner, target⟩
  | rule =>
    obtain ⟨r, rule⟩ := exists_rule rfl fields
    exact ⟨r, ms, given, rfl, spell, rule⟩
  | permission =>
    obtain ⟨r, rule⟩ := exists_rule rfl fields
    obtain ⟨ds, duties⟩ := (fields .duties (by decide)).exists_list (R := Duty.Renders)
    exact ⟨⟨r, ds⟩, ms, given, rfl, spell, rule, duties⟩
  | prohibition =>
    obtain ⟨r, rule⟩ := exists_rule rfl fields
    exact ⟨⟨r⟩, ms, given, rfl, spell, rule⟩
  | duty =>
    obtain ⟨r, rule⟩ := exists_rule rfl fields
    obtain ⟨d, consequence⟩ :=
      (fields .consequence (by decide)).exists_optional (R := Duty.Renders)
    exact ⟨.mk r d, Duty.renders_iff.mpr ⟨ms, given, rfl, spell, rule, consequence⟩⟩
  | action =>
    simp only [NodeClass.fields, List.forall_mem_cons] at fields
    obtain ⟨type, includedIn, refinement, -⟩ := fields
    obtain ⟨t, type⟩ := type.exists_required (R := RendersText) (by decide)
    obtain ⟨i, includedIn⟩ := includedIn.exists_optional (R := RendersText)
    obtain ⟨r, refinement⟩ := refinement.exists_optional (R := Constraint.RendersTagged)
    exact ⟨⟨t, i, r⟩, ms, given, rfl, spell, type, includedIn, refinement⟩
  | atomicConstraint =>
    simp only [NodeClass.fields, List.forall_mem_cons] at fields
    obtain ⟨tag, left, operator, right, -⟩ := fields
    obtain ⟨l, left⟩ := left.exists_required (R := Expression.Renders) (by decide)
    obtain ⟨o, operator⟩ := operator.exists_required (by decide)
    obtain ⟨r, right⟩ := right.exists_required (R := Expression.Renders) (by decide)
    exact ⟨⟨l, o, r⟩, ms, given, rfl, spell, tag.mono (fun _ => trivial) fun _ => id, left,
      operator, right⟩
  | multiplicityConstraint =>
    simp only [NodeClass.fields, List.forall_mem_cons] at fields
    obtain ⟨tag, kind, members, -⟩ := fields
    obtain ⟨k, kind⟩ := kind.exists_required (by decide)
    obtain ⟨cs, members⟩ := members.exists_list (R := Constraint.RendersTagged)
    exact ⟨k, cs, Constraint.renders_multiplicity.mpr ⟨ms, given, rfl, spell,
      tag.mono (fun _ => trivial) fun _ => id, kind, members⟩⟩
  | literalExpression =>
    simp only [NodeClass.fields, List.forall_mem_cons] at fields
    obtain ⟨tag, value, -⟩ := fields
    obtain ⟨l, value⟩ := value.exists_required (by decide)
    exact ⟨⟨l⟩, ms, given, rfl, spell, tag.mono (fun _ => trivial) fun _ => id, value⟩

/-- A node that has its tag under a key of the tag has to have it. -/
theorem Json.IsNode.tagged {ms : Json.Members} {c : NodeClass} {u k : Text}
    {P : (Field → Option Json) → Prop}
    (h : (Json.object ms).IsNode c fun given =>
      GivenOr True (RendersText u) (given .constraintType) ∧ P given)
    (key : Field.IsKey .constraintType k) (tag : (k, .text u) ∈ ms) :
    (Json.object ms).IsNode c fun given =>
      GivenOr False (RendersText u) (given .constraintType) ∧ P given := by
  obtain ⟨_, given, same, spell, -, fields⟩ := h
  cases same
  obtain ⟨f, -, key', value⟩ := spell.known _ tag
  obtain rfl := Field.eq_of_isKey key key'
  exact ⟨ms, given, rfl, spell, by rw [value]; rfl, fields⟩

theorem Json.Conforms.rendered (h : Conforms t v) : t.Rendered v := by
  induction h with
  | constant t => rfl
  | text t => exact ⟨t, rfl⟩
  | literal l => exact ⟨l, rfl⟩
  | policyType t => exact ⟨t, rfl⟩
  | multiplicityKind k => exact ⟨k, rfl⟩
  | operator o => exact ⟨o, rfl⟩
  | null t => exact .inl rfl
  | given _ ih => exact .inr ih
  | array _ ih => exact ⟨_, rfl, ih⟩
  | node keys known once complete _ ih =>
    exact NodeClass.rendered (isNode_of_members keys known once complete ih)
  | atomic key tag _ ih =>
    obtain ⟨a, renders⟩ := ih
    refine ⟨.atomic a, ?_⟩
    rw [Constraint.RendersTagged, Constraint.Renders]
    exact Json.IsNode.tagged renders key tag
  | multiplicity key tag _ ih =>
    obtain ⟨k, cs, renders⟩ := ih
    refine ⟨.multiplicity k cs, Constraint.renders_multiplicity.mpr ?_⟩
    exact (Constraint.renders_multiplicity.mp renders).tagged key tag

/-! ## Policies -/

namespace Payload

theorem exists_policy_iff {v : Json} (distinct : v.Distinct) :
    (∃ p, policy .payload referenceLimit v = .ok p) ↔ Conforms (.node .policy) v := by
  have accepts : ∀ p : Policy, policy .payload referenceLimit v = .ok p ↔ p.Renders v :=
    fun p => (accepts_policy .payload referenceLimit p v distinct).trans
      (and_iff_left (p.fitsIn_payload referenceLimit))
  constructor
  · rintro ⟨p, ok⟩
    exact ((accepts p).mp ok).conforms
  · intro conforms
    obtain ⟨p, renders⟩ : NodeClass.policy.Rendered v := conforms.rendered
    exact ⟨p, (accepts p).mpr renders⟩

/-- A value is accepted as a policy exactly if it conforms to the grammar of policies, and a text is
so exactly if it can be read as such a value. -/
theorem accepts_policies_of_grammar :
    (∀ v : Json, v.Distinct →
        ((∃ p, policy .payload referenceLimit v = .ok p) ↔ Conforms (.node .policy) v)) ∧
      ∀ t, (∃ p, policyOfText t = .ok p) ↔ ∃ v, parse t = .ok v ∧ Conforms (.node .policy) v := by
  refine ⟨fun v => exists_policy_iff, fun t => ?_⟩
  unfold policyOfText
  cases parsed : parse t with
  | error issues =>
    constructor
    · rintro ⟨p, ok⟩
      cases ok
    · rintro ⟨v, ok, -⟩
      cases ok
  | ok v =>
    have distinct := (within_of_parse parsed).1.distinct
    refine (exists_policy_iff distinct).trans ⟨fun conforms => ⟨v, rfl, conforms⟩, ?_⟩
    rintro ⟨w, same, conforms⟩
    cases same
    exact conforms

/-- An offer with one permission of the action. -/
def offerOf (action : Json) : Json :=
  .object [("permissions", .array [.object [("action", action)]]), ("type", .text "OFFER")]

theorem distinct_offerOf {action : Json} (h : action.Distinct) : (offerOf action).Distinct := by
  have keys : (["permissions", "type"] : List Text).Nodup := by decide
  refine .object keys ?_
  simp only [List.forall_mem_cons]
  refine ⟨.array ?_, .text _, List.forall_mem_nil _⟩
  simp only [List.forall_mem_singleton]
  exact .object (List.nodup_singleton _) (List.forall_mem_singleton.mpr h)

/-- An action has to have a type, and its other fields may be null. -/
theorem offerOf_conforms_with_type :
    (offerOf (.object [("included_in", .null), ("type", .text "use")])).Distinct ∧
      Conforms (.node .policy) (offerOf (.object [("included_in", .null), ("type", .text "use")])) ∧
      (offerOf (.object [("included_in", .null)])).Distinct ∧
      ¬ Conforms (.node .policy) (offerOf (.object [("included_in", .null)])) := by
  have use : (Json.object [("included_in", .null), ("type", .text "use")]).Distinct :=
    .object (by decide) (by simp [Json.Distinct.null, Json.Distinct.text])
  have nothing : (Json.object [("included_in", .null)]).Distinct :=
    .object (by decide) (by simp [Json.Distinct.null])
  have accepted := accepts_policies_of_grammar.1 _ (distinct_offerOf use)
  have refused := accepts_policies_of_grammar.1 _ (distinct_offerOf nothing)
  refine ⟨distinct_offerOf use, accepted.mp ⟨_, rfl⟩, distinct_offerOf nothing, fun conforms => ?_⟩
  obtain ⟨p, ok⟩ := refused.mpr conforms
  have none : (policy .payload referenceLimit (offerOf (.object [("included_in", .null)]))).toOption
      = none := rfl
  rw [ok] at none
  cases none

end Payload

end UsagePolicy
