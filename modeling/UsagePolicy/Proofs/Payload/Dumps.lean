import UsagePolicy.Payload.Dump
import UsagePolicy.Proofs.Payload.Fields

/-!
# Dumps as renderings

A dump gives every field of a part under the one of its keys that was asked for, in the order of
the declaration. Its JSON form is one of the renderings of the part.
-/

namespace UsagePolicy

open Json (Members Spell GivenOr RendersOptional RendersEach RendersText)

variable {α : Type} {c : NodeClass} {R : Json → Prop}

/-- The value has a JSON form as described. -/
def Value.Dumps (x : Value) (R : Json → Prop) : Prop := ∃ v, x.toJson = .ok v ∧ R v

theorem Json.GivenOr.weaken {P : Json → Prop} {omitted : Prop} {x : Option Json}
    (h : GivenOr False P x) : GivenOr omitted P x := h.mono False.elim fun _ => id

/-! ## Objects with all their fields -/

theorem Naming.isKey (n : Naming) (f : Field) : f.IsKey (n.key f) := by
  cases n
  · exact .inl rfl
  · exact .inr rfl

theorem NodeClass.nodup_fields (c : NodeClass) : c.fields.Nodup := by
  cases c <;> decide

/-- All fields of a class in their order, each with a value, spell these values. -/
theorem spell_fields (n : Naming) (c : NodeClass) (given : Field → Json) :
    Spell (c.fields.map fun f => (n.key f, given f)) c fun f => some (given f) where
  distinct := by
    rw [List.map_map]
    refine c.nodup_fields.map_on fun f _ f' _ same => ?_
    exact Field.eq_of_isKey (n.isKey f) ((show n.key f = n.key f' from same) ▸ n.isKey f')
  known := by
    intro m hm
    obtain ⟨f, hf, rfl⟩ := List.mem_map.mp hm
    exact ⟨f, hf, n.isKey f, rfl⟩
  spelled := by
    intro f hf _
    refine ⟨(n.key f, given f), ⟨List.mem_map_of_mem hf, n.isKey f⟩, ?_⟩
    rintro m ⟨hm, key⟩
    obtain ⟨f', -, rfl⟩ := List.mem_map.mp hm
    rw [Field.eq_of_isKey key (n.isKey f')]

theorem toJsonEntries_fields (n : Naming) {fs : List Field} {value : Field → Value}
    {given : Field → Json} (h : ∀ f ∈ fs, (value f).toJson = .ok (given f)) :
    Value.toJsonEntries (fs.map fun f => (n.key f, value f)) =
      .ok (fs.map fun f => (n.key f, given f)) := by
  induction fs with
  | nil => rfl
  | cons f fs ih =>
    rw [List.forall_mem_cons] at h
    rw [List.map_cons, Value.toJsonEntries, h.1, ih h.2]
    rfl

/-- An entry for each field of a class is a node of the class, if the values of the fields are as
the node asks for. -/
theorem dumps_node (n : Naming) (c : NodeClass) (value : Field → Value) (Q : Field → Json → Prop)
    {P : (Field → Option Json) → Prop} (each : ∀ f ∈ c.fields, (value f).Dumps (Q f))
    (fields : ∀ given, (∀ f ∈ c.fields, GivenOr False (Q f) (given f)) → P given) :
    (Value.dict (c.fields.map fun f => (n.key f, value f))).Dumps (·.IsNode c P) := by
  have forms : ∀ f, ∃ v, f ∈ c.fields → (value f).toJson = .ok v ∧ Q f v := by
    intro f
    by_cases hf : f ∈ c.fields
    · obtain ⟨v, form⟩ := each f hf
      exact ⟨v, fun _ => form⟩
    · exact ⟨.null, fun h => absurd h hf⟩
  choose given form using forms
  refine ⟨.object (c.fields.map fun f => (n.key f, given f)), ?_, _, _, rfl,
    spell_fields n c given, fields _ fun f hf => (form f hf).2⟩
  rw [Value.toJson, toJsonEntries_fields n fun f hf => (form f hf).1]
  rfl

theorem dumps_text (t : Text) : (Value.text t).Dumps (RendersText t) := ⟨_, rfl, rfl⟩

theorem dumps_ofText? (o : Option Text) :
    (Value.ofText? o).Dumps (RendersOptional RendersText o) := by
  cases o with
  | none => exact ⟨.null, rfl, rfl⟩
  | some t => exact ⟨.text t, rfl, rfl⟩

theorem dumps_each {dump : α → Value} {R : α → Json → Prop} {as : List α}
    (h : ∀ a ∈ as, (dump a).Dumps (R a)) :
    (Value.tuple (as.map dump)).Dumps (RendersEach R as) := by
  have items : ∃ vs, Value.toJsonItems (as.map dump) = .ok vs ∧ List.Forall₂ R as vs := by
    induction as with
    | nil => exact ⟨[], rfl, .nil⟩
    | cons a as ih =>
      rw [List.forall_mem_cons] at h
      obtain ⟨⟨v, hv, renders⟩, each⟩ := h
      obtain ⟨vs, hvs, rest⟩ := ih each
      refine ⟨v :: vs, ?_, .cons renders rest⟩
      rw [List.map_cons, Value.toJsonItems, hv, hvs]
      rfl
  obtain ⟨vs, hvs, each⟩ := items
  refine ⟨.array vs, ?_, vs, rfl, each⟩
  rw [Value.toJson, hvs]
  rfl

/-! ## Dumps of parts -/

/-- What a field of an expression is dumped as. -/
def Expression.values (e : Expression) : Field → Value
  | .expressionType => .text "literal"
  | _ => e.value.value

/-- What a field of an expression renders. -/
def Expression.FieldRenders (e : Expression) : Field → Json → Prop
  | .expressionType => RendersText "literal"
  | _ => (· = e.value.json)

theorem Expression.dumps (n : Naming) (e : Expression) : (e.dump n).Dumps e.Renders := by
  have literal : e.value.value.Dumps (· = e.value.json) := by
    cases e.value <;> exact ⟨_, rfl, rfl⟩
  refine dumps_node n .literalExpression e.values e.FieldRenders ?_ fun given h => ?_
  · simp only [NodeClass.fields, List.forall_mem_cons]
    exact ⟨dumps_text _, literal, List.forall_mem_nil _⟩
  · simp only [NodeClass.fields, List.forall_mem_cons] at h
    exact ⟨h.1.weaken, h.2.1⟩

/-- What a field of a comparison is dumped as. -/
def AtomicConstraint.values (n : Naming) (a : AtomicConstraint) : Field → Value
  | .constraintType => .text "atomic"
  | .leftExpression => a.left.dump n
  | .operator => .member (.operator a.operator)
  | _ => a.right.dump n

/-- What a field of a comparison renders. -/
def AtomicConstraint.FieldRenders (a : AtomicConstraint) : Field → Json → Prop
  | .constraintType => RendersText "atomic"
  | .leftExpression => a.left.Renders
  | .operator => RendersText a.operator.name
  | _ => a.right.Renders

/-- A comparison is dumped with its tag, so it may stand where both kinds of constraints may. -/
theorem AtomicConstraint.dumps (n : Naming) (a : AtomicConstraint) (untagged : Prop) :
    (a.dump n).Dumps (a.Renders untagged) := by
  have operator : (Value.member (.operator a.operator)).Dumps (RendersText a.operator.name) :=
    ⟨_, rfl, rfl⟩
  refine dumps_node n .atomicConstraint (a.values n) a.FieldRenders ?_ fun given h => ?_
  · simp only [NodeClass.fields, List.forall_mem_cons]
    exact ⟨dumps_text _, a.left.dumps n, operator, a.right.dumps n, List.forall_mem_nil _⟩
  · simp only [NodeClass.fields, List.forall_mem_cons] at h
    exact ⟨h.1.weaken, h.2.1, h.2.2.1, h.2.2.2.1⟩

theorem Constraint.dumpList_eq_map (n : Naming) (cs : List Constraint) :
    Constraint.dumpList n cs = cs.map (Constraint.dump n) := by
  induction cs with
  | nil => rfl
  | cons c cs ih => rw [dumpList, ih, List.map_cons]

/-- What a field of several constraints put together is dumped as. -/
def Constraint.multiplicityValues (n : Naming) (k : MultiplicityKind) (cs : List Constraint) :
    Field → Value
  | .constraintType => .text "multiplicity"
  | .kind => .member (.multiplicityKind k)
  | _ => .tuple (Constraint.dumpList n cs)

/-- What a field of several constraints put together renders. -/
def Constraint.MultiplicityFieldRenders (k : MultiplicityKind) (cs : List Constraint) :
    Field → Json → Prop
  | .constraintType => RendersText "multiplicity"
  | .kind => RendersText k.name
  | _ => RendersEach Constraint.RendersTagged cs

theorem Constraint.dumps (n : Naming) : ∀ (c : Constraint) (untagged : Prop),
    (c.dump n).Dumps (c.Renders untagged)
  | .atomic a, untagged => by
    simp only [Constraint.Renders, Constraint.dump]
    exact a.dumps n untagged
  | .multiplicity k cs, untagged => by
    have kind : (Value.member (.multiplicityKind k)).Dumps (RendersText k.name) := ⟨_, rfl, rfl⟩
    have members : (Value.tuple (Constraint.dumpList n cs)).Dumps
        (RendersEach Constraint.RendersTagged cs) := by
      rw [dumpList_eq_map]
      exact dumps_each fun c _ => c.dumps n False
    have dumped := dumps_node n .multiplicityConstraint (multiplicityValues n k cs)
      (MultiplicityFieldRenders k cs)
      (P := fun given => GivenOr untagged (RendersText "multiplicity") (given .constraintType) ∧
        GivenOr False (RendersText k.name) (given .kind) ∧
        GivenOr (cs = []) (RendersEach Constraint.RendersTagged cs) (given .constraints)) ?_
      fun given h => ?_
    · obtain ⟨v, form, node⟩ := dumped
      exact ⟨v, by rw [Constraint.dump]; exact form, renders_multiplicity.mpr node⟩
    · simp only [NodeClass.fields, List.forall_mem_cons]
      exact ⟨dumps_text _, kind, members, List.forall_mem_nil _⟩
    · simp only [NodeClass.fields, List.forall_mem_cons] at h
      exact ⟨h.1.weaken, h.2.1, h.2.2.1.weaken⟩

/-- What is dumped for a part that may be absent. -/
theorem dumps_optional {R : α → Json → Prop} {o : Option α} {x : Value}
    (absent : o = none → x = .absent) (part : ∀ a, o = some a → x.Dumps (R a)) :
    x.Dumps (RendersOptional R o) := by
  cases o with
  | none => exact ⟨.null, by rw [absent rfl]; rfl, rfl⟩
  | some a => exact part a rfl

/-- What a field of an action is dumped as. -/
def Action.values (n : Naming) (a : Action) : Field → Value
  | .type => .text a.type
  | .includedIn => .ofText? a.includedIn
  | _ => match a.refinement with
    | none => .absent
    | some c => c.dump n

/-- What a field of an action renders. -/
def Action.FieldRenders (a : Action) : Field → Json → Prop
  | .type => RendersText a.type
  | .includedIn => RendersOptional RendersText a.includedIn
  | _ => RendersOptional Constraint.RendersTagged a.refinement

theorem Action.dumps (n : Naming) (a : Action) : (a.dump n).Dumps a.Renders := by
  refine dumps_node n .action (a.values n) a.FieldRenders ?_ fun given h => ?_
  · simp only [NodeClass.fields, List.forall_mem_cons]
    refine ⟨dumps_text _, dumps_ofText? _, dumps_optional ?_ ?_, List.forall_mem_nil _⟩
    · intro none
      simp only [Action.values, none]
    · intro c some
      simp only [Action.values, some]
      exact c.dumps n False
  · simp only [NodeClass.fields, List.forall_mem_cons] at h
    exact ⟨h.1, h.2.1.weaken, h.2.2.1.weaken⟩

namespace Rule

/-- What the fields that all rules share are dumped as, and one more field. -/
def values (n : Naming) (r : Rule) (more : Value) : Field → Value
  | .action => match r.action with
    | none => .absent
    | some a => a.dump n
  | .constraints => .tuple (Constraint.dumpList n r.constraints)
  | _ => more

/-- What a field that all rules share renders, or one more field. -/
def FieldRenders (r : Rule) (R : Json → Prop) : Field → Json → Prop
  | .action => RendersOptional Action.Renders r.action
  | .constraints => RendersEach Constraint.RendersTagged r.constraints
  | _ => R

theorem dumps_action (n : Naming) (r : Rule) (more : Value) (R : Json → Prop) :
    (r.values n more .action).Dumps (r.FieldRenders R .action) := by
  refine dumps_optional ?_ ?_
  · intro none
    simp only [values, none]
  · intro a some
    simp only [values, some]
    exact a.dumps n

theorem dumps_constraints (n : Naming) (r : Rule) (more : Value) (R : Json → Prop) :
    (r.values n more .constraints).Dumps (r.FieldRenders R .constraints) := by
  rw [values, Constraint.dumpList_eq_map]
  exact dumps_each fun c _ => c.dumps n False

/-- The entries of a rule are the ones of a class without fields of its own. -/
theorem dumps_entries (n : Naming) (r : Rule) (hc : c.fields = [.action, .constraints]) :
    (Value.dict (r.entries n)).Dumps (·.IsNode c r.RendersFields) := by
  have dumped := dumps_node n c (r.values n .absent) (r.FieldRenders fun _ => True)
    (P := r.RendersFields) ?_ fun given h => ?_
  · rwa [hc] at dumped
  · simp only [hc, List.forall_mem_cons]
    exact ⟨r.dumps_action n _ _, r.dumps_constraints n _ _, List.forall_mem_nil _⟩
  · simp only [hc, List.forall_mem_cons] at h
    exact ⟨h.1.weaken, h.2.1.weaken⟩

/-- The entries of a rule and one more are the ones of a class with one field of its own. -/
theorem dumps_with (n : Naming) (r : Rule) {f : Field} (hf : f = .consequence ∨ f = .duties)
    (hc : c.fields = [.action, .constraints, f]) {more : Value} (h : more.Dumps R)
    (omitted : Prop) : (Value.dict (r.entries n ++ [(n.key f, more)])).Dumps
      (·.IsNode c fun given => r.RendersFields given ∧ GivenOr omitted R (given f)) := by
  have own : r.values n more f = more ∧ r.FieldRenders R f = R := by
    rcases hf with rfl | rfl <;> exact ⟨rfl, rfl⟩
  have dumped := dumps_node n c (r.values n more) (r.FieldRenders R)
    (P := fun given => r.RendersFields given ∧ GivenOr omitted R (given f)) ?_ fun given h => ?_
  · simp only [hc, List.map_cons, List.map_nil, own.1] at dumped
    exact dumped
  · simp only [hc, List.forall_mem_cons, own.1, own.2]
    exact ⟨r.dumps_action n _ _, r.dumps_constraints n _ _, h, List.forall_mem_nil _⟩
  · simp only [hc, List.forall_mem_cons, own.2] at h
    exact ⟨⟨h.1.weaken, h.2.1.weaken⟩, h.2.2.1.weaken⟩

end Rule

theorem Duty.dumps (n : Naming) : ∀ d : Duty, (d.dump n).Dumps d.Renders
  | .mk r none => by
    have consequence : Value.absent.Dumps (· = .null) := ⟨.null, rfl, rfl⟩
    obtain ⟨v, form, given⟩ := r.dumps_with n (.inl rfl) (c := .duty) rfl consequence True
    refine ⟨v, by rw [Duty.dump]; exact form, ?_⟩
    rw [Duty.Renders]
    exact given
  | .mk r (some d) => by
    obtain ⟨v, form, given⟩ := r.dumps_with n (.inl rfl) (c := .duty) rfl (d.dumps n) False
    refine ⟨v, by rw [Duty.dump]; exact form, ?_⟩
    rw [Duty.Renders]
    exact given

theorem Permission.dumps (n : Naming) (p : Permission) : (p.dump n).Dumps p.Renders := by
  have duties : (Value.tuple (p.duties.map (Duty.dump n))).Dumps
      (RendersEach Duty.Renders p.duties) := dumps_each fun d _ => d.dumps n
  exact p.rule.dumps_with n (.inr rfl) rfl duties _

theorem Prohibition.dumps (n : Naming) (p : Prohibition) : (p.dump n).Dumps p.Renders :=
  p.rule.dumps_entries n rfl

/-- What a field of a policy is dumped as. -/
def Policy.values (n : Naming) (p : Policy) : Field → Value
  | .type => .member (.policyType p.type)
  | .permissions => .tuple (p.permissions.map (Permission.dump n))
  | .prohibitions => .tuple (p.prohibitions.map (Prohibition.dump n))
  | .obligations => .tuple (p.obligations.map (Duty.dump n))
  | .assignee => .ofText? p.assignee
  | .assigner => .ofText? p.assigner
  | _ => .ofText? p.target

/-- What a field of a policy renders. -/
def Policy.FieldRenders (p : Policy) : Field → Json → Prop
  | .type => RendersText p.type.name
  | .permissions => RendersEach Permission.Renders p.permissions
  | .prohibitions => RendersEach Prohibition.Renders p.prohibitions
  | .obligations => RendersEach Duty.Renders p.obligations
  | .assignee => RendersOptional RendersText p.assignee
  | .assigner => RendersOptional RendersText p.assigner
  | _ => RendersOptional RendersText p.target

theorem Policy.dumps (n : Naming) (p : Policy) : (p.dump n).Dumps p.Renders := by
  have type : (Value.member (.policyType p.type)).Dumps (RendersText p.type.name) := ⟨_, rfl, rfl⟩
  refine dumps_node n .policy (p.values n) p.FieldRenders ?_ fun given h => ?_
  · simp only [NodeClass.fields, List.forall_mem_cons]
    exact ⟨type, dumps_each fun q _ => q.dumps n, dumps_each fun q _ => q.dumps n,
      dumps_each fun d _ => d.dumps n, dumps_ofText? _, dumps_ofText? _, dumps_ofText? _,
      List.forall_mem_nil _⟩
  · simp only [NodeClass.fields, List.forall_mem_cons] at h
    obtain ⟨type, permissions, prohibitions, obligations, assignee, assigner, target, -⟩ := h
    exact ⟨type.weaken, permissions.weaken, prohibitions.weaken, obligations.weaken,
      assignee.weaken, assigner.weaken, target.weaken⟩

end UsagePolicy
