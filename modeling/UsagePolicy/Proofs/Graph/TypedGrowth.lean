import UsagePolicy.Proofs.Encoding.WellTyped
import UsagePolicy.Proofs.Graph.Grown
import UsagePolicy.Proofs.Payload.Plain

/-!
# Graphs of plain policies

The nodes that a policy is put into a graph with have values of the declared types in their fields,
if its integers keep to the limit on digits. A policy that was read from a payload does.
-/

namespace UsagePolicy

namespace Graph

variable {g h : Graph} {v : Value}

/-! ## Types in a growing graph -/

theorem Extends.hasType (hg : g.Extends h) : ∀ {t : FieldType} {v : Value},
    g.HasType v t → h.HasType v t
  | .constant _, _, typed | .text, _, typed | .literal, _, typed | .policyType, _, typed
  | .multiplicityKind, _, typed | .operator, _, typed => typed
  | .node _, _, typed => by
    obtain ⟨c, hc, belongs⟩ := typed
    exact ⟨c, hg.nodeClass? hc, belongs⟩
  | .constraint, _, typed => typed.imp hg.nodeClass? hg.nodeClass?
  | .optional _, _, typed => typed.imp_right hg.hasType
  | .tuple _, _, typed => by
    obtain ⟨xs, same, each⟩ := typed
    exact ⟨xs, same, fun x member => hg.hasType (each x member)⟩

theorem Extends.typedNode (hg : g.Extends h) {n : Node} (typed : g.TypedNode n) :
    h.TypedNode n := by
  intro f hf
  obtain ⟨x, hx, hasType⟩ := typed f hf
  exact ⟨x, hx, hg.hasType hasType⟩

/-- Every node of the graph has values of the declared types in its fields. -/
def AllTyped (g : Graph) : Prop := ∀ n ∈ g.nodes.toList, g.TypedNode n

theorem allTyped_empty : empty.AllTyped := fun _ member => absurd member List.not_mem_nil

theorem AllTyped.add (all : g.AllTyped) {n : Node} (typed : g.TypedNode n) :
    (g.add n).1.AllTyped := by
  intro m member
  apply (extends_add g n).typedNode
  rw [Graph.add, Array.toList_push] at member
  rcases List.mem_append.mp member with old | new
  · exact all m old
  · obtain rfl := List.mem_singleton.mp new
    exact typed

end Graph

open UsagePolicy.Graph

/-! ## Growing by typed nodes -/

variable {g : Graph}

/-- In a graph whose nodes are typed, the nodes that are added are typed and a value of the type is
found. -/
def Growing.Typed (grow : Growing Value) (t : FieldType) : Prop :=
  ∀ g : Graph, g.AllTyped → Gives (fun h v => h.AllTyped ∧ h.HasType v t) g (grow g)

theorem Growing.typed_node (c : NodeClass) (given : List (Field × Value)) (all : g.AllTyped)
    (fields : ∀ f ∈ c.fields, ∃ x, (Node.make c given).get? f = some x ∧
      g.HasType x (c.fieldType f)) :
    Gives (fun h v => h.AllTyped ∧ h.nodeClass? v = some c) g (Growing.node c given g) := by
  obtain ⟨grown, hc, -⟩ := Growing.gives_node c given g
  exact ⟨grown, all.add fields, hc⟩

theorem Growing.Typed.optional {α : Type} {grow : α → Growing Value} {t : FieldType} {o : Option α}
    (each : ∀ a ∈ o, Growing.Typed (grow a) t) :
    Growing.Typed (Growing.optional grow o) (.optional t) := by
  intro g all
  cases o with
  | none => exact ⟨.refl g, all, .inl rfl⟩
  | some a =>
    obtain ⟨grown, typed, hasType⟩ := each a rfl g all
    exact ⟨grown, typed, .inr hasType⟩

theorem Growing.Typed.each {α : Type} {grow : α → Growing Value} {t : FieldType} {as : List α}
    (each : ∀ a ∈ as, Growing.Typed (grow a) t) (all : g.AllTyped) :
    Gives (fun h vs => h.AllTyped ∧ h.HasType (.tuple vs) (.tuple t)) g
      (Growing.each grow as g) := by
  suffices Gives (fun h vs => h.AllTyped ∧ ∀ v ∈ vs, h.HasType v t) g (Growing.each grow as g) by
    obtain ⟨grown, all, values⟩ := this
    exact ⟨grown, all, _, rfl, values⟩
  induction as generalizing g with
  | nil => exact ⟨.refl g, all, fun _ member => absurd member List.not_mem_nil⟩
  | cons a as ih =>
    obtain ⟨grown, typed, first⟩ := each a List.mem_cons_self g all
    obtain ⟨further, typed, rest⟩ :=
      ih (fun b member => each b (List.mem_cons_of_mem _ member)) typed
    refine ⟨grown.trans further, typed, fun v member => ?_⟩
    rcases List.mem_cons.mp member with rfl | member
    · exact further.hasType first
    · exact rest v member

/-! ## Parts -/

theorem hasType_ofText? (g : Graph) (o : Option Text) :
    g.HasType (.ofText? o) (.optional .text) := by
  cases o with
  | none => exact .inl rfl
  | some t => exact .inr rfl

theorem Expression.Plain.typed {e : Expression} (plain : e.Plain) :
    Growing.Typed e.grow (.node .literalExpression) := by
  intro g all
  have literal : e.value.value.IsLiteral := by
    rw [Expression.Plain] at plain
    cases h : e.value with
    | int i =>
      rw [h] at plain
      exact plain
    | _ => exact trivial
  obtain ⟨grown, typed, hc⟩ := Growing.typed_node .literalExpression [(.value, e.value.value)] all
    (by
      simp only [NodeClass.fields, List.forall_mem_cons]
      exact ⟨⟨_, rfl, rfl⟩, ⟨_, rfl, literal⟩, nofun⟩)
  exact ⟨grown, typed, _, hc, rfl⟩

theorem AtomicConstraint.Plain.typed {a : AtomicConstraint} (plain : a.Plain) :
    Growing.Typed a.grow .constraint := by
  intro g all
  obtain ⟨grownLeft, all, left⟩ := plain.1.typed g all
  obtain ⟨grownRight, all, right⟩ := plain.2.typed _ all
  obtain ⟨grown, all, hc⟩ := Growing.typed_node .atomicConstraint
    [(.leftExpression, (a.left.grow g).1), (.operator, .member (.operator a.operator)),
      (.rightExpression, (a.right.grow (a.left.grow g).2).1)] all
    (by
      simp only [NodeClass.fields, List.forall_mem_cons]
      exact ⟨⟨_, rfl, rfl⟩, ⟨_, rfl, grownRight.hasType left⟩, ⟨_, rfl, _, rfl⟩, ⟨_, rfl, right⟩,
        nofun⟩)
  exact ⟨grownLeft.trans (grownRight.trans grown), all, .inl hc⟩

mutual

theorem Constraint.Plain.typed : ∀ {c : Constraint}, c.Plain → Growing.Typed c.grow .constraint
  | .atomic a, plain => by
    rw [Constraint.Plain] at plain
    exact plain.typed
  | .multiplicity k cs, plain => by
    rw [Constraint.Plain] at plain
    intro g all
    obtain ⟨grownMembers, all, members⟩ := Constraint.AllPlain.typed plain g all
    obtain ⟨grown, all, hc⟩ := Growing.typed_node .multiplicityConstraint
      [(.kind, .member (.multiplicityKind k)), (.constraints, .tuple (Constraint.growAll cs g).1)]
      all
      (by
        simp only [NodeClass.fields, List.forall_mem_cons]
        exact ⟨⟨_, rfl, rfl⟩, ⟨_, rfl, _, rfl⟩, ⟨_, rfl, _, rfl, members⟩, nofun⟩)
    exact ⟨grownMembers.trans grown, all, .inr hc⟩

theorem Constraint.AllPlain.typed : ∀ {cs : List Constraint}, AllPlain cs → ∀ g : Graph,
    g.AllTyped → Gives (fun h vs => h.AllTyped ∧ ∀ v ∈ vs, h.HasType v .constraint) g
      (Constraint.growAll cs g)
  | [], _, g, all => ⟨.refl g, all, fun _ member => absurd member List.not_mem_nil⟩
  | c :: cs, plain, g, all => by
    rw [AllPlain] at plain
    obtain ⟨grown, all, first⟩ := plain.1.typed g all
    obtain ⟨further, all, rest⟩ := Constraint.AllPlain.typed plain.2 _ all
    refine ⟨grown.trans further, all, fun v member => ?_⟩
    rcases List.mem_cons.mp member with rfl | member
    · exact further.hasType first
    · exact rest v member

end

theorem Action.Plain.typed {a : Action} (plain : a.Plain) :
    Growing.Typed a.grow (.node .action) := by
  intro g all
  obtain ⟨grownRefinement, all, refinement⟩ :=
    Growing.Typed.optional (fun c hc => (plain.refinement c hc).typed) g all
  obtain ⟨grown, all, hc⟩ := Growing.typed_node .action
    [(.type, .text a.type), (.includedIn, .ofText? a.includedIn),
      (.constraint, (Growing.optional Constraint.grow a.refinement g).1)] all
    (by
      simp only [NodeClass.fields, List.forall_mem_cons]
      exact ⟨⟨_, rfl, rfl⟩, ⟨_, rfl, hasType_ofText? _ _⟩, ⟨_, rfl, refinement⟩, nofun⟩)
  exact ⟨grownRefinement.trans grown, all, _, hc, rfl⟩

/-- The fields that rules share have values of the types that they are declared with. -/
def Graph.TypedRuleFields (g : Graph) (fields : List (Field × Value)) : Prop :=
  ∃ x xs, fields = [(.action, x), (.constraints, .tuple xs)] ∧
    g.HasType x (.optional (.node .action)) ∧ g.HasType (.tuple xs) (.tuple .constraint)

theorem Graph.Extends.typedRuleFields {h : Graph} (hg : g.Extends h)
    {fields : List (Field × Value)} (typed : g.TypedRuleFields fields) :
    h.TypedRuleFields fields := by
  obtain ⟨x, xs, same, action, constraints⟩ := typed
  exact ⟨x, xs, same, hg.hasType action, hg.hasType constraints⟩

theorem Rule.Plain.typed {r : Rule} (plain : r.Plain) (all : g.AllTyped) :
    Gives (fun h fields => h.AllTyped ∧ h.TypedRuleFields fields) g (r.growFields g) := by
  obtain ⟨grownAction, all, action⟩ :=
    Growing.Typed.optional (fun a ha => (plain.1 a ha).typed) g all
  obtain ⟨grown, all, constraints⟩ :=
    Constraint.AllPlain.typed (Constraint.allPlain_iff.mpr plain.2) _ all
  exact ⟨grownAction.trans grown, all, _, _, rfl, grown.hasType action, _, rfl, constraints⟩

theorem Duty.Plain.typed : ∀ {d : Duty}, d.Plain → Growing.Typed d.grow (.node .duty)
  | .mk r none, plain, g, all => by
    obtain ⟨grownRule, all, x, xs, given, action, constraints⟩ :=
      Rule.Plain.typed (r := r) plain all
    obtain ⟨grown, all, hc⟩ := Growing.typed_node .duty (r.growFields g).1 all
      (by
        simp only [NodeClass.fields, List.forall_mem_cons, given]
        exact ⟨⟨_, rfl, action⟩, ⟨_, rfl, constraints⟩, ⟨_, rfl, .inl rfl⟩, nofun⟩)
    exact ⟨grownRule.trans grown, all, _, hc, rfl⟩
  | .mk r (some d), plain, g, all => by
    obtain ⟨rule, duty⟩ := plain
    obtain ⟨grownRule, all, fields⟩ := rule.typed all
    obtain ⟨grownDuty, all, consequence⟩ := duty.typed _ all
    obtain ⟨x, xs, given, action, constraints⟩ := grownDuty.typedRuleFields fields
    obtain ⟨grown, all, hc⟩ := Growing.typed_node .duty
      ((r.growFields g).1 ++ [(.consequence, (d.grow (r.growFields g).2).1)]) all
      (by
        simp only [NodeClass.fields, List.forall_mem_cons, given]
        exact ⟨⟨_, rfl, action⟩, ⟨_, rfl, constraints⟩, ⟨_, rfl, .inr consequence⟩, nofun⟩)
    exact ⟨grownRule.trans (grownDuty.trans grown), all, _, hc, rfl⟩

theorem Permission.Plain.typed {p : Permission} (plain : p.Plain) :
    Growing.Typed p.grow (.node .permission) := by
  intro g all
  obtain ⟨grownRule, all, fields⟩ := plain.1.typed all
  obtain ⟨grownDuties, all, duties⟩ :=
    Growing.Typed.each (fun d hd => (plain.2 d hd).typed) all
  obtain ⟨x, xs, given, action, constraints⟩ := grownDuties.typedRuleFields fields
  obtain ⟨grown, all, hc⟩ := Growing.typed_node .permission
    ((p.rule.growFields g).1
      ++ [(.duties, .tuple (Growing.each Duty.grow p.duties (p.rule.growFields g).2).1)]) all
    (by
      simp only [NodeClass.fields, List.forall_mem_cons, given]
      exact ⟨⟨_, rfl, action⟩, ⟨_, rfl, constraints⟩, ⟨_, rfl, duties⟩, nofun⟩)
  exact ⟨grownRule.trans (grownDuties.trans grown), all, _, hc, rfl⟩

theorem Prohibition.typed_of_plain {p : Prohibition} (plain : p.rule.Plain) :
    Growing.Typed p.grow (.node .prohibition) := by
  intro g all
  obtain ⟨grownRule, all, x, xs, given, action, constraints⟩ := plain.typed all
  obtain ⟨grown, all, hc⟩ := Growing.typed_node .prohibition (p.rule.growFields g).1 all
    (by
      simp only [NodeClass.fields, List.forall_mem_cons, given]
      exact ⟨⟨_, rfl, action⟩, ⟨_, rfl, constraints⟩, nofun⟩)
  exact ⟨grownRule.trans grown, all, _, hc, rfl⟩

theorem Policy.Plain.typed {p : Policy} (plain : p.Plain) :
    Growing.Typed p.grow (.node .policy) := by
  intro g all
  obtain ⟨grownPermissions, all, permissions⟩ :=
    Growing.Typed.each (fun q hq => (plain.permissions q hq).typed) all
  obtain ⟨grownProhibitions, all, prohibitions⟩ :=
    Growing.Typed.each (fun q hq => Prohibition.typed_of_plain (plain.prohibitions q hq)) all
  obtain ⟨grownObligations, all, obligations⟩ :=
    Growing.Typed.each (fun d hd => (plain.obligations d hd).typed) all
  let ps := Growing.each Permission.grow p.permissions g
  let qs := Growing.each Prohibition.grow p.prohibitions ps.2
  let ds := Growing.each Duty.grow p.obligations qs.2
  obtain ⟨grown, all, hc⟩ := Growing.typed_node .policy
    [(.type, .member (.policyType p.type)), (.permissions, .tuple ps.1),
      (.prohibitions, .tuple qs.1), (.obligations, .tuple ds.1),
      (.assignee, .ofText? p.assignee), (.assigner, .ofText? p.assigner),
      (.target, .ofText? p.target)] all
    (by
      simp only [NodeClass.fields, List.forall_mem_cons]
      exact ⟨⟨_, rfl, _, rfl⟩,
        ⟨_, rfl, (grownProhibitions.trans grownObligations).hasType permissions⟩,
        ⟨_, rfl, grownObligations.hasType prohibitions⟩, ⟨_, rfl, obligations⟩,
        ⟨_, rfl, hasType_ofText? _ _⟩, ⟨_, rfl, hasType_ofText? _ _⟩,
        ⟨_, rfl, hasType_ofText? _ _⟩, nofun⟩)
  exact ⟨grownPermissions.trans (grownProhibitions.trans (grownObligations.trans grown)), all, _,
    hc, rfl⟩

/-- A plain policy is well-typed in the graph that it is put into. -/
theorem Policy.Plain.wellTyped {p : Policy} (plain : p.Plain) :
    (p.grow .empty).2.WellTyped (p.grow .empty).1 := by
  obtain ⟨-, all, typed⟩ := plain.typed _ allTyped_empty
  exact wellTyped_of_nodes (nodeClass?_of_hasType typed (by decide)) all

end UsagePolicy
