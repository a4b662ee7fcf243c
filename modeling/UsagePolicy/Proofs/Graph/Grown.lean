import UsagePolicy.Encoding.Failure
import UsagePolicy.Graph.OfPolicy
import UsagePolicy.Proofs.Encoding.Depiction

/-!
# Graphs of policies

A policy that is put into a graph is depicted there. Nodes are added one after the other and never
changed, so what a value depicts it depicts in every graph that grows from the one it stands in.
-/

namespace UsagePolicy

namespace Graph

/-- Every node of the first graph stands in the second one as it is. -/
def Extends (g h : Graph) : Prop := ∀ r n, g.node? r = some n → h.node? r = some n

theorem Extends.refl (g : Graph) : g.Extends g := fun _ _ hn => hn

theorem Extends.trans {g h i : Graph} (hg : g.Extends h) (hh : h.Extends i) : g.Extends i :=
  fun r n hn => hh r n (hg r n hn)

theorem extends_add (g : Graph) (n : Node) : g.Extends (g.add n).1 := by
  intro r m hm
  have inside : r < g.nodes.size := (Array.getElem?_eq_some_iff.mp hm).1
  simp only [add, node?, Array.getElem?_push, if_neg (Nat.ne_of_lt inside)]
  exact hm

variable {g h : Graph} {v : Value}

/-! ## What grows with a graph -/

theorem Extends.nodeClass? (hg : g.Extends h) {c : NodeClass} (hc : g.nodeClass? v = some c) :
    h.nodeClass? v = some c := by
  cases v with
  | node r =>
    obtain ⟨n, hn, rfl⟩ := Option.map_eq_some_iff.mp hc
    simp [Graph.nodeClass?, hg r n hn]
  | _ => cases hc

theorem fieldOf_node {r : Ref} {f : Field} {x : Value} :
    g.fieldOf (.node r) f = .ok x ↔ ∃ n, g.node? r = some n ∧ n.get? f = some x := by
  cases hn : g.node? r with
  | none => simp [Graph.fieldOf, hn]
  | some n => cases hx : n.get? f <;> simp [Graph.fieldOf, hn, hx]

theorem Extends.fieldOf (hg : g.Extends h) {f : Field} {x : Value} (hx : g.fieldOf v f = .ok x) :
    h.fieldOf v f = .ok x := by
  cases v with
  | node r =>
    obtain ⟨n, hn, hx⟩ := fieldOf_node.mp hx
    exact fieldOf_node.mpr ⟨n, hg r n hn, hx⟩
  | _ => cases hx

theorem Extends.fieldIs (hg : g.Extends h) {f : Field} {P Q : Value → Prop}
    (hPQ : ∀ x, P x → Q x) (hv : g.FieldIs v f P) : h.FieldIs v f Q := by
  obtain ⟨x, hx, hp⟩ := hv
  exact ⟨x, hg.fieldOf hx, hPQ x hp⟩

theorem DepictsOptional.mono {α : Type} {P Q : Value → α → Prop} (hPQ : ∀ x a, P x a → Q x a)
    {o : Option α} (hv : DepictsOptional P v o) : DepictsOptional Q v o := by
  cases o with
  | none => exact hv
  | some a => exact ⟨hv.1, hPQ v a hv.2⟩

theorem DepictsEach.mono {α : Type} {P Q : Value → α → Prop} (hPQ : ∀ x a, P x a → Q x a)
    {as : List α} (hv : DepictsEach P v as) : DepictsEach Q v as := by
  obtain ⟨xs, rfl, each⟩ := hv
  exact ⟨xs, rfl, each.imp hPQ⟩

theorem Extends.expression (hg : g.Extends h) {v : Value} {e : Expression}
    (hv : g.DepictsExpression v e) : h.DepictsExpression v e :=
  ⟨hg.nodeClass? hv.1, hg.fieldIs (fun _ hx => hx) hv.2⟩

theorem Extends.atomic (hg : g.Extends h) {v : Value} {a : AtomicConstraint}
    (hv : g.DepictsAtomic v a) : h.DepictsAtomic v a :=
  ⟨hg.nodeClass? hv.1, hg.fieldIs (fun _ => hg.expression) hv.2.1,
    hg.fieldIs (fun _ hx => hx) hv.2.2.1, hg.fieldIs (fun _ => hg.expression) hv.2.2.2⟩

mutual

theorem Extends.constraint (hg : g.Extends h) : ∀ {v : Value} {c : Constraint},
    g.DepictsConstraint v c → h.DepictsConstraint v c
  | v, .atomic a, hv => by
    rw [DepictsConstraint] at hv ⊢
    exact hg.atomic hv
  | v, .multiplicity k cs, hv => by
    rw [DepictsConstraint] at hv ⊢
    obtain ⟨hc, hk, hcs⟩ := hv
    refine ⟨hg.nodeClass? hc, hg.fieldIs (fun _ hx => hx) hk, hg.fieldIs ?_ hcs⟩
    rintro _ ⟨xs, rfl, each⟩
    exact ⟨xs, rfl, hg.constraints each⟩

theorem Extends.constraints (hg : g.Extends h) : ∀ {xs : List Value} {cs : List Constraint},
    g.DepictsConstraints xs cs → h.DepictsConstraints xs cs
  | [], [], hv => hv
  | x :: xs, c :: cs, hv => by
    rw [DepictsConstraints] at hv ⊢
    exact ⟨hg.constraint hv.1, hg.constraints hv.2⟩

end

theorem Extends.action (hg : g.Extends h) {v : Value} {a : Action} (hv : g.DepictsAction v a) :
    h.DepictsAction v a :=
  ⟨hg.nodeClass? hv.1, hg.fieldIs (fun _ hx => hx) hv.2.1, hg.fieldIs (fun _ hx => hx) hv.2.2.1,
    hg.fieldIs (fun _ => DepictsOptional.mono fun _ _ => hg.constraint) hv.2.2.2⟩

theorem Extends.rule (hg : g.Extends h) {v : Value} {r : Rule} (hv : g.DepictsRule v r) :
    h.DepictsRule v r :=
  ⟨hg.fieldIs (fun _ => DepictsOptional.mono fun _ _ => hg.action) hv.1,
    hg.fieldIs (fun _ => DepictsEach.mono fun _ _ => hg.constraint) hv.2⟩

theorem Extends.duty (hg : g.Extends h) : ∀ {v : Value} {d : Duty},
    g.DepictsDuty v d → h.DepictsDuty v d
  | v, .mk r none, hv => by
    rw [DepictsDuty] at hv ⊢
    exact ⟨hg.nodeClass? hv.1, hg.rule hv.2.1, hg.fieldIs (fun _ hx => hx) hv.2.2⟩
  | v, .mk r (some d), hv => by
    rw [DepictsDuty] at hv ⊢
    exact ⟨hg.nodeClass? hv.1, hg.rule hv.2.1,
      hg.fieldIs (fun _ hx => ⟨hx.1, hg.duty hx.2⟩) hv.2.2⟩

theorem Extends.permission (hg : g.Extends h) {v : Value} {q : Permission}
    (hv : g.DepictsPermission v q) : h.DepictsPermission v q :=
  ⟨hg.nodeClass? hv.1, hg.rule hv.2.1,
    hg.fieldIs (fun _ => DepictsEach.mono fun _ _ => hg.duty) hv.2.2⟩

theorem Extends.prohibition (hg : g.Extends h) {v : Value} {q : Prohibition}
    (hv : g.DepictsProhibition v q) : h.DepictsProhibition v q :=
  ⟨hg.nodeClass? hv.1, hg.rule hv.2⟩

end Graph

/-! ## New nodes -/

/-- The graph that grew holds all nodes of the one before, and what was found has a property in
it. -/
structure Gives {α : Type} (P : Graph → α → Prop) (g : Graph) (x : α × Graph) : Prop where
  grown : g.Extends x.2
  holds : P x.2 x.1

open UsagePolicy.Graph

variable {g : Graph}

/-- A new node has the class and the fields that it is given. -/
theorem Growing.gives_node (c : NodeClass) (given : List (Field × Value)) (g : Graph) :
    Gives (fun h v => h.nodeClass? v = some c ∧ ∀ f x,
      (Node.make c given).get? f = some x → h.fieldOf v f = .ok x) g (Growing.node c given g) := by
  have found : (Growing.node c given g).2.node? g.nodes.size = some (Node.make c given) := by
    simp [Growing.node, add, node?]
  exact ⟨extends_add g _, congrArg (Option.map Node.nodeClass) found,
    fun f x hx => fieldOf_node.mpr ⟨_, found, hx⟩⟩

theorem ne_absent_of_nodeClass? {v : Value} {c : NodeClass} (hc : g.nodeClass? v = some c) :
    v ≠ .absent := by
  rintro rfl
  cases hc

theorem Growing.gives_optional {α : Type} {grow : α → Growing Value} {P : Graph → Value → α → Prop}
    (present : ∀ {g v a}, P g v a → v ≠ .absent) (o : Option α)
    (each : ∀ a ∈ o, ∀ g, Gives (fun h v => P h v a) g (grow a g)) (g : Graph) :
    Gives (fun h v => DepictsOptional (P h) v o) g (Growing.optional grow o g) := by
  cases o with
  | none => exact ⟨.refl g, rfl⟩
  | some a =>
    obtain ⟨grown, holds⟩ := each a rfl g
    exact ⟨grown, present holds, holds⟩

theorem Growing.gives_each {α : Type} {grow : α → Growing Value} (P : Graph → Value → α → Prop)
    (mono : ∀ {g h : Graph}, g.Extends h → ∀ {v a}, P g v a → P h v a) (as : List α)
    (each : ∀ a ∈ as, ∀ g, Gives (fun h v => P h v a) g (grow a g)) (g : Graph) :
    Gives (fun h vs => List.Forall₂ (P h) vs as) g (Growing.each grow as g) := by
  induction as generalizing g with
  | nil => exact ⟨.refl g, .nil⟩
  | cons a as ih =>
    have first := each a (List.mem_cons_self ..) g
    have rest := ih (fun b member => each b (List.mem_cons_of_mem _ member)) (grow a g).2
    exact ⟨first.grown.trans rest.grown, .cons (mono rest.grown first.holds) rest.holds⟩

theorem gives_expression (e : Expression) (g : Graph) :
    Gives (fun h v => h.DepictsExpression v e) g (e.grow g) := by
  obtain ⟨grown, hc, fields⟩ := Growing.gives_node .literalExpression [(.value, e.value.value)] g
  refine ⟨grown, hc, e.value.value, fields .value _ rfl, ?_⟩
  cases e.value <;> rfl

theorem gives_atomic (a : AtomicConstraint) (g : Graph) :
    Gives (fun h v => h.DepictsAtomic v a) g (a.grow g) := by
  have left := gives_expression a.left g
  have right := gives_expression a.right (a.left.grow g).2
  obtain ⟨grown, hc, fields⟩ := Growing.gives_node .atomicConstraint
    [(.leftExpression, (a.left.grow g).1), (.operator, .member (.operator a.operator)),
      (.rightExpression, (a.right.grow (a.left.grow g).2).1)] (a.right.grow (a.left.grow g).2).2
  exact ⟨left.grown.trans (right.grown.trans grown), hc,
    ⟨_, fields .leftExpression _ rfl, (right.grown.trans grown).expression left.holds⟩,
    ⟨_, fields .operator _ rfl, rfl⟩,
    ⟨_, fields .rightExpression _ rfl, grown.expression right.holds⟩⟩

theorem constraint_ne_absent {v : Value} {c : Constraint} (h : g.DepictsConstraint v c) :
    v ≠ .absent := by
  cases c <;> rw [DepictsConstraint] at h <;> exact ne_absent_of_nodeClass? h.1

mutual

theorem gives_constraint : ∀ (c : Constraint) (g : Graph),
    Gives (fun h v => h.DepictsConstraint v c) g (c.grow g)
  | .atomic a, g => by
    obtain ⟨grown, holds⟩ := gives_atomic a g
    exact ⟨grown, by rwa [DepictsConstraint]⟩
  | .multiplicity k cs, g => by
    have members := gives_constraints cs g
    obtain ⟨grown, hc, fields⟩ := Growing.gives_node .multiplicityConstraint
      [(.kind, .member (.multiplicityKind k)),
        (.constraints, .tuple (Constraint.growAll cs g).1)] (Constraint.growAll cs g).2
    refine ⟨members.grown.trans grown, ?_⟩
    rw [DepictsConstraint]
    exact ⟨hc, ⟨_, fields .kind _ rfl, rfl⟩,
      ⟨_, fields .constraints _ rfl, _, rfl, grown.constraints members.holds⟩⟩

theorem gives_constraints : ∀ (cs : List Constraint) (g : Graph),
    Gives (fun h vs => h.DepictsConstraints vs cs) g (Constraint.growAll cs g)
  | [], g => ⟨.refl g, trivial⟩
  | c :: cs, g => by
    have first := gives_constraint c g
    have rest := gives_constraints cs (c.grow g).2
    exact ⟨first.grown.trans rest.grown, rest.grown.constraint first.holds, rest.holds⟩

end

theorem optionalText?_ofText? (o : Option Text) : (Value.ofText? o).optionalText? = some o := by
  cases o <;> rfl

theorem gives_action (a : Action) (g : Graph) :
    Gives (fun h v => h.DepictsAction v a) g (a.grow g) := by
  have refinement := Growing.gives_optional constraint_ne_absent a.refinement
    (fun c _ g => gives_constraint c g) g
  obtain ⟨grown, hc, fields⟩ := Growing.gives_node .action
    [(.type, .text a.type), (.includedIn, .ofText? a.includedIn),
      (.constraint, (Growing.optional Constraint.grow a.refinement g).1)]
    (Growing.optional Constraint.grow a.refinement g).2
  exact ⟨refinement.grown.trans grown, hc, ⟨_, fields .type _ rfl, rfl⟩,
    ⟨_, fields .includedIn _ rfl, optionalText?_ofText? a.includedIn⟩,
    ⟨_, fields .constraint _ rfl, refinement.holds.mono fun _ _ => grown.constraint⟩⟩

/-- The fields that rules share, as a rule has them. -/
theorem gives_rule (r : Rule) (g : Graph) : Gives (fun h fields => ∃ x xs,
    fields = [(.action, x), (.constraints, .tuple xs)] ∧
      DepictsOptional h.DepictsAction x r.action ∧ h.DepictsConstraints xs r.constraints) g
    (r.growFields g) := by
  have action := Growing.gives_optional (fun h => ne_absent_of_nodeClass? h.1) r.action
    (fun a _ g => gives_action a g) g
  have constraints := gives_constraints r.constraints (Growing.optional Action.grow r.action g).2
  exact ⟨action.grown.trans constraints.grown, _, _, rfl,
    action.holds.mono fun _ _ => constraints.grown.action, constraints.holds⟩

theorem Graph.Extends.rule_of_fields {h : Graph} (grown : g.Extends h) {v x : Value}
    {xs : List Value} {r : Rule} (hx : h.fieldOf v .action = .ok x)
    (hxs : h.fieldOf v .constraints = .ok (.tuple xs))
    (action : DepictsOptional g.DepictsAction x r.action)
    (constraints : g.DepictsConstraints xs r.constraints) : h.DepictsRule v r :=
  ⟨⟨x, hx, action.mono fun _ _ => grown.action⟩,
    ⟨_, hxs, xs, rfl, (h.depictsConstraints_iff).mp (grown.constraints constraints)⟩⟩

theorem duty_ne_absent {v : Value} {d : Duty} (h : g.DepictsDuty v d) : v ≠ .absent := by
  obtain ⟨r, c⟩ := d
  cases c <;> rw [DepictsDuty] at h <;> exact ne_absent_of_nodeClass? h.1

theorem gives_duty : ∀ (d : Duty) (g : Graph), Gives (fun h v => h.DepictsDuty v d) g (d.grow g)
  | .mk r none, g => by
    obtain ⟨grown, x, xs, given, action, constraints⟩ := gives_rule r g
    obtain ⟨grown', hc, fields⟩ := Growing.gives_node .duty (r.growFields g).1 (r.growFields g).2
    refine ⟨grown.trans grown', ?_⟩
    rw [DepictsDuty]
    exact ⟨hc, grown'.rule_of_fields (fields .action x (by rw [given]; rfl))
      (fields .constraints _ (by rw [given]; rfl)) action
      constraints, ⟨_, fields .consequence _ (by rw [given]; rfl), rfl⟩⟩
  | .mk r (some d), g => by
    obtain ⟨grown, x, xs, given, action, constraints⟩ := gives_rule r g
    have consequence := gives_duty d (r.growFields g).2
    obtain ⟨grown', hc, fields⟩ := Growing.gives_node .duty
      ((r.growFields g).1 ++ [(.consequence, (d.grow (r.growFields g).2).1)])
      (d.grow (r.growFields g).2).2
    refine ⟨grown.trans (consequence.grown.trans grown'), ?_⟩
    rw [DepictsDuty]
    have later := consequence.grown.trans grown'
    exact ⟨hc, later.rule_of_fields (fields .action x (by rw [given]; rfl))
      (fields .constraints _ (by rw [given]; rfl)) action constraints,
      ⟨_, fields .consequence _ (by rw [given]; rfl), duty_ne_absent consequence.holds,
        grown'.duty consequence.holds⟩⟩

theorem gives_permission (q : Permission) (g : Graph) :
    Gives (fun h v => h.DepictsPermission v q) g (q.grow g) := by
  obtain ⟨grown, x, xs, given, action, constraints⟩ := gives_rule q.rule g
  have duties := Growing.gives_each DepictsDuty (fun hg => hg.duty) q.duties
    (fun d _ g => gives_duty d g) (q.rule.growFields g).2
  obtain ⟨grown', hc, fields⟩ := Growing.gives_node .permission
    ((q.rule.growFields g).1
      ++ [(.duties, .tuple (Growing.each Duty.grow q.duties (q.rule.growFields g).2).1)])
    (Growing.each Duty.grow q.duties (q.rule.growFields g).2).2
  exact ⟨grown.trans (duties.grown.trans grown'), hc,
    (duties.grown.trans grown').rule_of_fields (fields .action x (by rw [given]; rfl))
      (fields .constraints _ (by rw [given]; rfl))
      action constraints,
    ⟨_, fields .duties _ (by rw [given]; rfl), _, rfl, duties.holds.imp fun _ _ => grown'.duty⟩⟩

theorem gives_prohibition (q : Prohibition) (g : Graph) :
    Gives (fun h v => h.DepictsProhibition v q) g (q.grow g) := by
  obtain ⟨grown, x, xs, given, action, constraints⟩ := gives_rule q.rule g
  obtain ⟨grown', hc, fields⟩ := Growing.gives_node .prohibition (q.rule.growFields g).1
    (q.rule.growFields g).2
  exact ⟨grown.trans grown', hc, grown'.rule_of_fields (fields .action x (by rw [given]; rfl))
    (fields .constraints _ (by rw [given]; rfl)) action constraints⟩

/-- A policy that is put into a graph is depicted there. -/
theorem gives_policy (p : Policy) (g : Graph) : Gives (fun h v => h.Depicts v p) g (p.grow g) := by
  let ps := Growing.each Permission.grow p.permissions g
  let qs := Growing.each Prohibition.grow p.prohibitions ps.2
  let ds := Growing.each Duty.grow p.obligations qs.2
  have permissions : Gives _ g ps := Growing.gives_each DepictsPermission (fun hg => hg.permission)
    p.permissions (fun q _ g => gives_permission q g) g
  have prohibitions : Gives _ ps.2 qs := Growing.gives_each DepictsProhibition
    (fun hg => hg.prohibition) p.prohibitions (fun q _ g => gives_prohibition q g) ps.2
  have obligations : Gives _ qs.2 ds := Growing.gives_each DepictsDuty (fun hg => hg.duty)
    p.obligations (fun d _ g => gives_duty d g) qs.2
  obtain ⟨grown, hc, fields⟩ := Growing.gives_node .policy
    [(.type, .member (.policyType p.type)), (.permissions, .tuple ps.1),
      (.prohibitions, .tuple qs.1), (.obligations, .tuple ds.1),
      (.assignee, .ofText? p.assignee), (.assigner, .ofText? p.assigner),
      (.target, .ofText? p.target)] ds.2
  have later := obligations.grown.trans grown
  refine ⟨permissions.grown.trans (prohibitions.grown.trans later), ?_⟩
  exact {
    policy := hc
    type := ⟨_, fields .type _ rfl, rfl⟩
    permissions := ⟨_, fields .permissions _ rfl, _, rfl,
      permissions.holds.imp fun _ _ => (prohibitions.grown.trans later).permission⟩
    prohibitions := ⟨_, fields .prohibitions _ rfl, _, rfl,
      prohibitions.holds.imp fun _ _ => later.prohibition⟩
    obligations := ⟨_, fields .obligations _ rfl, _, rfl,
      obligations.holds.imp fun _ _ => grown.duty⟩
    assignee := ⟨_, fields .assignee _ rfl, optionalText?_ofText? p.assignee⟩
    assigner := ⟨_, fields .assigner _ rfl, optionalText?_ofText? p.assigner⟩
    target := ⟨_, fields .target _ rfl, optionalText?_ofText? p.target⟩ }

/-- The participant of a policy in a role. -/
def Policy.participant (p : Policy) : Role → Option Text
  | .assignee => p.assignee
  | .assigner => p.assigner

theorem fieldOf_participant (p : Policy) (g : Graph) (role : Role) :
    (p.grow g).2.fieldOf (p.grow g).1 role.field = .ok (.ofText? (p.participant role)) := by
  have fields := (Growing.gives_node .policy _ _ : Gives _ _ (p.grow g)).holds.2
  cases role with
  | assignee => exact fields .assignee _ rfl
  | assigner => exact fields .assigner _ rfl

end UsagePolicy
