import UsagePolicy.Proofs.Encoding.Policies

/-!
# Well-typed policies

Every field of a class of nodes is declared with a type. Where all reachable nodes have values of
the declared types in their fields, every step leads to a value that is allowed there, and no
encoding stalls.
-/

namespace UsagePolicy

/-- A declared type of a field. -/
inductive FieldType
  | constant (t : Text)
  | text
  | literal
  | policyType
  | multiplicityKind
  | operator
  | node (c : NodeClass)
  | constraint
  | optional (t : FieldType)
  | tuple (t : FieldType)
deriving DecidableEq

/-- The type that a field of a class is declared with. -/
def NodeClass.fieldType (c : NodeClass) : Field → FieldType
  | .expressionType => .constant "literal"
  | .value => .literal
  | .constraintType =>
    .constant (if c = .multiplicityConstraint then "multiplicity" else "atomic")
  | .leftExpression | .rightExpression => .node .literalExpression
  | .operator => .operator
  | .kind => .multiplicityKind
  | .constraints => .tuple .constraint
  | .type => if c = .policy then .policyType else .text
  | .includedIn => .optional .text
  | .constraint => .optional .constraint
  | .action => .optional (.node .action)
  | .duties => .tuple (.node .duty)
  | .consequence => .optional (.node .duty)
  | .permissions => .tuple (.node .permission)
  | .prohibitions => .tuple (.node .prohibition)
  | .obligations => .tuple (.node .duty)
  | .assignee | .assigner | .target => .optional .text

/-- The value is a literal; an integer has at most 4300 digits. -/
def Value.IsLiteral : Value → Prop
  | .text _ | .member _ | .float _ | .bool _ => True
  | .int i => (Text.decimal i.natAbs).length ≤ 4300
  | _ => False

/-- The type of the values that a step leads to. -/
def PathStep.target : PathStep → FieldType
  | .type => .policyType
  | .assignee | .assigner => .text
  | .permission _ => .node .permission
  | .prohibition _ => .node .prohibition
  | .obligation _ | .duty _ | .consequence => .node .duty
  | .action => .node .action
  | .refinement | .constraint _ | .member _ _ => .constraint
  | .leftOperand | .rightOperand => .node .literalExpression
  | .operator => .operator

/-- The type that the field of a step is declared with. -/
def PathStep.declared (s : PathStep) : FieldType :=
  if s.index?.isSome then .tuple s.target else if s.isOptional then .optional s.target else s.target

namespace Graph

/-- The value is of the type. -/
def HasType (g : Graph) (v : Value) : FieldType → Prop
  | .constant t => v.text? = some t
  | .text => v.text?.isSome
  | .literal => v.IsLiteral
  | .policyType => ∃ t, v = .member (.policyType t)
  | .multiplicityKind => ∃ k, v = .member (.multiplicityKind k)
  | .operator => ∃ o, v = .member (.operator o)
  | .node c => ∃ c', g.nodeClass? v = some c' ∧ c'.isA c = true
  | .constraint => g.nodeClass? v = some .atomicConstraint ∨
    g.nodeClass? v = some .multiplicityConstraint
  | .optional t => v = .absent ∨ g.HasType v t
  | .tuple t => ∃ xs, v = .tuple xs ∧ ∀ x ∈ xs, g.HasType x t

/-- The fields of a node have values of their declared types. -/
def TypedNode (g : Graph) (n : Node) : Prop :=
  ∀ f ∈ n.nodeClass.fields, ∃ x, n.get? f = some x ∧ g.HasType x (n.nodeClass.fieldType f)

/-- The value is a policy, and every node that can be reached from it is typed. -/
structure WellTyped (g : Graph) (v : Value) : Prop where
  policy : g.nodeClass? v = some .policy
  typed : ∀ ss r n, g.reach? v ss = some (.node r) → g.node? r = some n → g.TypedNode n

variable {g : Graph} {v x y : Value} {s : PathStep} {ss : List PathStep} {c : NodeClass} {f : Field}

/-- A node is typed if it has a value for each field of its class, all of the declared types. -/
theorem typedNode_of_fields {n : Node} (all : n.fields.map Prod.fst = n.nodeClass.fields)
    (each : ∀ e ∈ n.fields, g.HasType e.2 (n.nodeClass.fieldType e.1)) : g.TypedNode n := by
  intro f hf
  rw [← all] at hf
  cases hx : n.fields.lookup f with
  | none =>
    obtain ⟨e, member, rfl⟩ := List.mem_map.mp hf
    exact absurd (List.lookup_eq_none_iff.mp hx e member) (by simp)
  | some x =>
    obtain ⟨as, bs, split, -⟩ := List.lookup_eq_some_iff.mp hx
    exact ⟨x, hx, each (f, x) (by simp [split])⟩

/-- A policy in a graph whose nodes are all typed is well-typed. -/
theorem wellTyped_of_nodes (hv : g.nodeClass? v = some .policy)
    (h : ∀ n ∈ g.nodes.toList, g.TypedNode n) : g.WellTyped v where
  policy := hv
  typed := by
    intro ss r n _ hn
    exact h n (Array.mem_toList_iff.mpr (Array.mem_of_getElem? hn))

/-! ## Fields and steps -/

theorem WellTyped.field (h : g.WellTyped v) (hx : g.reach? v ss = some x)
    (hc : g.nodeClass? x = some c) (hf : f ∈ c.fields) :
    ∃ y, g.fieldOf x f = .ok y ∧ g.HasType y (c.fieldType f) := by
  cases x with
  | node r =>
    obtain ⟨n, hn, rfl⟩ := Option.map_eq_some_iff.mp hc
    obtain ⟨y, hy, typed⟩ := h.typed ss r n hx hn f hf
    exact ⟨y, by simp [fieldOf, hn, hy], typed⟩
  | _ => simp [nodeClass?] at hc

/-- A step is taken from nodes of a class that declares its field. -/
theorem declared_of_opens (h : g.opens v s = true) :
    ∃ c, g.nodeClass? v = some c ∧ s.field ∈ c.fields ∧ c.fieldType s.field = s.declared := by
  cases hc : g.nodeClass? v with
  | none => cases s <;> simp [opens, hc] at h
  | some c =>
    refine ⟨c, rfl, ?_⟩
    cases s <;> simp only [opens, hc, Option.any_some, Option.some.injEq, Bool.or_eq_true,
      Bool.and_eq_true, decide_eq_true_eq, Bool.false_eq_true] at h
    case action | constraint =>
      rcases h with (rfl | rfl) | rfl
      all_goals exact ⟨by simp [PathStep.field, NodeClass.fields], rfl⟩
    case member =>
      obtain ⟨rfl, -⟩ := h
      exact ⟨by simp [PathStep.field, NodeClass.fields], rfl⟩
    all_goals
      subst h
      exact ⟨by simp [PathStep.field, NodeClass.fields], rfl⟩

theorem hasType_item {w : Value} {xs : List Value} {i : Nat} {t : FieldType}
    (typed : g.HasType w (.tuple t)) (hw : g.elements? w = some xs) (hy : xs[i]? = some y) :
    g.HasType y t := by
  obtain ⟨xs, rfl, each⟩ := typed
  obtain rfl := Option.some.inj hw
  exact each y (List.mem_of_getElem? hy)

/-- Steps lead to values of the declared types. -/
theorem WellTyped.follow (h : g.WellTyped v) (hx : g.reach? v ss = some x)
    (hy : g.follow? x s = some y) : g.HasType y s.target := by
  cases hi : s.index? with
  | some i =>
    obtain ⟨opens, w, xs, hw, hxs, hy⟩ := (follow?_of_index hi).mp hy
    obtain ⟨c, hc, hf, declared⟩ := declared_of_opens opens
    obtain ⟨w', hw', typed⟩ := h.field hx hc hf
    obtain rfl := Except.ok.inj (hw.symm.trans hw')
    simp only [declared, PathStep.declared, hi, Option.isSome_some, if_true] at typed
    exact hasType_item typed hxs hy
  | none =>
    obtain ⟨opens, hw, given⟩ := (follow?_of_single hi).mp hy
    obtain ⟨c, hc, hf, declared⟩ := declared_of_opens opens
    obtain ⟨w', hw', typed⟩ := h.field hx hc hf
    obtain rfl := Except.ok.inj (hw.symm.trans hw')
    simp only [declared, PathStep.declared, hi, Option.isSome_none, Bool.false_eq_true,
      if_false] at typed
    by_cases optional : s.isOptional = true
    · rw [if_pos optional] at typed
      rcases typed with absent | typed
      · exact absurd absent (given optional)
      · exact typed
    · rwa [if_neg optional] at typed

theorem reach?_snoc (hx : g.reach? v ss = some x) (hy : g.follow? x s = some y) :
    g.reach? v (ss ++ [s]) = some y := by
  simp [reach?_append, hx, reach?_cons, hy]

/-- The last step of a path that leads somewhere. -/
theorem exists_of_reach? (hy : g.reach? v ss = some y) :
    (ss = [] ∧ y = v) ∨ ∃ front s x, ss = front ++ [s] ∧ g.reach? v front = some x ∧
      g.follow? x s = some y := by
  rcases List.eq_nil_or_concat ss with rfl | ⟨front, s, rfl⟩
  · exact .inl ⟨rfl, (Option.some.inj hy).symm⟩
  · rw [List.concat_eq_append, reach?_append] at hy
    obtain ⟨x, hx, hy⟩ := Option.bind_eq_some_iff.mp hy
    obtain ⟨z, hz, hy⟩ := reach?_cons_eq_some.mp hy
    obtain rfl : z = y := Option.some.inj hy
    exact .inr ⟨front, s, x, List.concat_eq_append, hx, hz⟩

/-! ## Values of declared types -/

/-- The only class that others belong to is that of rules. -/
theorem eq_of_isA {c' : NodeClass} (hc : c ≠ .rule) (h : c'.isA c = true) : c' = c := by
  cases c <;> cases c' <;> simp_all [NodeClass.isA]

theorem nodeClass?_of_hasType (typed : g.HasType v (.node c)) (hc : c ≠ .rule) :
    g.nodeClass? v = some c := by
  obtain ⟨c', hv, belongs⟩ := typed
  rw [hv, eq_of_isA hc belongs]

/-- Values where a step leads are put on the active path exactly if the step enters them. -/
theorem entered?_of_hasType (typed : g.HasType v s.target) : (g.entered? v).isSome = s.enters := by
  have ofNode : ∀ {c}, g.nodeClass? v = some c → (g.entered? v).isSome = c.isEntered := by
    intro c hc
    cases v with
    | node r => cases h : c.isEntered <;> simp [entered?, hc, h, Trail.mark]
    | _ => simp [nodeClass?] at hc
  cases s
  case type =>
    obtain ⟨t, rfl⟩ := typed
    rfl
  case operator =>
    obtain ⟨o, rfl⟩ := typed
    rfl
  case assignee | assigner =>
    cases v with
    | text t => rfl
    | member m => rfl
    | _ => simp [PathStep.target, HasType, Value.text?] at typed
  case refinement | constraint | member => rcases typed with hc | hc <;> exact ofNode hc
  all_goals exact ofNode (nodeClass?_of_hasType typed (by decide))

/-- Where a step leads without entering anything, no step leads on without entering anything. -/
theorem enters_of_opens (typed : g.HasType v s.target) (hs : s.enters = false) {s' : PathStep}
    (h : g.opens v s' = true) : s'.enters = true := by
  have ofClass : ∀ {c}, c = .action ∨ c = .literalExpression → g.nodeClass? v = some c →
      s'.enters = true := by
    rintro c (rfl | rfl) hc <;> cases s' <;> simp_all [opens, PathStep.enters, PathStep.spot?]
  have noNode : ∀ v, (∀ r, v ≠ .node r) → g.opens v s' = true → s'.enters = true := by
    intro v hv h
    obtain ⟨r, n, rfl, -⟩ := nodeClass?_of_opens h
    exact absurd rfl (hv r)
  cases s <;> simp [PathStep.enters, PathStep.spot?] at hs
  case type =>
    obtain ⟨t, rfl⟩ := typed
    exact noNode _ (by simp) h
  case operator =>
    obtain ⟨o, rfl⟩ := typed
    exact noNode _ (by simp) h
  case assignee | assigner =>
    refine noNode v ?_ h
    rintro r rfl
    simp [PathStep.target, HasType, Value.text?] at typed
  case action => exact ofClass (.inl rfl) (nodeClass?_of_hasType typed (by decide))
  case leftOperand | rightOperand =>
    exact ofClass (.inr rfl) (nodeClass?_of_hasType typed (by decide))

/-- Values of declared types are variants that are allowed where they stand. -/
theorem admits_of_hasType (typed : g.HasType v s.target)
    (kind : g.nodeClass? v = some .multiplicityConstraint → ∀ k, g.fieldOf v .kind = .ok k →
      (Outline.kind? k).isSome) : g.Admits s v := by
  cases s
  case type =>
    obtain ⟨t, rfl⟩ := typed
    cases t <;> rfl
  case operator => exact typed
  case assignee | assigner | action =>
    intro spot same
    cases same
  case leftOperand | rightOperand => exact nodeClass?_of_hasType typed (by decide)
  case refinement | constraint | member =>
    intro spot same
    obtain rfl := Option.some.inj same
    rcases typed with hc | hc
    · exact .inl hc
    · exact .inr ⟨hc, kind hc⟩
  all_goals
    intro spot same
    obtain rfl := Option.some.inj same
    exact ⟨_, nodeClass?_of_hasType typed (by decide), by decide, by decide⟩

theorem stops_literal_of_hasType {opened : List Slot} (typed : g.HasType v .literal) :
    (Outline.literal g opened v).stops = [] := by
  cases v with
  | bool b => cases b <;> rfl
  | text t => rfl
  | member m => rfl
  | int i =>
    have short : Text.isOversized i = false := Text.isOversized_eq_false.mpr typed
    simp [Outline.literal, plainWithin, shownWithin, Value.shownWith, short, Outline.stops]
  | float d => rfl
  | _ => exact absurd typed id

/-! ## Encodings of well-typed policies -/

/-- Every value below a policy is a variant that is allowed where it stands. -/
theorem WellTyped.allowedAt (h : g.WellTyped v) (hy : g.reach? v ss = some y) :
    g.AllowedAt ss y := by
  rcases exists_of_reach? hy with ⟨rfl, rfl⟩ | ⟨front, s, x, rfl, hx, hy'⟩
  · exact h.policy
  · have typed := h.follow hx hy'
    simp only [AllowedAt, List.getLast?_append, List.getLast?_singleton, Option.some_or]
    apply admits_of_hasType typed
    intro hc k hk
    obtain ⟨k', hk', kind, rfl⟩ := h.field (f := .kind) hy hc (by decide)
    obtain rfl := Except.ok.inj (hk.symm.trans hk')
    cases kind <;> rfl

theorem not_error_mem_withField {e : Failure} {k : Value → List Branch} {w : Value}
    (hw : g.fieldOf x f = .ok w) (hk : .error e ∉ k w) : .error e ∉ g.withField x f k := by
  unfold withField
  rwa [hw]

/-- Where all fields are there and those for several values can be gone through, every branch leads
to a value. -/
theorem not_error_mem_branches_of_fields
    (h : ∀ c, g.nodeClass? x = some c → ∀ f ∈ c.fields, ∃ w, g.fieldOf x f = .ok w ∧
      ∀ t, c.fieldType f = .tuple t → (g.elements? w).isSome) (e : Failure) :
    .error e ∉ g.branches x := by
  cases hc : g.nodeClass? x with
  | none => simp [branches, hc]
  | some c =>
    have field := h c hc
    have demanded : ∀ f ∈ c.fields, .error e ∉ g.demanded x f := by
      intro f hf
      obtain ⟨w, hw, -⟩ := field f hf
      exact not_error_mem_withField hw List.not_mem_nil
    have single : ∀ s : PathStep, s.field ∈ c.fields → .error e ∉ g.single x s := by
      intro s hf
      obtain ⟨w, hw, -⟩ := field s.field hf
      apply not_error_mem_withField hw
      split <;> simp
    have items : ∀ f step t, f ∈ c.fields → c.fieldType f = .tuple t →
        .error e ∉ g.several x f step ∧ .error e ∉ g.severalIfTruthy x f step := by
      intro f step t hf ht
      obtain ⟨w, hw, iterable⟩ := field f hf
      obtain ⟨xs, hxs⟩ := Option.isSome_iff_exists.mp (iterable t ht)
      have elements : .error e ∉ g.elementBranches step w := by
        simp [elementBranches, hxs]
      refine ⟨not_error_mem_withField hw elements, not_error_mem_withField hw ?_⟩
      split
      · exact elements
      · exact List.not_mem_nil
    unfold branches policyBranches ruleBranches memberBranches
    cases c <;> simp only [hc, List.mem_append, not_or, List.not_mem_nil, not_false_eq_true]
    case policy =>
      exact ⟨single .type (by decide),
        ⟨⟨(items .permissions _ _ (by decide) rfl).1, (items .prohibitions _ _ (by decide) rfl).1⟩,
          (items .obligations _ _ (by decide) rfl).1⟩, demanded .target (by decide)⟩
    case permission =>
      exact ⟨⟨single .action (by decide), (items .constraints _ _ (by decide) rfl).2⟩,
        (items .duties _ _ (by decide) rfl).2⟩
    case prohibition =>
      exact ⟨single .action (by decide), (items .constraints _ _ (by decide) rfl).2⟩
    case duty =>
      exact ⟨⟨single .action (by decide), (items .constraints _ _ (by decide) rfl).2⟩,
        single .consequence (by decide)⟩
    case action =>
      exact ⟨⟨demanded .type (by decide), demanded .includedIn (by decide)⟩,
        single .refinement (by decide)⟩
    case atomicConstraint =>
      exact ⟨⟨single .leftOperand (by decide), single .operator (by decide)⟩,
        single .rightOperand (by decide)⟩
    case multiplicityConstraint =>
      obtain ⟨w, hw, -⟩ := field .kind (by decide)
      apply not_error_mem_withField hw
      split
      · exact (items .constraints _ _ (by decide) rfl).1
      · exact List.not_mem_nil

/-- All fields of a value below a policy can be read. -/
theorem WellTyped.not_error_mem_branches (h : g.WellTyped v) (hx : g.reach? v ss = some x)
    (e : Failure) : .error e ∉ g.branches x := by
  refine not_error_mem_branches_of_fields (fun c hc f hf => ?_) e
  obtain ⟨w, hw, typed⟩ := h.field hx hc hf
  refine ⟨w, hw, fun t ht => ?_⟩
  rw [ht] at typed
  obtain ⟨xs, rfl, -⟩ := typed
  rfl

/-- No encoding of a well-typed policy fails for other reasons than a fault. -/
theorem WellTyped.not_stallsAt (h : g.WellTyped v) (e : Failure) : ¬ g.StallsAt v e := by
  rintro (⟨role, hf⟩ | field | ⟨s, ss, y, hy, stall⟩)
  · have declared : role.field ∈ NodeClass.policy.fields := by cases role <;> decide
    obtain ⟨w, hw, -⟩ := h.field (reach?_nil g v) h.policy declared
    cases hf.symm.trans hw
  · exact h.not_error_mem_branches (reach?_nil g v) e field
  · have last : (s :: ss).getLast? = some (ss.getLastD s) := by simp [List.getLast?_cons]
    have allowed := h.allowedAt hy
    simp only [AllowedAt, last] at allowed
    cases stall with
    | field member => exact h.not_error_mem_branches hy e member
    | action hs hc =>
      rcases exists_of_reach? hy with ⟨nil, -⟩ | ⟨front, s', x, split, hx, hy'⟩
      · cases nil
      · rw [split, List.getLast?_append, List.getLast?_singleton, Option.some_or] at last
        obtain rfl : s' = .action := (Option.some.inj last).trans hs
        exact hc (nodeClass?_of_hasType (h.follow hx hy') (by decide))
    | rejected _ rejected => exact rejected allowed
    | literal hc member =>
      obtain ⟨w, hw, typed⟩ := h.field (f := .value) hy hc (by decide)
      rw [hw] at member
      simp only [Outline.withValue, stops_literal_of_hasType typed] at member
      exact absurd member List.not_mem_nil

end Graph

end UsagePolicy
