import UsagePolicy.Encoding.Walk

/-!
# Positions in a policy

A position is where the steps of a path lead. `Graph.follow?` goes one step from a value and
`Graph.reach?` goes a whole path, through nodes that are shared or contain themselves as through any
others. The rules and constraints that a path goes through are those above its end.
-/

namespace UsagePolicy

namespace PathStep

/-- What must stand where a step leads, if going there means to enter a rule or a constraint. -/
def spot? : PathStep → Option Spot
  | .permission _ => some (.rule .permission)
  | .prohibition _ => some (.rule .prohibition)
  | .obligation _ | .duty _ | .consequence => some (.rule .duty)
  | .refinement | .constraint _ | .member _ _ => some .constraint
  | _ => none

/-- The step leads to a rule or a constraint. -/
def enters (s : PathStep) : Bool := s.spot?.isSome

/-- The field that a step goes through. -/
def field : PathStep → Field
  | .type => .type
  | .assignee => .assignee
  | .assigner => .assigner
  | .permission _ => .permissions
  | .prohibition _ => .prohibitions
  | .obligation _ => .obligations
  | .action => .action
  | .refinement => .constraint
  | .constraint _ | .member _ _ => .constraints
  | .duty _ => .duties
  | .consequence => .consequence
  | .leftOperand => .leftExpression
  | .operator => .operator
  | .rightOperand => .rightExpression

/-- The index of the item that a step goes to, if the field holds items. -/
def index? : PathStep → Option Nat
  | .permission i | .prohibition i | .obligation i | .constraint i | .duty i | .member _ i => some i
  | _ => none

/-- The field may be absent, and then the step leads nowhere. -/
def isOptional : PathStep → Bool
  | .action | .refinement | .consequence => true
  | _ => false

/-- The place of the kind of a step in the order in which a document is written. -/
def rank : PathStep → Nat
  | .type => 0
  | .assignee => 1
  | .assigner => 2
  | .permission _ => 3
  | .prohibition _ => 4
  | .obligation _ => 5
  | .action => 6
  | .refinement => 7
  | .constraint _ => 8
  | .duty _ => 9
  | .consequence => 10
  | .member _ _ => 11
  | .leftOperand => 12
  | .operator => 13
  | .rightOperand => 14

/-- The first step comes before the second one in a document. -/
def Precedes (s s' : PathStep) : Prop :=
  s.rank < s'.rank ∨ (s.rank = s'.rank ∧ s.index?.getD 0 < s'.index?.getD 0)

theorem Precedes.asymm {s s' : PathStep} (h : s.Precedes s') : ¬ s'.Precedes s := by
  unfold Precedes at *
  omega

theorem Precedes.irrefl (s : PathStep) : ¬ s.Precedes s := fun h => h.asymm h

end PathStep

namespace Path

/-- The path followed by further steps. -/
def append (p : Path) (ss : List PathStep) : Path := ⟨p.root, p.steps ++ ss⟩

@[simp] theorem append_nil (p : Path) : p.append [] = p := by simp [append]

@[simp] theorem snoc_append (p : Path) (s : PathStep) (ss : List PathStep) :
    (p.snoc s).append ss = p.append (s :: ss) := by simp [append, snoc]

/-- The position at the end of the first path comes before that of the second one: it is above it,
or it branches off to what is written earlier. -/
def Earlier : List PathStep → List PathStep → Prop := List.Lex PathStep.Precedes

theorem not_earlier_nil (ss : List PathStep) : ¬ Earlier ss [] := List.not_lex_nil

theorem earlier_cons {s : PathStep} {ss ss' : List PathStep} (h : Earlier ss' (s :: ss)) :
    ss' = [] ∨ ∃ s' rest, ss' = s' :: rest ∧ (s'.Precedes s ∨ s' = s ∧ Earlier rest ss) := by
  cases h with
  | nil => exact .inl rfl
  | rel h => exact .inr ⟨_, _, rfl, .inl h⟩
  | cons h => exact .inr ⟨_, _, rfl, .inr ⟨rfl, h⟩⟩

end Path

/-- Nothing is there. -/
def Value.isAbsent : Value → Bool
  | .absent => true
  | _ => false

@[simp] theorem Value.isAbsent_iff {v : Value} : v.isAbsent = true ↔ v = .absent := by
  cases v <;> simp [isAbsent]

/-- Nodes of the class are put on the active path when they are encoded. -/
def NodeClass.isEntered : NodeClass → Bool
  | .permission | .prohibition | .duty | .atomicConstraint | .multiplicityConstraint => true
  | _ => false

namespace Graph

/-- The step can be taken from the value. Participants are resolved and not looked into. -/
def opens (g : Graph) (v : Value) : PathStep → Bool
  | .type | .permission _ | .prohibition _ | .obligation _ => g.nodeClass? v = some .policy
  | .assignee | .assigner => false
  | .action | .constraint _ => (g.nodeClass? v).any fun c =>
    c = .permission || c = .prohibition || c = .duty
  | .duty _ => g.nodeClass? v = some .permission
  | .consequence => g.nodeClass? v = some .duty
  | .refinement => g.nodeClass? v = some .action
  | .member k _ => g.nodeClass? v = some .multiplicityConstraint
    && (g.fieldOf v .kind).toOption.bind Outline.kind? = some k
  | .leftOperand | .operator | .rightOperand => g.nodeClass? v = some .atomicConstraint

/-- Where a step leads from a value. -/
def follow? (g : Graph) (v : Value) (s : PathStep) : Option Value :=
  if g.opens v s then
    match g.fieldOf v s.field, s.index? with
    | .ok x, some i => ((g.elements? x).getD [])[i]?
    | .ok x, none => if s.isOptional && x.isAbsent then none else some x
    | .error _, _ => none
  else none

/-- Where steps lead from a value. -/
def reach? (g : Graph) : Value → List PathStep → Option Value
  | v, [] => some v
  | v, s :: ss => (g.follow? v s).bind fun x => reach? g x ss

/-- The reference of a rule or a constraint. -/
def entered? (g : Graph) (v : Value) : Option Ref :=
  if (g.nodeClass? v).any NodeClass.isEntered then Trail.mark v else none

/-- The references with that of a value before them, if it is a rule or a constraint. -/
def under (g : Graph) (v : Value) (up : List Ref) : List Ref := (g.entered? v).toList ++ up

/-- The rules and constraints above the end of a path from a value, the innermost first; `up` are
those above the value itself. -/
def above (g : Graph) : (up : List Ref) → Value → List PathStep → List Ref
  | up, _, [] => up
  | up, v, s :: ss => match g.follow? v s with
    | some x => above g (g.under v up) x ss
    | none => up

@[simp] theorem reach?_nil (g : Graph) (v : Value) : g.reach? v [] = some v := rfl

theorem reach?_cons (g : Graph) (v : Value) (s : PathStep) (ss : List PathStep) :
    g.reach? v (s :: ss) = (g.follow? v s).bind fun x => g.reach? x ss := rfl

theorem reach?_cons_eq_some {g : Graph} {v x : Value} {s : PathStep} {ss : List PathStep} :
    g.reach? v (s :: ss) = some x ↔ ∃ y, g.follow? v s = some y ∧ g.reach? y ss = some x :=
  Option.bind_eq_some_iff

theorem reach?_append (g : Graph) (v : Value) (ss ts : List PathStep) :
    g.reach? v (ss ++ ts) = (g.reach? v ss).bind fun x => g.reach? x ts := by
  induction ss generalizing v with
  | nil => rfl
  | cons s ss ih =>
    rw [List.cons_append, reach?_cons, reach?_cons, Option.bind_assoc]
    congr 1
    funext x
    exact ih x

theorem above_cons {g : Graph} {v y : Value} {s : PathStep} (h : g.follow? v s = some y)
    (up : List Ref) (ss : List PathStep) :
    g.above up v (s :: ss) = g.above (g.under v up) y ss := by
  rw [above, h]

/-- What stands above the end of a path is met on the way there. -/
theorem exists_of_mem_above {g : Graph} {up : List Ref} {v : Value} {ss : List PathStep} {r : Ref}
    (h : r ∈ g.above up v ss) :
    r ∈ up ∨ ∃ front back, ss = front ++ back ∧ back ≠ [] ∧
      g.reach? v front = some (.node r) := by
  induction ss generalizing up v with
  | nil => exact .inl h
  | cons s ss ih =>
    unfold above at h
    cases hx : g.follow? v s with
    | none =>
      rw [hx] at h
      exact .inl h
    | some x =>
      rw [hx] at h
      rcases ih h with here | ⟨front, back, rfl, hb, hr⟩
      · rcases List.mem_append.mp here with entry | above
        · have entry : g.entered? v = some r := by simpa using entry
          have value : v = .node r := by
            unfold entered? at entry
            cases v <;> simp [Trail.mark] at entry
            exact congrArg _ entry.2
          exact .inr ⟨[], s :: ss, rfl, by simp, by simp [value]⟩
        · exact .inl above
      · exact .inr ⟨s :: front, back, rfl, hb, reach?_cons_eq_some.mpr ⟨x, hx, hr⟩⟩

theorem opens_of_follow? {g : Graph} {v x : Value} {s : PathStep} (h : g.follow? v s = some x) :
    g.opens v s = true := by
  unfold follow? at h
  split at h
  · next opens => exact opens
  · cases h

theorem follow?_of_index {g : Graph} {v x : Value} {s : PathStep} {i : Nat}
    (hi : s.index? = some i) :
    g.follow? v s = some x ↔ g.opens v s = true ∧
      ∃ y xs, g.fieldOf v s.field = .ok y ∧ g.elements? y = some xs ∧ xs[i]? = some x := by
  unfold follow?
  rw [hi]
  by_cases ho : g.opens v s = true
  · cases hf : g.fieldOf v s.field with
    | error e => simp
    | ok y => cases hy : g.elements? y <;> simp [ho, hy]
  · simp [ho]

theorem follow?_of_single {g : Graph} {v x : Value} {s : PathStep} (hi : s.index? = none) :
    g.follow? v s = some x ↔ g.opens v s = true ∧ g.fieldOf v s.field = .ok x ∧
      (s.isOptional = true → x ≠ .absent) := by
  unfold follow?
  rw [hi]
  by_cases ho : g.opens v s = true
  · cases hf : g.fieldOf v s.field with
    | error e => simp
    | ok y =>
      simp only [ho, if_true, Except.ok.injEq, true_and]
      constructor
      · intro h
        split at h
        · simp at h
        · next hn =>
          obtain rfl := Option.some.inj h
          exact ⟨rfl, fun hs hx => hn (by simp [hs, hx])⟩
      · rintro ⟨rfl, hx⟩
        rw [if_neg]
        simpa using hx
  · simp [ho]

theorem nodeClass?_of_opens {g : Graph} {v : Value} {s : PathStep} (h : g.opens v s = true) :
    ∃ r n, v = .node r ∧ g.node? r = some n := by
  have isNode : (g.nodeClass? v).isSome := by
    cases hc : g.nodeClass? v with
    | some c => rfl
    | none => cases s <;> simp [opens, hc] at h
  cases v with
  | node r =>
    cases hn : g.node? r with
    | none => simp [nodeClass?, hn] at isNode
    | some n => exact ⟨r, n, rfl, hn⟩
  | _ => simp [nodeClass?] at isNode

end Graph

end UsagePolicy
