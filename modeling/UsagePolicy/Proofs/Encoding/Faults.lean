import UsagePolicy.Proofs.Encoding.Branches

/-!
# Faults of positions

A position of a policy is faulty if its value is no variant that is allowed there, is a rule or a
constraint that stands above itself, or stands below as many rules and constraints as the limit
allows. `Graph.visit_reports` says that a visit comes to an end without failure exactly if no
position below is faulty, and that an encoding error names the first faulty position.
-/

namespace UsagePolicy

namespace Graph

variable (g : Graph)

/-- The value is one of the variants that may be entered at a spot. -/
def AdmitsAt (v : Value) : Spot → Prop
  | .rule kind => ∃ c, g.nodeClass? v = some c ∧ c.isA kind = true ∧
    (c = .permission ∨ c = .prohibition ∨ c = .duty)
  | .constraint => g.nodeClass? v = some .atomicConstraint ∨
    g.nodeClass? v = some .multiplicityConstraint ∧
      ∀ k, g.fieldOf v .kind = .ok k → (Outline.kind? k).isSome

/-- The value is one of the variants that are allowed where a step leads. -/
def Admits (s : PathStep) (v : Value) : Prop :=
  match s with
  | .type => (Outline.policyType? v).isSome
  | .leftOperand | .rightOperand => g.nodeClass? v = some .literalExpression
  | .operator => ∃ o, v = .member (.operator o)
  | s => ∀ spot, s.spot? = some spot → g.AdmitsAt v spot

/-- The value where a step leads is faulty if it stands below the given rules and constraints. -/
def Faulty (limit : Nat) (up : List Ref) (s : PathStep) (v : Value) : Prop :=
  ¬ g.Admits s v ∨ s.enters = true ∧ ((∃ r ∈ up, v = .node r) ∨ limit ≤ up.length)

/-- The end of a path from the value where a step leads is faulty. -/
def FaultBelow (limit : Nat) (up : List Ref) (s : PathStep) (v : Value) (ss : List PathStep) :
    Prop :=
  ∃ x, g.reach? v ss = some x ∧ g.Faulty limit (g.above up v ss) (ss.getLastD s) x

/-- No position below the value where a step leads is faulty. -/
def Clean (limit : Nat) (up : List Ref) (s : PathStep) (v : Value) : Prop :=
  ∀ ss, ¬ g.FaultBelow limit up s v ss

/-- What an error says about the value at its path, which a step leads to. -/
def Explains (limit : Nat) (up : List Ref) (s : PathStep) (v : Value) (p : Path) :
    EncodingError → Prop
  | .cyclic q _ => q = p ∧ ∃ r ∈ up, v = .node r
  | .tooDeep q _ => q = p ∧ s.enters = true ∧ up.length = limit ∧ up.Nodup ∧
    ∀ r ∈ up, v ≠ .node r
  | .unsupported q _ _ | .unsupportedOperator q _ => q = p ∧ ¬ g.Admits s v
  | .notAPolicy _ | .unresolved _ _ _ _ => False

/-- An error names the first faulty position below the value where a step leads. -/
def FirstFault (limit : Nat) (up : List Ref) (s : PathStep) (v : Value) (p : Path)
    (e : EncodingError) : Prop :=
  ∃ ss x, g.reach? v ss = some x ∧
    g.Explains limit (g.above up v ss) (ss.getLastD s) x (p.append ss) e ∧
    ∀ ss', Path.Earlier ss' ss → ¬ g.FaultBelow limit up s v ss'

/-- Why an encoding fails at a value for other reasons than a fault. -/
inductive Stalls (s : PathStep) (v : Value) : Failure → Prop
  | field {e : Failure} : .error e ∈ g.branches v → Stalls s v e
  | action {e : Failure} : s = .action → g.nodeClass? v ≠ some .action → Stalls s v e
  | rejected (flaw : PrintFlaw) : ¬ g.Admits s v → Stalls s v (.unprintable flaw .shown)
  | literal {e : Failure} : g.nodeClass? v = some .literalExpression →
    .fault e ∈ (Outline.withValue (g.fieldOf v .value) (Outline.literal g (v.slot .value))).stops →
    Stalls s v e

/-- What the ending of an encoding says about the value where a step leads. -/
def Reports (limit : Nat) (up : List Ref) (s : PathStep) (v : Value) (p : Path) :
    Except Failure Unit → Prop
  | .ok _ => g.Clean limit up s v
  | .error (.encoding e) => g.FirstFault limit up s v p e
  | .error e => ∃ ss x, g.reach? v ss = some x ∧ g.Stalls (ss.getLastD s) x e

variable {g} {limit : Nat} {up : List Ref} {s : PathStep} {v : Value} {p : Path}

/-! ## Positions above and below -/

theorem faultBelow_nil : g.FaultBelow limit up s v [] ↔ g.Faulty limit up s v := by
  simp [FaultBelow, above]

theorem faultBelow_cons {s' : PathStep} {ss : List PathStep} :
    g.FaultBelow limit up s v (s' :: ss) ↔
      ∃ x, g.follow? v s' = some x ∧ g.FaultBelow limit (g.under v up) s' x ss := by
  unfold FaultBelow
  constructor
  · rintro ⟨y, hy, fault⟩
    obtain ⟨x, hx, hy⟩ := reach?_cons_eq_some.mp hy
    rw [above_cons hx, List.getLastD_cons] at fault
    exact ⟨x, hx, y, hy, fault⟩
  · rintro ⟨x, hx, y, hy, fault⟩
    refine ⟨y, reach?_cons_eq_some.mpr ⟨x, hx, hy⟩, ?_⟩
    rw [above_cons hx, List.getLastD_cons]
    exact fault

theorem clean_of_branches (here : ¬ g.Faulty limit up s v)
    (below : ∀ s' x, g.follow? v s' = some x → g.Clean limit (g.under v up) s' x) :
    g.Clean limit up s v := by
  intro ss fault
  cases ss with
  | nil => exact here (faultBelow_nil.mp fault)
  | cons s' ss =>
    obtain ⟨x, hx, fault⟩ := faultBelow_cons.mp fault
    exact below s' x hx ss fault

theorem firstFault_here {e : EncodingError} (h : g.Explains limit up s v p e) :
    g.FirstFault limit up s v p e :=
  ⟨[], v, rfl, by simpa [above] using h, fun ss' before => absurd before (Path.not_earlier_nil ss')⟩

theorem firstFault_of_branch {s' : PathStep} {x : Value} {e : EncodingError}
    (here : ¬ g.Faulty limit up s v) (hx : g.follow? v s' = some x)
    (first : g.FirstFault limit (g.under v up) s' x (p.snoc s') e)
    (before : ∀ t y, t.Precedes s' → g.follow? v t = some y → g.Clean limit (g.under v up) t y) :
    g.FirstFault limit up s v p e := by
  obtain ⟨ss, y, hy, explained, least⟩ := first
  refine ⟨s' :: ss, y, reach?_cons_eq_some.mpr ⟨x, hx, hy⟩, ?_, ?_⟩
  · rwa [above_cons hx, List.getLastD_cons, ← Path.snoc_append]
  · intro ss' earlier fault
    rcases Path.earlier_cons earlier with rfl | ⟨t, rest, rfl, sooner⟩
    · exact here (faultBelow_nil.mp fault)
    · obtain ⟨z, hz, fault⟩ := faultBelow_cons.mp fault
      rcases sooner with sooner | ⟨rfl, later⟩
      · exact before t z sooner hz rest fault
      · obtain rfl : z = x := Option.some.inj (hz.symm.trans hx)
        exact least rest later fault

/-- What the ending of a way through branches says about them. -/
def ReportsBranches (g : Graph) (limit : Nat) (up : List Ref) (v : Value) (p : Path) :
    Except Failure Unit → Prop
  | .ok _ => ∀ s x, g.follow? v s = some x → g.Clean limit up s x
  | .error (.encoding e) => ∃ s x, g.follow? v s = some x ∧
    g.FirstFault limit up s x (p.snoc s) e ∧
    ∀ s' y, s'.Precedes s → g.follow? v s' = some y → g.Clean limit up s' y
  | .error e => .error e ∈ g.branches v ∨ ∃ s x, g.follow? v s = some x ∧
    ∃ ss y, g.reach? x ss = some y ∧ g.Stalls (ss.getLastD s) y e

theorem ReportsBranches.reports {out : Except Failure Unit} (here : ¬ g.Faulty limit up s v)
    (h : g.ReportsBranches limit (g.under v up) v p out) : g.Reports limit up s v p out := by
  cases out with
  | ok u => exact clean_of_branches here h
  | error e =>
    have stalled : (.error e ∈ g.branches v ∨ ∃ s x, g.follow? v s = some x ∧
        ∃ ss y, g.reach? x ss = some y ∧ g.Stalls (ss.getLastD s) y e) →
        ∃ ss x, g.reach? v ss = some x ∧ g.Stalls (ss.getLastD s) x e := by
      rintro (field | ⟨s', x, hx, ss, y, hy, stall⟩)
      · exact ⟨[], v, rfl, .field field⟩
      · refine ⟨s' :: ss, y, reach?_cons_eq_some.mpr ⟨x, hx, hy⟩, ?_⟩
        rwa [List.getLastD_cons]
    cases e with
    | encoding e =>
      obtain ⟨s', x, hx, first, before⟩ := h
      exact firstFault_of_branch here hx first before
    | noAttribute t n => exact stalled h
    | notIterable t => exact stalled h
    | unprintable flaw how => exact stalled h

end Graph

end UsagePolicy
