import UsagePolicy.Proofs.Encoding.Position
import UsagePolicy.Proofs.Encoding.Stops

/-!
# Branches of a value

What an encoding meets at a value is a list of branches: the values that the steps from there lead
to, in order, and the fields that cannot be read. The branches hold exactly what `Graph.follow?`
gives, and the stops of the outline of a value are those of its branches one after the other.
-/

namespace UsagePolicy

/-- A step and the value it leads to, or why no step can be taken. -/
abbrev Branch := Except Failure (PathStep × Value)

namespace Graph

variable (g : Graph) (v : Value)

/-- Branches that depend on the value of a field. -/
def withField (f : Field) (k : Value → List Branch) : List Branch :=
  match g.fieldOf v f with
  | .error e => [.error e]
  | .ok x => k x

/-- The branch of a field that holds one value. -/
def single (s : PathStep) : List Branch :=
  g.withField v s.field fun x => if s.isOptional && x.isAbsent then [] else [.ok (s, x)]

/-- The branches of the elements of a value. -/
def elementBranches (step : Nat → PathStep) (x : Value) : List Branch :=
  match g.elements? x with
  | some xs => xs.mapIdx fun i y => .ok (step i, y)
  | none => [.error (.notIterable (g.typeName x))]

/-- The branches of a field that holds several values. -/
def several (f : Field) (step : Nat → PathStep) : List Branch :=
  g.withField v f (g.elementBranches step)

/-- The branches of a field that is looked into if it is not empty. -/
def severalIfTruthy (f : Field) (step : Nat → PathStep) : List Branch :=
  g.withField v f fun x => if x.isTruthy then g.elementBranches step x else []

/-- A field that has to be there and leads nowhere. -/
def demanded (f : Field) : List Branch := g.withField v f fun _ => []

/-- The branches of a policy whose type and participants are known. -/
def policyBranches : List Branch :=
  g.several v .permissions .permission ++ g.several v .prohibitions .prohibition
    ++ g.several v .obligations .obligation ++ g.demanded v .target

/-- The branches that all rules share. -/
def ruleBranches : List Branch :=
  g.single v .action ++ g.severalIfTruthy v .constraints .constraint

/-- The branches of a combination. -/
def memberBranches : List Branch :=
  g.withField v .kind fun k => match Outline.kind? k with
    | some kind => g.several v .constraints (.member kind)
    | none => []

/-- What an encoding meets at a value, in order. -/
def branches : List Branch :=
  match g.nodeClass? v with
  | some .policy => g.single v .type ++ g.policyBranches v
  | some .permission => g.ruleBranches v ++ g.severalIfTruthy v .duties .duty
  | some .prohibition => g.ruleBranches v
  | some .duty => g.ruleBranches v ++ g.single v .consequence
  | some .action => g.demanded v .type ++ g.demanded v .includedIn ++ g.single v .refinement
  | some .atomicConstraint =>
    g.single v .leftOperand ++ g.single v .operator ++ g.single v .rightOperand
  | some .multiplicityConstraint => g.memberBranches v
  | _ => []

variable {g v}

/-! ## Branches and steps -/

theorem mem_withField {f : Field} {k : Value → List Branch} {b : Branch} :
    b ∈ g.withField v f k ↔ (∃ e, g.fieldOf v f = .error e ∧ b = .error e) ∨
      ∃ x, g.fieldOf v f = .ok x ∧ b ∈ k x := by
  unfold withField
  cases g.fieldOf v f <;> simp

theorem ok_mem_withField {f : Field} {k : Value → List Branch} {q : PathStep × Value} :
    .ok q ∈ g.withField v f k ↔ ∃ x, g.fieldOf v f = .ok x ∧ .ok q ∈ k x := by
  simp [mem_withField]

theorem mem_single {s s' : PathStep} {x : Value} : .ok (s', x) ∈ g.single v s ↔
    s' = s ∧ g.fieldOf v s.field = .ok x ∧ (s.isOptional = true → x ≠ .absent) := by
  rw [single, ok_mem_withField]
  constructor
  · rintro ⟨y, hy, h⟩
    split at h
    · simp at h
    · next hn =>
      simp only [List.mem_singleton, Except.ok.injEq, Prod.mk.injEq] at h
      obtain ⟨rfl, rfl⟩ := h
      exact ⟨rfl, hy, fun hs hx => hn (by simp [hs, hx])⟩
  · rintro ⟨rfl, hx, hn⟩
    refine ⟨x, hx, ?_⟩
    rw [if_neg (by simpa using hn)]
    exact List.mem_singleton.mpr rfl

theorem mem_elementBranches {y x : Value} {step : Nat → PathStep} {s : PathStep} :
    .ok (s, x) ∈ g.elementBranches step y ↔
      ∃ i xs, s = step i ∧ g.elements? y = some xs ∧ xs[i]? = some x := by
  unfold elementBranches
  cases hy : g.elements? y with
  | none => simp
  | some xs =>
    simp only [List.mem_mapIdx, Option.some.injEq, Except.ok.injEq, Prod.mk.injEq]
    constructor
    · rintro ⟨i, hi, rfl, rfl⟩
      exact ⟨i, xs, rfl, rfl, List.getElem?_eq_getElem hi⟩
    · rintro ⟨i, _, rfl, rfl, hx⟩
      obtain ⟨hi, rfl⟩ := List.getElem?_eq_some_iff.mp hx
      exact ⟨i, hi, rfl, rfl⟩

theorem mem_several {f : Field} {step : Nat → PathStep} {s : PathStep} {x : Value} :
    .ok (s, x) ∈ g.several v f step ↔ ∃ i y xs, s = step i ∧ g.fieldOf v f = .ok y ∧
      g.elements? y = some xs ∧ xs[i]? = some x := by
  simp only [several, ok_mem_withField, mem_elementBranches]
  grind

theorem elements?_of_not_truthy {y : Value} {xs : List Value} (h : ¬ y.isTruthy = true)
    (hy : g.elements? y = some xs) : xs = [] := by
  cases y <;> simp_all [Value.isTruthy, elements?]

theorem mem_severalIfTruthy {f : Field} {step : Nat → PathStep} {s : PathStep} {x : Value} :
    .ok (s, x) ∈ g.severalIfTruthy v f step ↔ .ok (s, x) ∈ g.several v f step := by
  have same : ∀ y, (.ok (s, x) ∈ if y.isTruthy then g.elementBranches step y else []) ↔
      .ok (s, x) ∈ g.elementBranches step y := by
    intro y
    split
    · rfl
    · next hn =>
      simp only [List.not_mem_nil, false_iff, mem_elementBranches]
      rintro ⟨i, xs, -, hy, hx⟩
      rw [elements?_of_not_truthy hn hy] at hx
      simp at hx
  simp only [severalIfTruthy, several, ok_mem_withField, same]

theorem not_mem_demanded {f : Field} {s : PathStep} {x : Value} :
    .ok (s, x) ∉ g.demanded v f := by
  simp [demanded, ok_mem_withField]

theorem mem_single_iff {s s' : PathStep} {x : Value} (hi : s'.index? = none)
    (opens : g.opens v s' = true) :
    .ok (s, x) ∈ g.single v s' ↔ s = s' ∧ g.follow? v s = some x := by
  rw [mem_single]
  apply and_congr_right
  rintro rfl
  rw [follow?_of_single hi]
  exact (and_iff_right opens).symm

theorem mem_several_iff {f : Field} (step : Nat → PathStep) {s : PathStep} {x : Value}
    (hi : ∀ i, (step i).index? = some i) (hf : ∀ i, (step i).field = f)
    (opens : ∀ i, g.opens v (step i) = true) :
    .ok (s, x) ∈ g.several v f step ↔ (∃ i, s = step i) ∧ g.follow? v s = some x := by
  rw [mem_several]
  constructor
  · rintro ⟨i, y, xs, rfl, hy, hxs, hx⟩
    exact ⟨⟨i, rfl⟩, (follow?_of_index (hi i)).mpr ⟨opens i, y, xs, by rwa [hf], hxs, hx⟩⟩
  · rintro ⟨⟨i, rfl⟩, h⟩
    obtain ⟨-, y, xs, hy, hxs, hx⟩ := (follow?_of_index (hi i)).mp h
    exact ⟨i, y, xs, rfl, by rwa [hf] at hy, hxs, hx⟩

theorem mem_ruleBranches {c : NodeClass} (hc : g.nodeClass? v = some c)
    (rule : c = .permission ∨ c = .prohibition ∨ c = .duty) {s : PathStep} {x : Value} :
    .ok (s, x) ∈ g.ruleBranches v ↔
      (s = .action ∨ ∃ i, s = .constraint i) ∧ g.follow? v s = some x := by
  have opens : g.opens v .action = true ∧ ∀ i, g.opens v (.constraint i) = true := by
    rcases rule with rfl | rfl | rfl <;> simp [Graph.opens, hc]
  rw [ruleBranches, List.mem_append, mem_severalIfTruthy, mem_single_iff rfl opens.1,
    mem_several_iff .constraint (fun _ => rfl) (fun _ => rfl) opens.2, ← or_and_right]

theorem mem_policyBranches (hc : g.nodeClass? v = some .policy) {s : PathStep} {x : Value} :
    .ok (s, x) ∈ g.policyBranches v ↔
      ((∃ i, s = .permission i) ∨ (∃ i, s = .prohibition i) ∨ ∃ i, s = .obligation i) ∧
        g.follow? v s = some x := by
  have permissions := @mem_several_iff g v _ .permission s x (fun _ => rfl) (fun _ => rfl)
    fun _ => by simp [opens, hc]
  have prohibitions := @mem_several_iff g v _ .prohibition s x (fun _ => rfl) (fun _ => rfl)
    fun _ => by simp [opens, hc]
  have obligations := @mem_several_iff g v _ .obligation s x (fun _ => rfl) (fun _ => rfl)
    fun _ => by simp [opens, hc]
  simp only [policyBranches, List.mem_append, permissions, prohibitions, obligations,
    not_mem_demanded, or_false, ← or_and_right, or_assoc]

theorem mem_memberBranches (hc : g.nodeClass? v = some .multiplicityConstraint) {s : PathStep}
    {x : Value} : .ok (s, x) ∈ g.memberBranches v ↔ g.follow? v s = some x := by
  have members : ∀ {w k}, g.fieldOf v .kind = .ok w → Outline.kind? w = some k →
      (.ok (s, x) ∈ g.several v .constraints (.member k) ↔
        (∃ i, s = .member k i) ∧ g.follow? v s = some x) := by
    intro w k hw hk
    apply mem_several_iff (.member k) (fun _ => rfl) (fun _ => rfl)
    intro _
    simp [opens, hc, hw, Except.toOption, hk]
  rw [memberBranches, ok_mem_withField]
  constructor
  · rintro ⟨w, hw, h⟩
    split at h
    · next k hk => exact ((members hw hk).mp h).2
    · simp at h
  · intro h
    have opens := opens_of_follow? h
    cases s with
    | member k i =>
      simp only [Graph.opens, Bool.and_eq_true, decide_eq_true_eq] at opens
      obtain ⟨w, hw, hk⟩ := Option.bind_eq_some_iff.mp opens.2
      have hw : g.fieldOf v .kind = .ok w := by
        cases field : g.fieldOf v .kind <;> simp_all [Except.toOption]
      refine ⟨w, hw, ?_⟩
      rw [hk]
      exact (members hw hk).mpr ⟨⟨i, rfl⟩, h⟩
    | _ => simp [Graph.opens, hc] at opens

/-- The branches of a value are what the steps from it lead to. -/
theorem mem_branches {s : PathStep} {x : Value} :
    .ok (s, x) ∈ g.branches v ↔ g.follow? v s = some x := by
  unfold branches
  cases hc : g.nodeClass? v with
  | none =>
    apply iff_of_false List.not_mem_nil
    intro h
    have opens := opens_of_follow? h
    cases s <;> simp [Graph.opens, hc] at opens
  | some c =>
    -- the steps that a class has branches for are those that can be taken from its nodes
    have only : ∀ {P : Prop}, (g.opens v s = true → P) →
        (P ∧ g.follow? v s = some x ↔ g.follow? v s = some x) :=
      fun h => and_iff_right_of_imp fun hx => h (opens_of_follow? hx)
    cases c with
    | policy =>
      dsimp only
      rw [List.mem_append, mem_single_iff rfl (by simp [opens, hc]), mem_policyBranches hc,
        ← or_and_right]
      apply only
      intro opens
      cases s <;> simp [Graph.opens, hc] at opens ⊢
    | permission =>
      dsimp only
      rw [List.mem_append, mem_ruleBranches hc (.inl rfl), mem_severalIfTruthy,
        mem_several_iff .duty (fun _ => rfl) (fun _ => rfl) fun _ => by simp [opens, hc],
        ← or_and_right]
      apply only
      intro opens
      cases s <;> simp [Graph.opens, hc] at opens ⊢
    | prohibition =>
      dsimp only
      rw [mem_ruleBranches hc (.inr (.inl rfl))]
      apply only
      intro opens
      cases s <;> simp [Graph.opens, hc] at opens ⊢
    | duty =>
      dsimp only
      rw [List.mem_append, mem_ruleBranches hc (.inr (.inr rfl)),
        mem_single_iff rfl (by simp [opens, hc]), ← or_and_right]
      apply only
      intro opens
      cases s <;> simp [Graph.opens, hc] at opens ⊢
    | action =>
      dsimp only
      rw [List.mem_append, List.mem_append, mem_single_iff rfl (by simp [opens, hc]),
        or_iff_right (not_or_intro not_mem_demanded not_mem_demanded)]
      apply only
      intro opens
      cases s <;> simp [Graph.opens, hc] at opens ⊢
    | atomicConstraint =>
      dsimp only
      rw [List.mem_append, List.mem_append, mem_single_iff rfl (by simp [opens, hc]),
        mem_single_iff rfl (by simp [opens, hc]), mem_single_iff rfl (by simp [opens, hc]),
        ← or_and_right, ← or_and_right]
      apply only
      intro opens
      cases s <;> simp [Graph.opens, hc] at opens ⊢
    | multiplicityConstraint => exact mem_memberBranches hc
    | rule | literalExpression =>
      apply iff_of_false List.not_mem_nil
      intro h
      have opens := opens_of_follow? h
      cases s <;> simp [Graph.opens, hc] at opens

/-- A value that cannot be read: a field is not there, or it cannot be gone through. -/
inductive Unreadable : Failure → Prop
  | noAttribute (typeName name : Text) : Unreadable (.noAttribute typeName name)
  | notIterable (typeName : Text) : Unreadable (.notIterable typeName)

theorem unreadable_of_fieldOf {f : Field} {e : Failure} (h : g.fieldOf v f = .error e) :
    Unreadable e := by
  unfold fieldOf at h
  split at h
  · split at h
    · simp at h
    · injection h with h
      exact h ▸ .noAttribute _ _
  · injection h with h
    exact h ▸ .noAttribute _ _

theorem unreadable_of_withField {f : Field} {k : Value → List Branch}
    (hk : ∀ x e, .error e ∈ k x → Unreadable e) {e : Failure}
    (h : .error e ∈ g.withField v f k) : Unreadable e := by
  rcases mem_withField.mp h with ⟨e', he, h⟩ | ⟨x, -, h⟩
  · injection h with h
    exact h ▸ unreadable_of_fieldOf he
  · exact hk x e h

theorem unreadable_of_elementBranches (step : Nat → PathStep) (x : Value) (e : Failure)
    (h : .error e ∈ g.elementBranches step x) : Unreadable e := by
  unfold elementBranches at h
  split at h
  · simp at h
  · simp only [List.mem_singleton, Except.error.injEq] at h
    exact h ▸ .notIterable _

/-- Branches fail because of what cannot be read. -/
theorem unreadable_of_branches {e : Failure} (h : .error e ∈ g.branches v) : Unreadable e := by
  have single : ∀ s, .error e ∈ g.single v s → Unreadable e := fun s =>
    unreadable_of_withField fun x e h => by split at h <;> simp at h
  have several : ∀ f step, .error e ∈ g.several v f step → Unreadable e := fun f step =>
    unreadable_of_withField (unreadable_of_elementBranches step)
  have ifTruthy : ∀ f step, .error e ∈ g.severalIfTruthy v f step → Unreadable e := fun f step =>
    unreadable_of_withField fun x e h => by
      split at h
      · exact unreadable_of_elementBranches step x e h
      · simp at h
  have demanded : ∀ f, .error e ∈ g.demanded v f → Unreadable e := fun f =>
    unreadable_of_withField fun x e h => by simp at h
  have members : .error e ∈ g.memberBranches v → Unreadable e :=
    unreadable_of_withField fun k e h => by
      split at h
      · exact unreadable_of_withField (unreadable_of_elementBranches _) h
      · simp at h
  unfold branches policyBranches ruleBranches at h
  split at h <;> grind

/-! ## The order of branches -/

/-- The steps of branches come one after the other in a document, and their ranks are bounded. -/
structure Ordered (low high : Nat) (bs : List Branch) : Prop where
  pairwise : bs.Pairwise fun a b =>
    ∀ s x s' y, a = .ok (s, x) → b = .ok (s', y) → s.Precedes s'
  rank : ∀ s x, .ok (s, x) ∈ bs → low ≤ s.rank ∧ s.rank < high

namespace Ordered

theorem nil (n m : Nat) : Ordered n m [] := ⟨by simp, by simp⟩

theorem append {a b c d : Nat} {as bs : List Branch} (ha : Ordered a b as)
    (hb : Ordered c d bs) (h : a ≤ c ∧ b ≤ c ∧ b ≤ d) : Ordered a d (as ++ bs) where
  pairwise := by
    refine List.pairwise_append.mpr ⟨ha.pairwise, hb.pairwise, ?_⟩
    rintro _ hma _ hmb s x s' y rfl rfl
    exact .inl (Nat.lt_of_lt_of_le (ha.rank s x hma).2 (Nat.le_trans h.2.1 (hb.rank s' y hmb).1))
  rank := by
    intro s x member
    rcases List.mem_append.mp member with member | member
    · exact ⟨(ha.rank s x member).1, Nat.lt_of_lt_of_le (ha.rank s x member).2 h.2.2⟩
    · exact ⟨Nat.le_trans h.1 (hb.rank s x member).1, (hb.rank s x member).2⟩

theorem withField {n m : Nat} {f : Field} {k : Value → List Branch}
    (h : ∀ x, Ordered n m (k x)) : Ordered n m (g.withField v f k) := by
  unfold Graph.withField
  split
  · exact ⟨by simp, by simp⟩
  · exact h _

theorem single (s : PathStep) : Ordered s.rank (s.rank + 1) (g.single v s) := by
  apply withField
  intro x
  split
  · exact .nil _ _
  · exact ⟨by simp, by simp⟩

theorem demanded (f : Field) (n : Nat) : Ordered n n (g.demanded v f) :=
  withField fun _ => .nil _ _

end Ordered

/-- A step for each index, in the order of the indices. -/
structure Steps (step : Nat → PathStep) (rank : Nat) : Prop where
  rank_eq : ∀ i, (step i).rank = rank
  index?_eq : ∀ i, (step i).index? = some i

theorem Steps.precedes {step : Nat → PathStep} {n i j : Nat} (h : Steps step n) (hij : i < j) :
    (step i).Precedes (step j) :=
  .inr ⟨by rw [h.rank_eq, h.rank_eq], by simpa [h.index?_eq] using hij⟩

namespace Ordered

theorem elementBranches {step : Nat → PathStep} {n : Nat} (h : Steps step n) (x : Value) :
    Ordered n (n + 1) (g.elementBranches step x) where
  pairwise := by
    unfold Graph.elementBranches
    split
    · apply List.pairwise_iff_getElem.mpr
      intro i j hi hj hij s y s' y' hs hs'
      simp only [List.getElem_mapIdx, Except.ok.injEq, Prod.mk.injEq] at hs hs'
      obtain ⟨rfl, -⟩ := hs
      obtain ⟨rfl, -⟩ := hs'
      exact h.precedes hij
    · simp
  rank s y hs := by
    obtain ⟨i, xs, rfl, -⟩ := mem_elementBranches.mp hs
    rw [h.rank_eq]
    omega

theorem several {step : Nat → PathStep} {n : Nat} (h : Steps step n) (f : Field) :
    Ordered n (n + 1) (g.several v f step) := withField (elementBranches h)

theorem severalIfTruthy {step : Nat → PathStep} {n : Nat} (h : Steps step n) (f : Field) :
    Ordered n (n + 1) (g.severalIfTruthy v f step) := by
  apply withField
  intro x
  split
  · exact elementBranches h x
  · exact .nil _ _

theorem ruleBranches : Ordered 6 9 (g.ruleBranches v) := by
  have constraint : Steps .constraint 8 := ⟨fun _ => rfl, fun _ => rfl⟩
  exact (single .action).append (severalIfTruthy constraint .constraints) (by decide)

theorem policyBranches : Ordered 3 6 (g.policyBranches v) := by
  have permission : Steps .permission 3 := ⟨fun _ => rfl, fun _ => rfl⟩
  have prohibition : Steps .prohibition 4 := ⟨fun _ => rfl, fun _ => rfl⟩
  have obligation : Steps .obligation 5 := ⟨fun _ => rfl, fun _ => rfl⟩
  exact (((several permission .permissions).append (several prohibition .prohibitions)
    (by decide)).append (several obligation .obligations) (by decide)).append
    (demanded .target 6) (by decide)

theorem memberBranches : Ordered 11 12 (g.memberBranches v) := by
  apply withField
  intro k
  split
  · next kind _ =>
    have member : Steps (.member kind) 11 := ⟨fun _ => rfl, fun _ => rfl⟩
    exact several member _
  · exact .nil _ _

end Ordered

theorem ordered_branches : ∃ low high, Ordered low high (g.branches v) := by
  unfold branches
  split
  · exact ⟨_, _, (Ordered.single .type).append .policyBranches (by decide)⟩
  · have duty : Steps .duty 9 := ⟨fun _ => rfl, fun _ => rfl⟩
    exact ⟨_, _, Ordered.ruleBranches.append (.severalIfTruthy duty .duties) (by decide)⟩
  · exact ⟨_, _, .ruleBranches⟩
  · exact ⟨_, _, Ordered.ruleBranches.append (.single .consequence) (by decide)⟩
  · exact ⟨_, _, ((Ordered.demanded _ 7).append (.demanded _ 7) (by decide)).append
      (.single .refinement) (by decide)⟩
  · exact ⟨_, _, ((Ordered.single .leftOperand).append (.single .operator) (by decide)).append
      (.single .rightOperand) (by decide)⟩
  · exact ⟨_, _, .memberBranches⟩
  · exact ⟨0, 0, .nil _ _⟩

/-- What comes before a branch in a document stands before it among the branches. -/
theorem mem_of_precedes {as bs : List Branch} {s s' : PathStep} {x y : Value}
    (h : g.branches v = as ++ .ok (s, x) :: bs) (hy : g.follow? v s' = some y)
    (before : s'.Precedes s) : .ok (s', y) ∈ as := by
  obtain ⟨low, high, ordered⟩ := ordered_branches (g := g) (v := v)
  have pairs := ordered.pairwise
  rw [← mem_branches, h] at hy
  rw [h] at pairs
  rcases List.mem_append.mp hy with hy | hy
  · exact hy
  · rcases List.mem_cons.mp hy with same | hy
    · simp only [Except.ok.injEq, Prod.mk.injEq] at same
      exact absurd (same.1 ▸ before) (PathStep.Precedes.irrefl _)
    · have after := (List.pairwise_cons.mp (List.pairwise_append.mp pairs).2.1).1 _ hy
      exact absurd before (after s x s' y rfl rfl).asymm

/-! ## Branches and outlines -/

/-- The stops of a branch. -/
def stopsAt (g : Graph) (p : Path) : Branch → List Stop
  | .error e => [.fault e]
  | .ok (.action, x) => (Outline.action g x (p.snoc .action)).stops
  | .ok (.leftOperand, x) => (Outline.expression g x (p.snoc .leftOperand)).stops
  | .ok (.operator, x) => (Outline.operator g x (p.snoc .operator)).stops
  | .ok (.rightOperand, x) => (Outline.expression g x (p.snoc .rightOperand)).stops
  | .ok (s, x) => match s.spot? with
    | some spot => [.place spot x (p.snoc s)]
    | none => []

/-- The stops of branches one after the other. -/
def stopsOf (g : Graph) (p : Path) (bs : List Branch) : List Stop := bs.flatMap (g.stopsAt p)

@[simp] theorem stopsOf_nil (p : Path) : g.stopsOf p [] = [] := rfl

@[simp] theorem stopsOf_singleton (p : Path) (b : Branch) : g.stopsOf p [b] = g.stopsAt p b := by
  simp [stopsOf]

@[simp] theorem stopsOf_append (p : Path) (as bs : List Branch) :
    g.stopsOf p (as ++ bs) = g.stopsOf p as ++ g.stopsOf p bs := List.flatMap_append

open Outline

theorem stops_withValue {f : Field} {p : Path} {o : Value → Outline} {k : Value → List Branch}
    (h : ∀ x, (o x).stops = g.stopsOf p (k x)) :
    (withValue (g.fieldOf v f) o).stops = g.stopsOf p (g.withField v f k) := by
  unfold withField withValue
  cases g.fieldOf v f <;> simp [h, stopsAt, stops]

theorem stops_single {s : PathStep} {p : Path} {o : Value → Outline}
    (hs : s.isOptional = false) (h : ∀ x, (o x).stops = g.stopsAt p (.ok (s, x))) :
    (withValue (g.fieldOf v s.field) o).stops = g.stopsOf p (g.single v s) :=
  stops_withValue fun x => by simp [hs, h]

theorem stops_ifPresent {s : PathStep} {p : Path} {key : Text} {o : Value → Outline}
    (hs : s.isOptional = true) (h : ∀ x, (o x).stops = g.stopsAt p (.ok (s, x))) :
    memberStops (ifPresent key (g.fieldOf v s.field) o) = g.stopsOf p (g.single v s) := by
  unfold single withField ifPresent
  cases g.fieldOf v s.field with
  | error e => simp [stopsAt, stops, memberStops]
  | ok x => cases x <;> simp [hs, h, memberStops, Value.isAbsent]

theorem stops_elements {step : Nat → PathStep} {p : Path} {o : Nat → Value → Outline}
    (h : ∀ i y, (o i y).stops = g.stopsAt p (.ok (step i, y))) (x : Value) :
    (elements g x o).stops = g.stopsOf p (g.elementBranches step x) := by
  unfold elementBranches elements
  cases g.elements? x with
  | none => simp [stopsAt, stops]
  | some xs =>
    simp only [stops, itemStops_eq, stopsOf, List.mapIdx_eq_zipIdx_map, List.flatMap_map, h]

theorem stops_ifTruthy {f : Field} {step : Nat → PathStep} {p : Path} {key : Text}
    {o : Nat → Value → Outline} (h : ∀ i y, (o i y).stops = g.stopsAt p (.ok (step i, y))) :
    memberStops (ifTruthy key (g.fieldOf v f) fun x => elements g x o)
      = g.stopsOf p (g.severalIfTruthy v f step) := by
  unfold severalIfTruthy withField ifTruthy
  cases g.fieldOf v f with
  | error e => simp [stopsAt, stops, memberStops]
  | ok x => by_cases hx : x.isTruthy = true <;> simp [hx, memberStops, stops_elements h]

theorem stops_ruleMembers (p : Path) :
    memberStops (ruleMembers g v p) = g.stopsOf p (g.ruleBranches v) := by
  have action : (withValue (g.fieldOf v .action) fun a => Outline.action g a (p.snoc .action)).stops
      = g.stopsOf p (g.single v .action) := by
    apply stops_withValue
    intro x
    cases x <;> simp [stopsAt, Value.isAbsent, PathStep.isOptional, stops, memberStops,
      Outline.action]
  rw [ruleMembers, memberStops, action, ruleBranches, stopsOf_append]
  congr 1
  exact stops_ifTruthy fun _ _ => rfl

/-- The stops of a rule are those of its branches. -/
theorem stops_rule (p : Path)
    (h : (g.nodeClass? v).any fun c => c = .permission || c = .prohibition || c = .duty) :
    (rule g v p).stops = g.stopsOf p (g.branches v) := by
  unfold rule branches
  cases hc : g.nodeClass? v with
  | none => simp [hc] at h
  | some c =>
    cases c <;> simp [hc] at h
    · rw [stops, memberStops_append, stops_ruleMembers, stopsOf_append, stops_ifTruthy]
      intro i y
      rfl
    · rw [stops, stops_ruleMembers]
    · rw [stops, memberStops_append, stops_ruleMembers, stopsOf_append]
      congr 1
      exact stops_ifPresent (s := .consequence) rfl fun _ => rfl

/-- The stops of a constraint are those of its branches, unless it has an unknown combinator. -/
theorem stops_constraint (p : Path)
    (h : g.nodeClass? v = some .atomicConstraint ∨ g.nodeClass? v = some .multiplicityConstraint ∧
      ∀ k, g.fieldOf v .kind = .ok k → (kind? k).isSome) :
    (constraint g v p).stops = g.stopsOf p (g.branches v) := by
  unfold constraint branches
  rcases h with hc | ⟨hc, hk⟩
  · simp only [hc, atomic, stops, memberStops, stopsOf_append, List.append_nil, List.append_assoc]
    congr 1
    · exact stops_single (s := .leftOperand) rfl fun _ => rfl
    · congr 1
      · exact stops_single (s := .operator) rfl fun _ => rfl
      · exact stops_single (s := .rightOperand) rfl fun _ => rfl
  · simp only [hc, Outline.multiplicity, memberBranches, withField]
    cases hf : g.fieldOf v .kind with
    | error e => simp [withValue, stopsAt, stops]
    | ok k =>
      obtain ⟨kind, hkind⟩ := Option.isSome_iff_exists.mp (hk k hf)
      simp only [withValue, hkind, stops, memberStops, List.append_nil]
      exact stops_withValue (stops_elements fun _ _ => rfl)

/-- The stops of an action are those of its branches. -/
theorem stops_action (p : Path) (h : g.nodeClass? v = some .action) :
    (action g v p).stops = g.stopsOf p (g.branches v) := by
  have type : (withValue (g.fieldOf v .type) .leaf).stops = g.stopsOf p (g.demanded v .type) :=
    stops_withValue fun _ => rfl
  have included : memberStops (ifPresent Term.includedIn (g.fieldOf v .includedIn) .leaf)
      = g.stopsOf p (g.demanded v .includedIn) := by
    unfold ifPresent demanded withField
    cases g.fieldOf v .includedIn with
    | error e => simp [stopsAt, stops, memberStops]
    | ok x => cases x <;> simp [stops, memberStops]
  have refinement : memberStops (ifPresent Term.refinement (g.fieldOf v .constraint)
      fun c => .place .constraint c (p.snoc .refinement)) = g.stopsOf p (g.single v .refinement) :=
    stops_ifPresent (s := .refinement) rfl fun _ => rfl
  unfold branches
  cases v with
  | node r =>
    simp only [h, action, stops, memberStops, memberStops_append, included, refinement, type,
      stopsOf_append, List.append_assoc, List.cons_append]
  | _ => simp [nodeClass?] at h

theorem stops_policyRules (f : Field) (kind : NodeClass) (step : Nat → PathStep)
    (h : ∀ i, (step i).spot? = some (.rule kind)) :
    (policyRules g v f kind step).stops = g.stopsOf Path.policy (g.several v f step) := by
  refine stops_withValue (stops_elements fun i y => ?_)
  have hi := h i
  generalize step i = s at hi ⊢
  cases s <;> simp_all [PathStep.spot?, stopsAt, stops]

theorem stops_identifierMember (key : Text) (x : Value) :
    memberStops (identifierMember key x) = [] := by
  cases x <;> rfl

/-- The stops of a policy are those of its branches after its type. -/
theorem stops_policy (id : Text) (type : PolicyType) (assignee assigner : Value) :
    (policy g v id type assignee assigner).stops = g.stopsOf Path.policy (g.policyBranches v) := by
  have target : memberStops (ifPresent Term.target (g.fieldOf v .target) identifier)
      = g.stopsOf Path.policy (g.demanded v .target) := by
    unfold ifPresent demanded withField
    cases g.fieldOf v .target with
    | error e => simp [stopsAt, stops, memberStops]
    | ok x => cases x <;> rfl
  simp only [policy, stops, memberStops, memberStops_append, stops_identifierMember, target,
    policyBranches, stopsOf_append, List.append_nil, List.nil_append, List.append_assoc]
  rw [stops_policyRules _ _ _ fun _ => rfl, stops_policyRules _ _ _ fun _ => rfl,
    stops_policyRules _ _ _ fun _ => rfl]

end Graph

end UsagePolicy
