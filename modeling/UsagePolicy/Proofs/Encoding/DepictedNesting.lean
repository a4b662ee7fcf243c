import UsagePolicy.Proofs.Encoding.Depiction
import UsagePolicy.Proofs.Encoding.Nesting
import UsagePolicy.Proofs.Payload.Rendering
import UsagePolicy.Proofs.Policy.Nesting

/-!
# Nesting of depicted policies

The chains of rules and constraints below a value that depicts a policy are as long as the policy is
nested. What can be reached is looked at by the branches of a value, put together as they are.
-/

namespace UsagePolicy

namespace Graph

open PathStep (depth depth_nil depth_cons)

variable {g : Graph} {v x : Value} {bs cs : List Branch} {n m : Nat} {s : PathStep} {f : Field}

/-- The longest chain along the branches has the length. -/
structure BranchesNest (g : Graph) (bs : List Branch) (n : Nat) : Prop where
  covers : ∀ s y, .ok (s, y) ∈ bs → ∃ m, IsGreatest (g.chains y) m ∧
    (m + if s.enters then 1 else 0) ≤ n
  attained : n = 0 ∨ ∃ s y m, .ok (s, y) ∈ bs ∧ IsGreatest (g.chains y) m ∧
    n = m + if s.enters then 1 else 0

theorem isGreatest_of_branches (h : g.BranchesNest (g.branches v) n) :
    IsGreatest (g.chains v) n := by
  constructor
  · rcases h.attained with rfl | ⟨s, y, m, member, ⟨⟨ss, x, hx, rfl⟩, -⟩, rfl⟩
    · exact ⟨[], v, rfl, rfl⟩
    · exact ⟨s :: ss, x, reach?_cons_eq_some.mpr ⟨y, mem_branches.mp member, hx⟩, depth_cons s ss⟩
  · rintro _ ⟨ss, x, hx, rfl⟩
    cases ss with
    | nil => exact Nat.zero_le n
    | cons s ss =>
      obtain ⟨y, hy, hx⟩ := reach?_cons_eq_some.mp hx
      obtain ⟨m, greatest, covered⟩ := h.covers s y (mem_branches.mpr hy)
      have below : depth ss ≤ m := greatest.2 ⟨ss, x, hx, rfl⟩
      rw [depth_cons]
      omega

/-! ## Branches put together -/

theorem BranchesNest.none (h : ∀ s y, .ok (s, y) ∉ bs) : g.BranchesNest bs 0 :=
  ⟨fun s y member => absurd member (h s y), .inl rfl⟩

theorem BranchesNest.append (hb : g.BranchesNest bs n) (hc : g.BranchesNest cs m) :
    g.BranchesNest (bs ++ cs) (max n m) where
  covers := by
    intro s y member
    rcases List.mem_append.mp member with member | member
    · obtain ⟨k, greatest, covered⟩ := hb.covers s y member
      exact ⟨k, greatest, by omega⟩
    · obtain ⟨k, greatest, covered⟩ := hc.covers s y member
      exact ⟨k, greatest, by omega⟩
  attained := by
    rcases Nat.le_total m n with h | h
    · rw [Nat.max_eq_left h]
      refine hb.attained.imp_right ?_
      rintro ⟨s, y, k, member, rest⟩
      exact ⟨s, y, k, List.mem_append_left cs member, rest⟩
    · rw [Nat.max_eq_right h]
      refine hc.attained.imp_right ?_
      rintro ⟨s, y, k, member, rest⟩
      exact ⟨s, y, k, List.mem_append_right bs member, rest⟩

theorem BranchesNest.congr (h : g.BranchesNest bs n)
    (same : ∀ s y, .ok (s, y) ∈ cs ↔ .ok (s, y) ∈ bs) : g.BranchesNest cs n := by
  obtain ⟨covers, attained⟩ := h
  simp only [← same] at covers attained
  exact ⟨covers, attained⟩

theorem branchesNest_demanded (g : Graph) (v : Value) (f : Field) :
    g.BranchesNest (g.demanded v f) 0 := .none fun _ _ => not_mem_demanded

/-- A field that holds one value. -/
theorem branchesNest_single (hx : g.fieldOf v s.field = .ok x)
    (given : s.isOptional = true → x ≠ .absent) (greatest : IsGreatest (g.chains x) m) :
    g.BranchesNest (g.single v s) (m + if s.enters then 1 else 0) where
  covers := by
    intro s' y member
    obtain ⟨rfl, hy, -⟩ := mem_single.mp member
    obtain rfl := Except.ok.inj (hx.symm.trans hy)
    exact ⟨m, greatest, Nat.le_refl _⟩
  attained := .inr ⟨s, x, m, mem_single.mpr ⟨rfl, hx, given⟩, greatest, rfl⟩

theorem branchesNest_required (required : s.isOptional = false)
    (hx : g.fieldOf v s.field = .ok x) (greatest : IsGreatest (g.chains x) m) :
    g.BranchesNest (g.single v s) (m + if s.enters then 1 else 0) :=
  branchesNest_single hx (fun optional => absurd (required ▸ optional) Bool.false_ne_true) greatest

section

variable {α : Type} {depicts : Value → α → Prop}

/-- A field that holds a part, if it is there. -/
theorem branchesNest_optional {o : Option α} (nest : α → Nat) (optional : s.isOptional = true)
    (hv : g.FieldIs v s.field fun x => DepictsOptional depicts x o)
    (each : ∀ a ∈ o, ∀ x, depicts x a → ∃ m, IsGreatest (g.chains x) m ∧
      (m + if s.enters then 1 else 0) = nest a) :
    g.BranchesNest (g.single v s) ((o.map nest).getD 0) := by
  obtain ⟨x, hx, depicted⟩ := hv
  cases o with
  | none =>
    refine .none fun s' y member => ?_
    obtain ⟨rfl, hy, given⟩ := mem_single.mp member
    obtain rfl := Except.ok.inj (hx.symm.trans hy)
    exact given optional depicted
  | some a =>
    obtain ⟨given, depicted⟩ := depicted
    obtain ⟨m, greatest, same⟩ := each a rfl x depicted
    rw [Option.map_some, Option.getD_some, ← same]
    exact branchesNest_single hx (fun _ => given) greatest

/-- A field that holds parts that are entered. -/
theorem branchesNest_several {as : List α} {nest : α → Nat} (step : Nat → PathStep)
    (enters : ∀ i, (step i).enters = true) (hv : g.FieldIs v f fun x => DepictsEach depicts x as)
    (each : ∀ a ∈ as, ∀ x, depicts x a → ∃ m, IsGreatest (g.chains x) m ∧ m + 1 = nest a) :
    g.BranchesNest (g.several v f step) (greatest (as.map nest)) := by
  obtain ⟨_, hx, xs, rfl, depicted⟩ := hv
  have items : ∀ {i x}, xs[i]? = some x → .ok (step i, x) ∈ g.several v f step :=
    fun hi => mem_several.mpr ⟨_, _, xs, rfl, hx, rfl, hi⟩
  constructor
  · intro s y member
    obtain ⟨i, _, ys, rfl, hy, elements, hi⟩ := mem_several.mp member
    obtain rfl := Except.ok.inj (hx.symm.trans hy)
    obtain rfl : xs = ys := Option.some.inj elements
    obtain ⟨a, ha, part⟩ := exists_of_mem_left depicted (List.mem_of_getElem? hi)
    obtain ⟨m, longest, same⟩ := each a ha y part
    refine ⟨m, longest, ?_⟩
    rw [if_pos (enters i), same]
    exact le_greatest (List.mem_map_of_mem ha)
  · rcases greatest_eq_zero_or_mem (as.map nest) with zero | member
    · exact .inl zero
    · obtain ⟨a, ha, same⟩ := List.mem_map.mp member
      obtain ⟨x, member, part⟩ := exists_of_mem_left depicted.flip ha
      obtain ⟨i, hi⟩ := List.getElem?_of_mem member
      obtain ⟨m, longest, counted⟩ := each a ha x part
      refine .inr ⟨step i, x, m, items hi, longest, ?_⟩
      rw [if_pos (enters i), counted, same]

theorem branchesNest_severalIfTruthy {as : List α} {nest : α → Nat} (step : Nat → PathStep)
    (enters : ∀ i, (step i).enters = true) (hv : g.FieldIs v f fun x => DepictsEach depicts x as)
    (each : ∀ a ∈ as, ∀ x, depicts x a → ∃ m, IsGreatest (g.chains x) m ∧ m + 1 = nest a) :
    g.BranchesNest (g.severalIfTruthy v f step) (greatest (as.map nest)) :=
  (branchesNest_several step enters hv each).congr fun _ _ => mem_severalIfTruthy

end

/-! ## Parts -/

theorem isGreatest_zero (h : g.branches v = []) : IsGreatest (g.chains v) 0 :=
  isGreatest_of_branches (h ▸ .none fun _ _ => List.not_mem_nil)

theorem branches_of_no_class (h : g.nodeClass? v = none) : g.branches v = [] := by
  rw [branches, h]

theorem expression_nests {e : Expression} (hv : g.DepictsExpression v e) :
    IsGreatest (g.chains v) 0 :=
  isGreatest_zero (by rw [branches, hv.1])

theorem atomic_nests {a : AtomicConstraint} (hv : g.DepictsAtomic v a) :
    IsGreatest (g.chains v) 0 := by
  obtain ⟨hc, ⟨l, hl, left⟩, ⟨o, ho, rfl⟩, ⟨r, hr, right⟩⟩ := hv
  have operator : IsGreatest (g.chains (.member (.operator a.operator))) 0 :=
    isGreatest_zero (branches_of_no_class rfl)
  refine isGreatest_of_branches ?_
  rw [branches, hc]
  exact ((branchesNest_required (s := .leftOperand) rfl hl (expression_nests left)).append
    (branchesNest_required (s := .operator) rfl ho operator)).append
    (branchesNest_required (s := .rightOperand) rfl hr (expression_nests right))

theorem constraint_nests : ∀ (c : Constraint) {v : Value}, g.DepictsConstraint v c →
    ∃ m, IsGreatest (g.chains v) m ∧ m + 1 = c.nesting
  | .atomic a, v, hv => by
    rw [DepictsConstraint] at hv
    exact ⟨0, atomic_nests hv, by rw [Constraint.nesting]⟩
  | .multiplicity k cs, v, hv => by
    rw [DepictsConstraint] at hv
    obtain ⟨hc, ⟨_, hk, rfl⟩, ⟨x, hx, xs, rfl, each⟩⟩ := hv
    have known : Outline.kind? (.member (.multiplicityKind k)) = some k := by cases k <;> rfl
    have members : g.FieldIs v .constraints fun x => DepictsEach g.DepictsConstraint x cs :=
      ⟨_, hx, xs, rfl, (g.depictsConstraints_iff).mp each⟩
    refine ⟨Constraint.listNesting cs, isGreatest_of_branches ?_, by rw [Constraint.nesting]⟩
    rw [branches, hc]
    simp only [memberBranches, withField, hk, known]
    rw [Constraint.listNesting_eq]
    exact branchesNest_several (.member k) (fun _ => rfl) members
      fun c _ x part => constraint_nests c part

theorem action_nests {a : Action} (hv : g.DepictsAction v a) :
    IsGreatest (g.chains v) a.nesting := by
  obtain ⟨hc, -, -, refinement⟩ := hv
  have refined := branchesNest_optional (s := .refinement) Constraint.nesting rfl refinement
    fun c _ x part => constraint_nests c part
  refine isGreatest_of_branches ?_
  rw [branches, hc]
  have all := ((branchesNest_demanded g v .type).append
    (branchesNest_demanded g v .includedIn)).append refined
  rwa [Nat.max_self, Nat.zero_max] at all

theorem rule_nests {r : Rule} (hv : g.DepictsRule v r) :
    g.BranchesNest (g.ruleBranches v) r.nesting := by
  obtain ⟨action, constraints⟩ := hv
  have ofAction := branchesNest_optional (s := .action) Action.nesting rfl action
    fun a _ x part => ⟨a.nesting, action_nests part, rfl⟩
  have ofConstraints := branchesNest_severalIfTruthy .constraint (fun _ => rfl)
    constraints fun c _ x part => constraint_nests c part
  rw [← Constraint.listNesting_eq] at ofConstraints
  exact ofAction.append ofConstraints

theorem depictsDuty_iff {r : Rule} {o : Option Duty} : g.DepictsDuty v (.mk r o) ↔
    g.nodeClass? v = some .duty ∧ g.DepictsRule v r ∧
      g.FieldIs v .consequence fun x => DepictsOptional g.DepictsDuty x o := by
  cases o <;> (rw [DepictsDuty]; exact Iff.rfl)

theorem duty_nests : ∀ (d : Duty) {v : Value}, g.DepictsDuty v d →
    ∃ m, IsGreatest (g.chains v) m ∧ m + 1 = d.nesting
  | .mk r o, v, hv => by
    obtain ⟨hc, rule, consequence⟩ := depictsDuty_iff.mp hv
    have ofConsequence := branchesNest_optional (s := .consequence) Duty.nesting rfl
      consequence fun d _ x part => duty_nests d part
    refine ⟨_, isGreatest_of_branches ?_, (Duty.nesting_mk r o).symm⟩
    rw [branches, hc]
    exact (rule_nests rule).append ofConsequence

theorem permission_nests {p : Permission} (hv : g.DepictsPermission v p) :
    ∃ m, IsGreatest (g.chains v) m ∧ m + 1 = p.nesting := by
  obtain ⟨hc, rule, duties⟩ := hv
  have ofDuties := branchesNest_severalIfTruthy .duty (fun _ => rfl) duties
    fun d _ x part => duty_nests d part
  refine ⟨_, isGreatest_of_branches ?_, rfl⟩
  rw [branches, hc]
  exact (rule_nests rule).append ofDuties

theorem prohibition_nests {p : Prohibition} (hv : g.DepictsProhibition v p) :
    ∃ m, IsGreatest (g.chains v) m ∧ m + 1 = p.nesting := by
  obtain ⟨hc, rule⟩ := hv
  refine ⟨_, isGreatest_of_branches ?_, rfl⟩
  rw [branches, hc]
  exact rule_nests rule

/-- The longest chain below what depicts a policy is as long as the policy is nested. -/
theorem Depicts.isGreatest_nesting {p : Policy} (hv : g.Depicts v p) :
    IsGreatest (g.chains v) p.nesting := by
  obtain ⟨t, ht, rfl⟩ := hv.type
  have type : IsGreatest (g.chains (.member (.policyType p.type))) 0 :=
    isGreatest_zero (branches_of_no_class rfl)
  have permissions := branchesNest_several .permission (fun _ => rfl) hv.permissions
    fun q _ x part => permission_nests part
  have prohibitions := branchesNest_several .prohibition (fun _ => rfl) hv.prohibitions
    fun q _ x part => prohibition_nests part
  have obligations := branchesNest_several .obligation (fun _ => rfl) hv.obligations
    fun d _ x part => duty_nests d part
  have rules := ((permissions.append prohibitions).append obligations).append
    (branchesNest_demanded g v .target)
  have all := (branchesNest_required (s := .type) rfl ht type).append rules
  refine isGreatest_of_branches ?_
  rw [branches, hv.policy]
  rwa [Nat.max_zero, show (0 + if PathStep.type.enters then 1 else 0) = 0 from rfl,
    Nat.zero_max] at all

end Graph

end UsagePolicy
