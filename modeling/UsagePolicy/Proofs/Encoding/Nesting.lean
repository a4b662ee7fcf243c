import Mathlib.Order.Bounds.Defs
import UsagePolicy.Proofs.Encoding.WellTyped

/-!
# Nesting of well-typed policies

A well-typed policy can be encoded exactly if no node below it contains itself and no chain of
nested rules and constraints is longer than the limit. The encoding then has gone as deep as the
longest chain, and in all other cases it fails because the limit is exceeded or a node is cyclic.
-/

namespace UsagePolicy

namespace Graph

/-- No node that can be reached from the value contains itself. -/
def Acyclic (g : Graph) (v : Value) : Prop :=
  ∀ ss r ts, g.reach? v ss = some (.node r) → ts ≠ [] → g.reach? (.node r) ts ≠ some (.node r)

/-- The lengths of the chains of nested rules and constraints below a value. -/
def chains (g : Graph) (v : Value) : Set Nat :=
  {n | ∃ ss x, g.reach? v ss = some x ∧ PathStep.depth ss = n}

variable {g : Graph} {v x y : Value} {s : PathStep} {ss ts : List PathStep}

open PathStep (depth depth_nil depth_cons depth_append)

/-! ## Chains and the active path -/

/-- The rules and constraints on a path in a well-typed policy are those that its steps enter. -/
theorem WellTyped.length_above (h : g.WellTyped v) {front : List PathStep}
    (hx : g.reach? v front = some x) (hy : g.reach? x ss = some y) (up : List Ref) :
    (g.under y (g.above up x ss)).length = (g.under x up).length + depth ss := by
  -- along the path, for any rules and constraints above it: a step adds what it enters
  induction ss generalizing front x up with
  | nil =>
    obtain rfl := Option.some.inj hy
    rfl
  | cons s ss ih =>
    obtain ⟨z, hz, hy⟩ := reach?_cons_eq_some.mp hy
    have entered := entered?_of_hasType (h.follow hx hz)
    have length : (g.entered? z).toList.length = if s.enters then 1 else 0 := by
      rw [← entered]
      cases g.entered? z <;> rfl
    rw [above_cons hz, ih (reach?_snoc hx hz) hy, depth_cons]
    simp only [under, List.length_append] at length ⊢
    omega

theorem depth_of_above (h : g.WellTyped v) (hx : g.reach? v ss = some x)
    (hs : ss.getLast?.any PathStep.enters = true) : depth ss = (g.above [] v ss).length + 1 := by
  have length := h.length_above (reach?_nil g v) hx []
  rcases exists_of_reach? hx with ⟨rfl, -⟩ | ⟨front, s, w, rfl, hw, hx'⟩
  · cases hs
  · have enters : s.enters = true := by simpa using hs
    have entered := entered?_of_hasType (h.follow hw hx')
    obtain ⟨r, hr⟩ := Option.isSome_iff_exists.mp (entered.trans enters)
    rw [under_policy h.policy] at length
    simp only [under, hr, Option.toList_some, List.length_append, List.length_singleton,
      List.length_nil] at length
    omega

/-! ## Cycles -/

/-- A way back to a value can be gone any number of times. -/
theorem exists_rounds (hx : g.reach? v ss = some x) (back : g.reach? x ts = some x) (n : Nat) :
    ∃ path, g.reach? v path = some x ∧ depth path = depth ss + n * depth ts := by
  induction n with
  | zero => exact ⟨ss, hx, by simp⟩
  | succ n ih =>
    obtain ⟨path, hp, length⟩ := ih
    refine ⟨path ++ ts, by simp [reach?_append, hp, back], ?_⟩
    rw [depth_append, length, Nat.succ_mul, Nat.add_assoc]

/-- A way back from a value to itself enters a rule or a constraint. -/
theorem WellTyped.depth_pos_of_back (h : g.WellTyped v) (hx : g.reach? v ss = some x)
    (hts : ts ≠ []) (back : g.reach? x ts = some x) : 0 < depth ts := by
  rw [Nat.pos_iff_ne_zero]
  intro flat
  cases ts with
  | nil => exact hts rfl
  | cons s rest =>
    obtain ⟨y, hy, back⟩ := reach?_cons_eq_some.mp back
    have typed := h.follow hx hy
    rw [depth_cons] at flat
    have hs : s.enters = false := by
      cases enters : s.enters with
      | false => rfl
      | true =>
        rw [if_pos enters] at flat
        omega
    cases rest with
    | nil =>
      obtain rfl : y = x := Option.some.inj back
      have enters := enters_of_opens typed hs (opens_of_follow? hy)
      rw [hs] at enters
      cases enters
    | cons s' rest =>
      obtain ⟨z, hz, -⟩ := reach?_cons_eq_some.mp back
      have enters := enters_of_opens typed hs (opens_of_follow? hz)
      rw [depth_cons, if_pos enters] at flat
      omega

/-- Where the lengths of chains are bounded, no node contains itself. -/
theorem WellTyped.acyclic_of_bounded (h : g.WellTyped v) {d : Nat}
    (bounded : ∀ n ∈ g.chains v, n ≤ d) : g.Acyclic v := by
  intro ss r ts hr hts back
  have positive := h.depth_pos_of_back hr hts back
  -- each round adds at least one rule or constraint, so enough of them exceed any bound
  obtain ⟨path, hp, length⟩ := exists_rounds hr back (d + 1)
  have short := bounded _ ⟨path, _, hp, rfl⟩
  have long : d + 1 ≤ (d + 1) * depth ts := Nat.le_mul_of_pos_right _ positive
  omega

/-! ## The length of the longest chain -/

/-- Nothing is reached from the type of a policy that is known. -/
theorem eq_nil_of_reach?_type (known : (Outline.policyType? x).isSome)
    (hy : g.reach? x ss = some y) : ss = [] := by
  cases ss with
  | nil => rfl
  | cons s ss =>
    obtain ⟨z, hz, -⟩ := reach?_cons_eq_some.mp hy
    obtain ⟨r, n, rfl, -⟩ := nodeClass?_of_opens (opens_of_follow? hz)
    simp [Outline.policyType?, Value.text?] at known

/-- A successful encoding has gone as deep as the longest chain, which keeps to the limit. -/
theorem policyFrom_isGreatest_deepest {limit : Int} {r : Resolver} {id : Text} {run : Encoding}
    (hr : Encoding.policyFrom g limit r id v .start = run) (ok : (ending run).1 = .ok ()) :
    IsGreatest (g.chains v) run.trail.deepest ∧ run.trail.deepest ≤ limit.toNat := by
  have deepened := policyFrom_deepens g limit r id v hr
  obtain ⟨policy, w, type, known⟩ : g.nodeClass? v = some .policy ∧
      ∃ w, g.fieldOf v .type = .ok w ∧ (Outline.policyType? w).isSome := by
    rcases policyFrom_cases g limit r id v .start hr with
      ⟨-, ended⟩ | ⟨hv, ⟨e, -, ended⟩ | ⟨w, hw, ⟨-, ended⟩ | ⟨known, -⟩⟩⟩
    · cases ok.symm.trans (congrArg Prod.fst ended)
    · cases ok.symm.trans (congrArg Prod.fst ended)
    · cases ok.symm.trans (congrArg Prod.fst ended)
    · exact ⟨hv, w, hw, known⟩
  have split : g.branches v = g.single v .type ++ g.policyBranches v := by
    simp [branches, policy]
  refine ⟨⟨?_, ?_⟩, ?_⟩
  · rcases deepened.attained with same | ⟨s, x, ss, y, member, hy, deepest⟩
    · exact ⟨[], v, rfl, same.symm⟩
    · have hx : g.follow? v s = some x := mem_branches.mp (by simp [split, member])
      refine ⟨s :: ss, y, reach?_cons_eq_some.mpr ⟨x, hx, hy⟩, ?_⟩
      have deepest : run.trail.deepest = 0 + depth (s :: ss) := deepest
      omega
  · rintro n ⟨ss, y, hy, rfl⟩
    cases ss with
    | nil => exact Nat.zero_le _
    | cons s ss =>
      obtain ⟨x, hx, hy⟩ := reach?_cons_eq_some.mp hy
      have member := mem_branches.mpr hx
      rw [split] at member
      rcases List.mem_append.mp member with member | member
      · obtain ⟨rfl, hw, -⟩ := mem_single.mp member
        obtain rfl := Except.ok.inj (type.symm.trans hw)
        obtain rfl := eq_nil_of_reach?_type known hy
        exact Nat.zero_le _
      · have covered : 0 + depth (s :: ss) ≤ run.trail.deepest :=
          deepened.covers ok s x ss y member hy
        omega
  · have bounded : run.trail.deepest ≤ max 0 (0 + limit.toNat) := deepened.bounded
    omega

/-- What a fault of a well-typed policy can be. -/
theorem WellTyped.depthExceeded_of_firstFaultAt (h : g.WellTyped v) {d : Nat} {e : EncodingError}
    (first : g.FirstFaultAt d v e) :
    e.errorClass = .depthExceeded ∧ ¬ (g.Acyclic v ∧ ∀ n ∈ g.chains v, n ≤ d) := by
  obtain ⟨ss, x, -, hx, explained, -⟩ := first
  cases e with
  | cyclic p t =>
    refine ⟨rfl, fun sound => ?_⟩
    obtain ⟨r, member, rfl⟩ := explained
    rcases exists_of_mem_above member with none | ⟨front, back, rfl, hb, hr⟩
    · cases none
    · rw [reach?_append, hr] at hx
      exact sound.1 front r back hr hb hx
  | tooDeep p n =>
    refine ⟨rfl, fun sound => ?_⟩
    obtain ⟨enters, length, -⟩ := explained
    have deeper := depth_of_above h hx enters
    have kept := sound.2 _ ⟨ss, x, hx, rfl⟩
    omega
  | unresolved role participant printed cause => exact absurd explained id
  | notAPolicy t => exact absurd (h.allowedAt hx) explained
  | unsupported p t shown => exact absurd (h.allowedAt hx) explained
  | unsupportedOperator p shown => exact absurd (h.allowedAt hx) explained

/-- What the encoding of a well-typed policy comes to: it is a success exactly if no node contains
itself and the chains keep to the limit, it has then gone as deep as the longest chain, and in all
other cases it fails since the limit is exceeded or a node is cyclic. -/
structure SettledByNesting (g : Graph) (limit : Int) (v : Value) (run : Encoding) : Prop where
  encoded : (∃ encoded, run.outcome = .ok encoded) ↔
    g.Acyclic v ∧ ∀ n ∈ g.chains v, (n : Int) ≤ limit
  deepest : ∀ encoded, run.outcome = .ok encoded → IsGreatest (g.chains v) run.trail.deepest
  depthExceeded : ∀ e, run.outcome = .error e →
    ∃ e', e = .encoding e' ∧ e'.errorClass = .depthExceeded

/-- Whether a well-typed policy is encoded is settled by its nesting alone, if the resolver does not
complain. -/
theorem encode_wellTyped (g : Graph) (limit : Int) (asked : Option Int)
    (hd : 1 ≤ asked.getD limit) (resolver : ResolverArgument) {r : Resolver}
    (hr : resolver.normalize = .ok r) (id : Text) (v : Value) (h : g.WellTyped v)
    (answers : ¬ r.Complains g v) :
    ∃ run, encode g limit asked resolver id v = .ok run ∧
      g.SettledByNesting (asked.getD limit) v run := by
  refine ⟨_, encode_eq hd hr, ?_⟩
  generalize hrun : Encoding.policyFrom g (asked.getD limit) r id v .start = run
  have report := policyFrom_reports g (asked.getD limit) r id v hrun
  have bound : (∀ n ∈ g.chains v, (n : Int) ≤ asked.getD limit) ↔
      ∀ n ∈ g.chains v, n ≤ (asked.getD limit).toNat :=
    forall₂_congr fun n _ => by omega
  cases hout : run.outcome with
  | ok encoded =>
    have ended : (ending run).1 = .ok () := by
      rw [ending, Walk.ending, hout]
      rfl
    obtain ⟨greatest, kept⟩ := policyFrom_isGreatest_deepest hrun ended
    have bounded : ∀ n ∈ g.chains v, n ≤ (asked.getD limit).toNat := fun n hn =>
      Nat.le_trans (greatest.2 hn) kept
    refine ⟨⟨fun _ => ?_, fun _ => ⟨encoded, hout⟩⟩, fun _ _ => greatest, fun e failed => ?_⟩
    · exact ⟨h.acyclic_of_bounded bounded, bound.mpr bounded⟩
    · cases hout.symm.trans failed
  | error e =>
    have ended : (ending run).1 = .error e := by
      rw [ending, Walk.ending, hout]
      rfl
    rw [ended] at report
    rcases report with ⟨complains, -⟩ | ⟨e, rfl, first⟩ | ⟨-, stall⟩
    · exact absurd complains answers
    · obtain ⟨cls, faulty⟩ := h.depthExceeded_of_firstFaultAt first
      rw [← bound] at faulty
      have failed : ∀ encoded, run.outcome ≠ .ok encoded := by
        intro encoded ok
        cases hout.symm.trans ok
      refine ⟨⟨?_, fun sound => absurd sound faulty⟩,
        fun encoded ok => absurd ok (failed encoded), fun e' failed => ?_⟩
      · rintro ⟨encoded, ok⟩
        exact absurd ok (failed encoded)
      · obtain rfl := Except.error.inj (failed.symm.trans hout)
        exact ⟨e, rfl, cls⟩
    · exact absurd stall (h.not_stallsAt e)

/-- An offer with two obligations. -/
def obligingOffer : Node :=
  ⟨.policy, [(.type, .member (.policyType .offer)), (.permissions, .tuple []),
    (.prohibitions, .tuple []), (.obligations, .tuple [.node 1, .node 2]), (.assignee, .absent),
    (.assigner, .text "owner"), (.target, .absent)], by decide⟩

/-- A duty with nothing but a consequence. -/
def bareDuty (consequence : Value) : Node :=
  ⟨.duty, [(.action, .absent), (.constraints, .tuple []), (.consequence, consequence)],
    by simp [NodeClass.fields]⟩

/-- A policy with two obligations, the second of which is also the consequence of the first. -/
def sharedConsequence : Graph := ⟨#[obligingOffer, bareDuty (.node 2), bareDuty .absent]⟩

theorem sharedConsequence_wellTyped : sharedConsequence.WellTyped (.node 0) := by
  apply wellTyped_of_nodes rfl
  intro n member
  simp only [sharedConsequence, List.mem_cons, List.not_mem_nil, or_false] at member
  rcases member with rfl | rfl | rfl
  all_goals
    apply typedNode_of_fields rfl
    simp [sharedConsequence, obligingOffer, bareDuty, NodeClass.fieldType, HasType, nodeClass?,
      node?, NodeClass.isA, Value.text?]

theorem sharedConsequence_settled : ∃ run,
    encode sharedConsequence 64 (some 2) (.resolver .identity) "id" (.node 0) = .ok run ∧
      sharedConsequence.SettledByNesting 2 (.node 0) run :=
  encode_wellTyped sharedConsequence 64 (some 2) (by decide) (.resolver .identity) rfl "id"
    (.node 0) sharedConsequence_wellTyped (by
      rintro ⟨_, _, _, _, _, complaint⟩
      cases complaint)

end Graph

end UsagePolicy
