import UsagePolicy.Proofs.Encoding.Nesting
import UsagePolicy.Proofs.Encoding.Rejection

/-!
# The errors of an encoding

Whatever stands in the fields of a policy, its encoding fails with an encoding error only, as long
as values can be printed. But a value that is rejected is printed outside of the guard against nodes
that contain themselves: if its text has no end, neither does the encoding have an error to name.
-/

namespace UsagePolicy

namespace Graph

open Stop (pass)

variable {g : Graph} {n : Nat} {limit : Int} {r : Resolver} {id : Text} {v x y w : Value}
  {s : PathStep} {ss ts : List PathStep} {e : Failure}

/-! ## The order of positions -/

/-- One of two steps that can be taken comes before the other. -/
theorem precedes_total {s' : PathStep} (hx : g.follow? v s = some x)
    (hy : g.follow? v s' = some y) :
    s = s' ∨ s.Precedes s' ∨ s'.Precedes s := by
  obtain ⟨low, high, ordered⟩ := ordered_branches (g := g) (v := v)
  have pairs := List.pairwise_iff_getElem.mp ordered.pairwise
  obtain ⟨i, hi, atI⟩ := List.getElem_of_mem (mem_branches.mpr hx)
  obtain ⟨j, hj, atJ⟩ := List.getElem_of_mem (mem_branches.mpr hy)
  rcases Nat.lt_trichotomy i j with before | rfl | after
  · exact .inr (.inl (pairs i j hi hj before s x s' y atI atJ))
  · have same := atI.symm.trans atJ
    simp only [Except.ok.injEq, Prod.mk.injEq] at same
    exact .inl same.1
  · exact .inr (.inr (pairs j i hj hi after s' y s x atJ atI))

/-- One of two positions comes before the other. -/
theorem earlier_total (hx : g.reach? v ss = some x) (hy : g.reach? v ts = some y) :
    ss = ts ∨ Path.Earlier ss ts ∨ Path.Earlier ts ss := by
  induction ss generalizing v ts with
  | nil =>
    cases ts with
    | nil => exact .inl rfl
    | cons t ts => exact .inr (.inl .nil)
  | cons s ss ih =>
    cases ts with
    | nil => exact .inr (.inr .nil)
    | cons t ts =>
      obtain ⟨z, hz, hx⟩ := reach?_cons_eq_some.mp hx
      obtain ⟨z', hz', hy⟩ := reach?_cons_eq_some.mp hy
      rcases precedes_total hz hz' with rfl | before | after
      · obtain rfl := Option.some.inj (hz.symm.trans hz')
        rcases ih hx hy with rfl | before | after
        · exact .inl rfl
        · exact .inr (.inl (.cons before))
        · exact .inr (.inr (.cons after))
      · exact .inr (.inl (.rel before))
      · exact .inr (.inr (.rel after))

theorem Shaped.has_of_reach (h : g.Shaped v) (hx : g.reach? v ss = some x) : g.Has x := by
  rcases exists_of_reach? hx with ⟨-, rfl⟩ | ⟨front, s, w, -, -, hx⟩
  · exact h.has
  · exact has_of_follow h.closed hx

theorem Shaped.printable_of_reach (h : g.Shaped v) (hx : g.reach? v ss = some x) :
    x.Printable := by
  rcases exists_of_reach? hx with ⟨-, rfl⟩ | ⟨front, s, w, -, -, hx⟩
  · exact h.printable.1
  · exact printable_of_follow h.printable.2 hx

/-! ## Failures of encodings -/

/-- A failure is that of the first faulty position of a policy. -/
def FirstFailureAt (g : Graph) (limit : Nat) (v : Value) (e : Failure) : Prop :=
  ∃ ss s x, ss.getLast? = some s ∧ g.reach? v ss = some x ∧
    g.FailsSo limit (g.above [] v ss) s x (Path.policy.append ss) e ∧
    ∀ ts, Path.Earlier ts ss → ¬ g.FaultAt limit v ts

theorem faultAt_of_faulty (hs : ss.getLast? = some s) (hx : g.reach? v ss = some x)
    (faulty : g.Faulty n (g.above [] v ss) s x) : g.FaultAt n v ss := by
  refine ⟨x, hx, ?_⟩
  rw [AllowedAt, hs]
  exact faulty

theorem Rejects.faultAt (hs : ss.getLast? = some s) (hx : g.reach? v ss = some x)
    (h : g.Rejects n (g.above [] v ss) s x w) : g.FaultAt n v ss :=
  faultAt_of_faulty hs hx (.inl h.not_admits)

theorem firstFailureAt_of_branch (hv : g.nodeClass? v = some .policy)
    (hx : g.follow? v s = some x) (first : g.FirstFailure n [] s x (Path.policy.snoc s) e)
    (before : ∀ t y, t.Precedes s → g.follow? v t = some y → g.Clean n [] t y) :
    g.FirstFailureAt n v e := by
  obtain ⟨ss, y, hy, failure, least⟩ := first
  rw [Path.snoc_append, ← above_policy hv hx] at failure
  refine ⟨s :: ss, ss.getLastD s, y, by simp [List.getLast?_cons],
    reach?_cons_eq_some.mpr ⟨x, hx, hy⟩, failure, ?_⟩
  intro ts earlier fault
  rcases Path.earlier_cons earlier with rfl | ⟨t, rest, rfl, sooner⟩
  · exact faultAt_nil.mp fault hv
  · obtain ⟨z, hz, fault⟩ := (faultAt_cons hv).mp fault
    rcases sooner with sooner | ⟨rfl, later⟩
    · exact before t z sooner hz rest fault
    · obtain rfl : z = x := Option.some.inj (hz.symm.trans hx)
      exact least rest later fault

theorem firstFailureAt_unknown_type (hv : g.nodeClass? v = some .policy)
    (hf : g.fieldOf v .type = .ok x) (unknown : Outline.policyType? x = none) :
    g.FirstFailureAt n v (g.unsupported x (Path.policy.snoc .type)) := by
  have hx : g.follow? v .type = some x :=
    (follow?_of_single rfl).mpr ⟨by simp [opens, hv], hf, by simp [PathStep.isOptional]⟩
  have rejected : ¬ g.Admits .type x := by simp [Admits, unknown]
  rw [← rejection_eq_unsupported (s := .type) (by simp)]
  refine firstFailureAt_of_branch hv hx (firstFailure_here (failsSo_of_rejects
    (.other rfl rejected))) ?_
  rintro t y (earlier | ⟨-, earlier⟩)
  · exact absurd earlier (Nat.not_lt_zero _)
  · exact absurd earlier (Nat.not_lt_zero _)

theorem Shaped.fails_rules (h : g.Shaped v) (hv : g.nodeClass? v = some .policy)
    (hf : g.fieldOf v .type = .ok x) (known : (Outline.policyType? x).isSome)
    (failed : (pass (visitFrom g limit) (g.stopsOf Path.policy (g.policyBranches v)) .start).1 =
      .error e) : g.FirstFailureAt limit.toNat v e := by
  have split : g.branches v = g.single v .type ++ g.policyBranches v := by simp [branches, hv]
  have restores := visitFrom_restores g limit
  have judges : g.Judges limit.toNat [] (visitFrom g limit) Trail.start.active := by
    refine ⟨fun s spot x p w hs hw => ?_, fun s spot x p w e hs hw failed => ?_⟩
    · apply visit_reports g limit hs x p (hw : _ = [].map some) List.nodup_nil
      simp [hw, Trail.start]
    · refine h.visit_fails limit hs x p (hw : _ = [].map some) List.nodup_nil ?_ failed
      simp [hw, Trail.start]
  have type : ∀ s y, .ok (s, y) ∈ g.single v .type → g.Clean limit.toNat [] s y := by
    intro s y member
    obtain ⟨rfl, hy, -⟩ := mem_single.mp member
    obtain rfl : x = y := by simpa [PathStep.field, hf] using hy
    exact clean_type known
  have reports : ∀ s y, .ok (s, y) ∈ g.policyBranches v → ∀ u : Trail,
      u.active = Trail.start.active → g.Reports limit.toNat [] s y (Path.policy.snoc s)
        (pass (visitFrom g limit) (g.stopsAt Path.policy (.ok (s, y))) u).1 := by
    intro s y member u hu
    have hy : g.follow? v s = some y := mem_branches.mp (by simp [split, member])
    rw [← hu] at judges
    exact reports_stopsAt restores judges.reports hy (not_type_of_mem_policyBranches member)
  obtain ⟨s, y, member, ⟨u, hu, failed⟩, before⟩ :=
    exists_failing_branch restores split type (h.not_error_mem_branches v) reports failed
  have hy : g.follow? v s = some y := mem_branches.mp (by simp [split, member])
  rw [← hu] at judges
  exact firstFailureAt_of_branch hv hy (h.fails_stopsAt restores judges hy
    (not_type_of_mem_policyBranches member) failed) before

/-- An encoding fails because the value is no policy, or at the first faulty position of it. -/
theorem Shaped.policyFrom_fails (h : g.Shaped v) (answers : ¬ r.Complains g v) {run : Encoding}
    (hrun : Encoding.policyFrom g limit r id v .start = run) (failed : (ending run).1 = .error e) :
    (g.nodeClass? v ≠ some .policy ∧ e = .encoding (.notAPolicy (g.typeName v))) ∨
      g.FirstFailureAt limit.toNat v e := by
  have field : ∀ {f e}, g.nodeClass? v = some .policy → f ∈ NodeClass.policy.fields →
      g.fieldOf v f ≠ .error e := by
    intro f e hv hf missing
    obtain ⟨y, hy, -⟩ := h.field hv hf
    cases missing.symm.trans hy
  rcases policyFrom_cases g limit r id v .start hrun with
    ⟨hv, ended⟩ | ⟨hv, ⟨e, hf, -⟩ | ⟨x, hf, ⟨unknown, ended⟩ | ⟨known, ⟨e, hr, -⟩ | ended⟩⟩⟩
  · rw [ended] at failed
    exact .inl ⟨hv, (Except.error.inj failed).symm⟩
  · exact absurd hf (field hv (by decide))
  · rw [ended] at failed
    obtain rfl := Except.error.inj failed
    exact .inr (firstFailureAt_unknown_type hv hf unknown)
  · rcases Resolution.both_error hr with ⟨role, hf'⟩ | ⟨complains, -⟩
    · exact absurd hf' (field hv (by cases role <;> decide))
    · exact absurd complains answers
  · rw [ended] at failed
    exact .inr (h.fails_rules hv hf known failed)

/-! ## Encoding errors and texts without end -/

/-- The first faulty position of a policy is one where a value is rejected, and the text that is
printed for it has no end. -/
def RejectsEndless (g : Graph) (limit : Nat) (v : Value) : Prop :=
  ∃ ss s x w, ss.getLast? = some s ∧ g.reach? v ss = some x ∧
    g.Rejects limit (g.above [] v ss) s x w ∧ g.Endless w ∧
    ∀ ts, Path.Earlier ts ss → ¬ g.FaultAt limit v ts

/-- An encoding fails with an error that says that a value is not supported, of which errors that
say how deep it is are a kind, unless the rejected value has a text without end. -/
structure EndsInOwnErrors (g : Graph) (limit : Nat) (v : Value) (run : Encoding) : Prop where
  own : ∀ e, run.outcome = .error e →
    (∃ e', e = .encoding e' ∧ e'.errorClass.isA .unsupportedVariant = true) ∨
      e = .unprintable .endless .shown
  endless : run.outcome = .error (.unprintable .endless .shown) ↔ g.RejectsEndless limit v

theorem rejection_cases (g : Graph) (s : PathStep) (w : Value) (p : Path) :
    (∃ e, g.rejection s w p = .encoding e ∧ e.errorClass = .unsupportedVariant) ∨
    ∃ flaw, g.shown w = .error flaw ∧ g.rejection s w p = .unprintable flaw .shown := by
  unfold rejection
  cases g.shown w with
  | error flaw => exact .inr ⟨flaw, rfl, rfl⟩
  | ok t =>
    refine .inl ⟨_, rfl, ?_⟩
    split <;> rfl

/-- A failure at the first faulty position is an encoding error, or the rejected value has a text
without end. -/
theorem Shaped.own_of_firstFailureAt (h : g.Shaped v) (first : g.FirstFailureAt n v e) :
    (∃ e', e = .encoding e' ∧ e'.errorClass.isA .unsupportedVariant = true) ∨
      e = .unprintable .endless .shown ∧ g.RejectsEndless n v := by
  obtain ⟨ss, s, x, hs, hx, ⟨-, ⟨w, rejects, rfl⟩ | ⟨-, e', rfl, cls⟩⟩, least⟩ := first
  · rcases rejection_cases g s w (Path.policy.append ss) with ⟨e', he, cls⟩ | ⟨flaw, shown, he⟩
    · exact .inl ⟨e', he, by rw [cls]; rfl⟩
    · have printable := rejects.printable h.printable.2 (h.printable_of_reach hx)
      obtain rfl := shown_eq_endless printable h.printable.2 shown
      refine .inr ⟨he, ss, s, x, w, hs, hx, rejects, ?_, least⟩
      exact (shown_eq_endless_iff h.closed (rejects.has h.closed (h.has_of_reach hx)) printable
        h.printable.2).mp shown
  · exact .inl ⟨e', rfl, by rw [cls]; rfl⟩

/-- Where the rejected value has a text without end, the first failure is that it has none. -/
theorem Shaped.eq_unprintable (h : g.Shaped v) (endless : g.RejectsEndless n v)
    (first : g.FirstFailureAt n v e) : e = .unprintable .endless .shown := by
  obtain ⟨ss, s, x, w, hs, hx, rejects, noEnd, least⟩ := endless
  obtain ⟨ts, s', x', hs', hx', ⟨faulty, failure⟩, least'⟩ := first
  have fault := rejects.faultAt hs hx
  have fault' := faultAt_of_faulty hs' hx' faulty
  rcases earlier_total hx hx' with rfl | before | after
  · obtain rfl := Option.some.inj (hs.symm.trans hs')
    obtain rfl := Option.some.inj (hx.symm.trans hx')
    rcases failure with ⟨w', rejects', rfl⟩ | ⟨allowed, -⟩
    · obtain rfl := rejects.unique rejects'
      have shown := (shown_eq_endless_iff h.closed
        (rejects.has h.closed (h.has_of_reach hx))
        (rejects.printable h.printable.2 (h.printable_of_reach hx))
        h.printable.2).mpr noEnd
      simp [rejection, shown]
    · exact absurd rejects (allowed w)
  · exact absurd fault (least' ss before)
  · exact absurd fault' (least ts after)

/-- An encoding comes to a document or an encoding error, whatever the policy is, except if what is
rejected first has a text without end. -/
theorem encode_ends_in_own_errors (g : Graph) (limit : Int) (asked : Option Int)
    (hd : 1 ≤ asked.getD limit) (resolver : ResolverArgument) {r : Resolver}
    (hr : resolver.normalize = .ok r) (id : Text) (v : Value) (h : g.Shaped v)
    (answers : ¬ r.Complains g v) :
    ∃ run, encode g limit asked resolver id v = .ok run ∧
      g.EndsInOwnErrors (asked.getD limit).toNat v run := by
  refine ⟨_, encode_eq hd hr, ?_⟩
  generalize hrun : Encoding.policyFrom g (asked.getD limit) r id v .start = run
  have ended : ∀ e, run.outcome = .error e → (ending run).1 = .error e := by
    intro e failed
    rw [ending, Walk.ending, failed]
    rfl
  refine ⟨fun e failed => ?_, fun failed => ?_, fun endless => ?_⟩
  · rcases h.policyFrom_fails answers hrun (ended e failed) with ⟨-, rfl⟩ | first
    · exact .inl ⟨_, rfl, rfl⟩
    · exact (h.own_of_firstFailureAt first).imp_right And.left
  · rcases h.policyFrom_fails answers hrun (ended _ failed) with ⟨-, other⟩ | first
    · cases other
    · rcases h.own_of_firstFailureAt first with ⟨e', other, -⟩ | ⟨-, endless⟩
      · cases other
      · exact endless
  · obtain ⟨ss, s, x, w, hs, hx, rejects, noEnd, least⟩ := endless
    have fault := rejects.faultAt hs hx
    cases hout : run.outcome with
    | ok encoded =>
      have report := policyFrom_reports g (asked.getD limit) r id v hrun
      rw [ending, Walk.ending, hout] at report
      exact absurd fault (report ss)
    | error e =>
      rcases h.policyFrom_fails answers hrun (ended e hout) with ⟨hv, -⟩ | first
      · refine absurd (faultAt_nil.mpr hv) (least [] ?_)
        cases ss with
        | nil => cases hs
        | cons t ts => exact .nil
      · exact congrArg _ (h.eq_unprintable ⟨ss, s, x, w, hs, hx, rejects, noEnd, least⟩ first)

/-- An offer with one permission. -/
def permittingOffer : Node :=
  ⟨.policy, [(.type, .member (.policyType .offer)), (.permissions, .tuple [.node 1]),
    (.prohibitions, .tuple []), (.obligations, .tuple []), (.assignee, .absent),
    (.assigner, .absent), (.target, .absent)], by decide⟩

/-- A policy whose permission is a duty, the consequence of which has the duty as its own. -/
def misplacedDuty : Graph := ⟨#[permittingOffer, bareDuty (.node 2), bareDuty (.node 1)]⟩

theorem misplacedDuty_shaped : misplacedDuty.Shaped (.node 0) := by
  have nodes : ∀ n ∈ misplacedDuty.nodes.toList,
      n = permittingOffer ∨ n = bareDuty (.node 2) ∨ n = bareDuty (.node 1) := by
    intro n member
    simpa [misplacedDuty] using member
  apply shaped_of_nodes
  · simp [misplacedDuty]
  · simp
  · intro n member
    rcases nodes n member with rfl | rfl | rfl <;> rfl
  · intro n member
    rcases nodes n member with rfl | rfl | rfl
    all_goals
      simp [misplacedDuty, permittingOffer, bareDuty, NodeClass.fieldType, HasShape]

set_option maxRecDepth 4000 in
/-- The duty is rejected where a permission is asked for, and its text has no end. -/
theorem misplacedDuty_has_endless_text : ∃ run,
    encode misplacedDuty 64 none (.resolver .identity) "id" (.node 0) = .ok run ∧
      misplacedDuty.EndsInOwnErrors 64 (.node 0) run ∧
      misplacedDuty.RejectsEndless 64 (.node 0) := by
  obtain ⟨run, encoded, ends⟩ := encode_ends_in_own_errors misplacedDuty 64 none (by decide)
    (.resolver .identity) rfl "id" (.node 0) misplacedDuty_shaped (by
      rintro ⟨_, _, _, _, _, complaint⟩
      cases complaint)
  refine ⟨run, encoded, ends, ends.endless.mp ?_⟩
  obtain rfl := Except.ok.inj encoded
  rfl

end Graph

end UsagePolicy
