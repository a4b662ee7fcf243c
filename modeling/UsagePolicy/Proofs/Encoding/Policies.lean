import UsagePolicy.Encoding.Encode
import UsagePolicy.Proofs.Encoding.Depth
import UsagePolicy.Proofs.Encoding.PathText

/-!
# Encodings of policies

An encoding of a policy looks at its type, asks for its participants and then goes through its
rules. What visits say about the positions below them adds up to what the outcome of the encoding
says about all positions of the policy.
-/

namespace UsagePolicy

theorem visitFrom_restores (g : Graph) (limit : Int) : Filler.Restores (visitFrom g limit) :=
  fun s v p t => visit_restores g limit _ s v p t

/-- A participant is given for whom the resolver complains. -/
def Resolver.Complains (r : Resolver) (g : Graph) (v : Value) : Prop :=
  ∃ role x c, g.fieldOf v (Role.field role) = .ok x ∧ x ≠ .absent ∧ r.resolve g x = .error c

namespace Resolution

theorem bind_error {α β : Type} {x : Resolution α} {k : α → Resolution β} {e : Failure}
    (h : (x.bind k).outcome = .error e) :
    x.outcome = .error e ∨ ∃ a, x.outcome = .ok a ∧ (k a).outcome = .error e := by
  unfold bind at h
  cases hx : x.outcome with
  | ok a => exact .inr ⟨a, rfl, by simpa [hx] using h⟩
  | error e' => exact .inl (by simpa [hx] using h)

theorem participant_error {g : Graph} {r : Resolver} {opened : List Slot} {role : Role} {v : Value}
    {e : Failure} (h : (participant g r opened role v).outcome = .error e) :
    v ≠ .absent ∧ (∃ c, r.resolve g v = .error c) ∧
      ∀ e', e = .encoding e' → e'.errorClass = .participantResolution := by
  unfold participant at h
  split at h
  · simp [silent] at h
  · next given =>
    split at h
    · simp at h
    · simp at h
    · next c hc =>
      refine ⟨given, ⟨c, hc⟩, ?_⟩
      rintro e' rfl
      split at h
      · simp only [Except.error.injEq, Failure.encoding.injEq] at h
        exact h ▸ rfl
      · simp at h

/-- Participants are not resolved if a field is not there or the resolver complains. -/
theorem both_error {g : Graph} {r : Resolver} {v : Value} {e : Failure}
    (h : (both g r v).outcome = .error e) :
    (∃ role : Role, g.fieldOf v role.field = .error e) ∨
      r.Complains g v ∧ ∀ e', e = .encoding e' → e'.errorClass = .participantResolution := by
  have ofRole : ∀ role : Role, (Resolution.role g r v role).outcome = .error e →
      (∃ role : Role, g.fieldOf v role.field = .error e) ∨
        r.Complains g v ∧ ∀ e', e = .encoding e' → e'.errorClass = .participantResolution := by
    intro role h
    rcases bind_error h with h | ⟨x, hx, h⟩
    · exact .inl ⟨role, h⟩
    · obtain ⟨given, ⟨c, hc⟩, cls⟩ := participant_error h
      exact .inr ⟨⟨role, x, c, hx, given, hc⟩, cls⟩
  rcases bind_error h with h | ⟨assignee, -, h⟩
  · exact ofRole .assignee h
  · rcases bind_error h with h | ⟨assigner, -, h⟩
    · exact ofRole .assigner h
    · simp [silent] at h

end Resolution

namespace Graph

open Stop (pass)

variable {g : Graph} {limit : Int} {r : Resolver} {id : Text} {v : Value} {t : Trail}

/-! ## The course of an encoding -/

/-- How the encoding of a value as a policy ends, and where the walk stands then. -/
def ending (run : Encoding) : Except Failure Unit × Trail := Walk.ending (run.outcome, run.trail)

/-- The course of an encoding: the value is no policy, its type cannot be read or is unknown, its
participants cannot be resolved, or its rules are gone through. -/
theorem policyFrom_cases (g : Graph) (limit : Int) (r : Resolver) (id : Text) (v : Value)
    (t : Trail) {run : Encoding} (h : Encoding.policyFrom g limit r id v t = run) :
    (g.nodeClass? v ≠ some .policy ∧
      ending run = (.error (.encoding (.notAPolicy (g.typeName v))), t)) ∨
    (g.nodeClass? v = some .policy ∧
      ((∃ e, g.fieldOf v .type = .error e ∧ ending run = (.error e, t)) ∨
      ∃ x, g.fieldOf v .type = .ok x ∧
        ((Outline.policyType? x = none ∧
          ending run = (.error (g.unsupported x (Path.policy.snoc .type)), t)) ∨
        (Outline.policyType? x).isSome ∧
          ((∃ e, (Resolution.both g r v).outcome = .error e ∧ ending run = (.error e, t)) ∨
          ending run =
            pass (visitFrom g limit) (g.stopsOf Path.policy (g.policyBranches v)) t)))) := by
  subst h
  unfold Encoding.policyFrom
  by_cases hv : g.nodeClass? v = some .policy
  · refine .inr ⟨hv, ?_⟩
    rw [if_pos hv]
    unfold Encoding.policyType
    cases hf : g.fieldOf v .type with
    | error e => exact .inl ⟨e, rfl, rfl⟩
    | ok x =>
      refine .inr ⟨x, rfl, ?_⟩
      cases hx : Outline.policyType? x with
      | none => exact .inl ⟨rfl, by simp only [hx]; rfl⟩
      | some type =>
        refine .inr ⟨rfl, ?_⟩
        simp only [hx, Encoding.rules]
        cases hr : (Resolution.both g r v).outcome with
        | error e => exact .inl ⟨e, rfl, rfl⟩
        | ok both =>
          obtain ⟨assignee, assigner⟩ := both
          refine .inr ?_
          rw [← stops_policy id type assignee assigner, ← Outline.ending_fill]
          simp only [ending, Walk.ending]
          cases ((Outline.policy g v id type assignee assigner).fill (visitFrom g limit) t).1 <;>
            rfl
  · exact .inl ⟨hv, by rw [if_neg hv]; rfl⟩

/-- An encoding that begins is that of a policy with the limit that is asked for or given. -/
theorem exists_policyFrom_of_encode {asked : Option Int} {resolver : ResolverArgument}
    {run : Encoding} (h : encode g limit asked resolver id v = .ok run) :
    ∃ r, resolver.normalize = .ok r ∧
      Encoding.policyFrom g (asked.getD limit) r id v .start = run := by
  unfold encode at h
  split at h
  · cases h
  · split at h
    · cases h
    · next r hr => exact ⟨r, hr, Except.ok.inj h⟩

theorem limit_not_refused {asked : Option Int} (hd : 1 ≤ asked.getD limit) :
    asked.filter (· < 1) = none := by
  cases asked with
  | none => rfl
  | some n =>
    have high : 1 ≤ n := hd
    simpa [Option.filter_some] using high

/-- With a limit of at least one and a resolver the encoding begins. -/
theorem encode_eq {asked : Option Int} (hd : 1 ≤ asked.getD limit) {resolver : ResolverArgument}
    (hr : resolver.normalize = .ok r) :
    encode g limit asked resolver id v =
      .ok (Encoding.policyFrom g (asked.getD limit) r id v .start) := by
  unfold encode
  rw [limit_not_refused hd, hr]

/-- With a limit of at least one an encoding without a resolver is refused. -/
theorem encode_refused {asked : Option Int} (hd : 1 ≤ asked.getD limit)
    {resolver : ResolverArgument} {typeName : Text} (hr : resolver.normalize = .error typeName) :
    encode g limit asked resolver id v = .error (.resolver typeName) := by
  unfold encode
  rw [limit_not_refused hd, hr]

/-! ## Positions of a policy -/

/-- The value at the end of a path from where an encoding starts is a variant allowed there. -/
def AllowedAt (g : Graph) (ss : List PathStep) (x : Value) : Prop :=
  match ss.getLast? with
  | none => g.nodeClass? x = some .policy
  | some s => g.Admits s x

/-- The position at the end of a path from where an encoding starts is faulty: its value is no
variant that is allowed there, or it is a rule or a constraint that stands above itself or below as
many others as the limit allows. -/
def FaultAt (g : Graph) (limit : Nat) (v : Value) (ss : List PathStep) : Prop :=
  ∃ x, g.reach? v ss = some x ∧ (¬ g.AllowedAt ss x ∨
    (ss.getLast?.any PathStep.enters = true ∧
      ((∃ r ∈ g.above [] v ss, x = .node r) ∨ limit ≤ (g.above [] v ss).length)))

/-- What an error says about the value at the end of a path from where an encoding starts. -/
def ExplainsAt (g : Graph) (limit : Nat) (v : Value) (ss : List PathStep) (x : Value) :
    EncodingError → Prop
  | .cyclic _ _ => ∃ r ∈ g.above [] v ss, x = .node r
  | .tooDeep _ _ => ss.getLast?.any PathStep.enters = true ∧
    (g.above [] v ss).length = limit ∧ (g.above [] v ss).Nodup ∧ ∀ r ∈ g.above [] v ss, x ≠ .node r
  | .notAPolicy _ | .unsupported _ _ _ | .unsupportedOperator _ _ => ¬ g.AllowedAt ss x
  | .unresolved _ _ _ _ => False

theorem faultAt_nil {n : Nat} : g.FaultAt n v [] ↔ g.nodeClass? v ≠ some .policy := by
  simp [FaultAt, AllowedAt]

theorem under_policy (hv : g.nodeClass? v = some .policy) (up : List Ref) : g.under v up = up := by
  simp [under, entered?, hv, NodeClass.isEntered]

theorem above_policy (hv : g.nodeClass? v = some .policy) {s : PathStep} {x : Value}
    (hx : g.follow? v s = some x) (ss : List PathStep) :
    g.above [] v (s :: ss) = g.above [] x ss := by
  rw [above_cons hx, under_policy hv]

theorem faultAt_cons {n : Nat} (hv : g.nodeClass? v = some .policy) {s : PathStep}
    {ss : List PathStep} :
    g.FaultAt n v (s :: ss) ↔ ∃ x, g.follow? v s = some x ∧ g.FaultBelow n [] s x ss := by
  simp only [FaultAt, AllowedAt, List.getLast?_cons, Option.any_some, ← List.getLastD_eq_getLast?]
  constructor
  · rintro ⟨y, hy, fault⟩
    obtain ⟨x, hx, hy⟩ := reach?_cons_eq_some.mp hy
    rw [above_policy hv hx] at fault
    exact ⟨x, hx, y, hy, fault⟩
  · rintro ⟨x, hx, y, hy, fault⟩
    refine ⟨y, reach?_cons_eq_some.mpr ⟨x, hx, hy⟩, ?_⟩
    rwa [above_policy hv hx]

/-- An error names the first faulty position of what is encoded. -/
def FirstFaultAt (g : Graph) (limit : Nat) (v : Value) (e : EncodingError) : Prop :=
  ∃ ss x, e.Locates ss ∧ g.reach? v ss = some x ∧ g.ExplainsAt limit v ss x e ∧
    ∀ ss', Path.Earlier ss' ss → ¬ g.FaultAt limit v ss'

theorem Explains.locates {n : Nat} {up : List Ref} {s : PathStep} {x : Value} {ss : List PathStep}
    {e : EncodingError} (h : g.Explains n up s x (Path.policy.append ss) e) : e.Locates ss := by
  cases e <;> simp only [Explains] at h
  all_goals
    obtain ⟨rfl, -⟩ := h
    rfl

theorem firstFaultAt_of_branch {n : Nat} {s : PathStep} {x : Value} {e : EncodingError}
    (hv : g.nodeClass? v = some .policy) (hx : g.follow? v s = some x)
    (first : g.FirstFault n [] s x (Path.policy.snoc s) e)
    (before : ∀ t y, t.Precedes s → g.follow? v t = some y → g.Clean n [] t y) :
    g.FirstFaultAt n v e := by
  obtain ⟨ss, y, hy, explained, least⟩ := first
  rw [Path.snoc_append] at explained
  refine ⟨s :: ss, y, explained.locates, reach?_cons_eq_some.mpr ⟨x, hx, hy⟩, ?_, ?_⟩
  · cases e <;> simp only [Explains, ExplainsAt, AllowedAt, List.getLast?_cons, Option.any_some,
      above_policy hv hx, ← List.getLastD_eq_getLast?] at explained ⊢
    all_goals exact explained.2
  · intro ss' earlier fault
    rcases Path.earlier_cons earlier with rfl | ⟨t, rest, rfl, sooner⟩
    · exact faultAt_nil.mp fault hv
    · obtain ⟨z, hz, fault⟩ := (faultAt_cons hv).mp fault
      rcases sooner with sooner | ⟨rfl, later⟩
      · exact before t z sooner hz rest fault
      · obtain rfl : z = x := Option.some.inj (hz.symm.trans hx)
        exact least rest later fault

/-! ## What encodings report -/

/-- Why the encoding of a policy fails for other reasons than a fault: a field of the policy cannot
be read, or the encoding stalls at a value below. -/
def StallsAt (g : Graph) (v : Value) (e : Failure) : Prop :=
  (∃ role : Role, g.fieldOf v role.field = .error e) ∨ .error e ∈ g.branches v ∨
    ∃ s ss x, g.reach? v (s :: ss) = some x ∧ g.Stalls (ss.getLastD s) x e

/-- What the ending of an encoding says about what is encoded. -/
def ReportsAt (g : Graph) (limit : Nat) (r : Resolver) (v : Value) : Except Failure Unit → Prop
  | .ok _ => ∀ ss, ¬ g.FaultAt limit v ss
  | .error e =>
    r.Complains g v ∧ (∀ e', e = .encoding e' → e'.errorClass = .participantResolution) ∨
    (∃ e', e = .encoding e' ∧ g.FirstFaultAt limit v e') ∨
    (∀ e', e ≠ .encoding e') ∧ g.StallsAt v e

/-- A known type of a policy is no place for a fault. -/
theorem clean_type {n : Nat} {x : Value} (hx : (Outline.policyType? x).isSome) :
    g.Clean n [] .type x := by
  refine clean_of_no_branch (not_faulty rfl hx) (branches_of_not_node ?_)
  rintro r rfl
  simp [Outline.policyType?, Value.text?] at hx

theorem reports_unknown_type (hv : g.nodeClass? v = some .policy) {n : Nat} {x : Value}
    (hf : g.fieldOf v .type = .ok x) (unknown : Outline.policyType? x = none) :
    g.ReportsAt n r v (.error (g.unsupported x (Path.policy.snoc .type))) := by
  have hx : g.follow? v .type = some x :=
    (follow?_of_single rfl).mpr ⟨by simp [opens, hv], hf, by simp [PathStep.isOptional]⟩
  have rejected : ¬ g.Admits .type x := by simp [Admits, unknown]
  have reported : g.Reports n [] .type x (Path.policy.snoc .type)
      (.error (g.unsupported x (Path.policy.snoc .type))) := reports_unsupported x rejected
  rcases unsupported_cases g x (Path.policy.snoc .type) with ⟨flaw, he⟩ | ⟨shown, he⟩
  · rw [he]
    exact .inr (.inr ⟨by simp, .inr (.inr ⟨.type, [], x, by simp [reach?_cons, hx],
      .rejected flaw rejected⟩)⟩)
  · rw [he] at reported ⊢
    refine .inr (.inl ⟨_, rfl, firstFaultAt_of_branch hv hx reported ?_⟩)
    rintro t y (earlier | ⟨-, earlier⟩)
    · exact absurd earlier (Nat.not_lt_zero _)
    · exact absurd earlier (Nat.not_lt_zero _)

theorem not_type_of_mem_policyBranches {s : PathStep} {x : Value}
    (h : .ok (s, x) ∈ g.policyBranches v) : s ≠ .type := by
  rintro rfl
  exact absurd (Ordered.policyBranches.rank _ x h).1 (by decide)

/-- What the way through the rules of a policy of a known type says about the policy. -/
theorem reports_rules (hv : g.nodeClass? v = some .policy) {x : Value}
    (hf : g.fieldOf v .type = .ok x) (known : (Outline.policyType? x).isSome) :
    g.ReportsAt limit.toNat r v
      (pass (visitFrom g limit) (g.stopsOf Path.policy (g.policyBranches v)) .start).1 := by
  have split : g.branches v = g.single v .type ++ g.policyBranches v := by simp [branches, hv]
  have report : g.ReportsBranches limit.toNat [] v Path.policy
      (pass (visitFrom g limit) (g.stopsOf Path.policy (g.policyBranches v)) .start).1 := by
    refine reportsBranches_of (visitFrom_restores g limit) split ?_ ?_
    · intro s y member
      obtain ⟨rfl, hy, -⟩ := mem_single.mp member
      obtain rfl : x = y := by simpa [PathStep.field, hf] using hy
      exact clean_type known
    · intro s y member u hu
      have hy : g.follow? v s = some y := mem_branches.mp (by simp [split, member])
      refine reports_stopsAt (visitFrom_restores g limit) ?_ hy
        (not_type_of_mem_policyBranches member)
      intro s' spot z p w hs hw
      have start : w.active = [] := hw.trans hu
      apply visit_reports g limit hs z p (start : _ = [].map some) List.nodup_nil
      simp [start]
  cases hout : (pass (visitFrom g limit) (g.stopsOf Path.policy (g.policyBranches v)) .start).1 with
  | ok _ =>
    rw [hout] at report
    intro ss fault
    cases ss with
    | nil => exact faultAt_nil.mp fault hv
    | cons s ss =>
      obtain ⟨y, hy, fault⟩ := (faultAt_cons hv).mp fault
      exact report s y hy ss fault
  | error e =>
    rw [hout] at report
    have stalled : (.error e ∈ g.branches v ∨ ∃ s x, g.follow? v s = some x ∧
        ∃ ss y, g.reach? x ss = some y ∧ g.Stalls (ss.getLastD s) y e) → g.StallsAt v e := by
      rintro (field | ⟨s, y, hy, ss, z, hz, stall⟩)
      · exact .inr (.inl field)
      · exact .inr (.inr ⟨s, ss, z, reach?_cons_eq_some.mpr ⟨y, hy, hz⟩, stall⟩)
    cases e with
    | encoding e =>
      obtain ⟨s, y, hy, first, before⟩ := report
      exact .inr (.inl ⟨e, rfl, firstFaultAt_of_branch hv hy first before⟩)
    | noAttribute t n => exact .inr (.inr ⟨by simp, stalled report⟩)
    | notIterable t => exact .inr (.inr ⟨by simp, stalled report⟩)
    | unprintable flaw how => exact .inr (.inr ⟨by simp, stalled report⟩)

theorem not_encoding_of_fieldOf {f : Field} {e : Failure} (h : g.fieldOf v f = .error e) :
    ∀ e', e ≠ .encoding e' := by
  cases unreadable_of_fieldOf h <;> simp

/-- What the ending of an encoding says about what is encoded: it is a success only if no position
is faulty, and an encoding error is a complaint of the resolver or names the first fault. -/
theorem policyFrom_reports (g : Graph) (limit : Int) (r : Resolver) (id : Text) (v : Value)
    {run : Encoding} (h : Encoding.policyFrom g limit r id v .start = run) :
    g.ReportsAt limit.toNat r v (ending run).1 := by
  rcases policyFrom_cases g limit r id v .start h with
    ⟨hv, ended⟩ | ⟨hv, ⟨e, hf, ended⟩ | ⟨x, hf, ⟨unknown, ended⟩ | ⟨known, ⟨e, hr, ended⟩ | ended⟩⟩⟩
  · rw [ended]
    refine .inr (.inl ⟨_, rfl, [], v, rfl, rfl, by simpa [ExplainsAt, AllowedAt] using hv, ?_⟩)
    exact fun ss' earlier => absurd earlier (Path.not_earlier_nil ss')
  · rw [ended]
    refine .inr (.inr ⟨not_encoding_of_fieldOf hf, .inr (.inl ?_)⟩)
    simp [branches, hv, single, withField, PathStep.field, hf]
  · rw [ended]
    exact reports_unknown_type hv hf unknown
  · rw [ended]
    rcases Resolution.both_error hr with ⟨role, hf'⟩ | complaint
    · exact .inr (.inr ⟨not_encoding_of_fieldOf hf', .inl ⟨role, hf'⟩⟩)
    · exact .inl complaint
  · rw [ended]
    exact reports_rules hv hf known

/-- What an encoding of a policy does to the greatest length of the active path. -/
theorem policyFrom_deepens (g : Graph) (limit : Int) (r : Resolver) (id : Text) (v : Value)
    {run : Encoding} (h : Encoding.policyFrom g limit r id v .start = run) :
    g.Deepens limit.toNat (g.policyBranches v) .start (ending run) := by
  rcases policyFrom_cases g limit r id v .start h with
    ⟨hv, ended⟩ | ⟨hv, ⟨e, hf, ended⟩ | ⟨x, hf, ⟨unknown, ended⟩ | ⟨known, ⟨e, hr, ended⟩ | ended⟩⟩⟩
  · rw [ended]
    exact .failed _ _ _
  · rw [ended]
    exact .failed _ _ _
  · rw [ended]
    exact .failed _ _ _
  · rw [ended]
    exact .failed _ _ _
  · rw [ended]
    refine deepens_stopsOf (visitFrom_restores g limit) _ (Nat.le_refl 0) ?_
    intro s y member u hu hu'
    have hy : g.follow? v s = some y := mem_branches.mp (by simp [branches, hv, member])
    refine deepens_stopsAt (visitFrom_restores g limit) hu' ?_ hy
      (not_type_of_mem_policyBranches member)
    intro s' spot z p w hs hw hw'
    have start : w.active = [] := hw.trans hu
    have same : visitFrom g limit spot z p w = visit g limit limit.toNat spot z p w := by
      simp [visitFrom, start]
    rw [same]
    exact visit_deepens g limit limit.toNat _ s' spot z p w hs rfl hw'

end Graph

end UsagePolicy
