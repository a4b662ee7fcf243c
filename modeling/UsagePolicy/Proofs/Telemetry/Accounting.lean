import Mathlib.Data.Set.Card
import Mathlib.Order.Lattice.Nat
import UsagePolicy.Session
import UsagePolicy.Proofs.Encoding.Nesting

/-!
# Accounts of a session

The metrics of a session account for the calls that were made in it. Every call that begins is
counted once, by how it ends, and opens one span; the histograms hold what can be read off the
policies that were encoded, their top-level rules and how deep they are nested. What is refused
leaves the session as it was.
-/

namespace UsagePolicy

/-! ## Histograms -/

namespace Histogram

variable {h : Histogram} {bounds vs : List Nat}

/-- The histogram counts the values, their sum, and for each bound the values up to it. -/
structure Counts (h : Histogram) (bounds vs : List Nat) : Prop where
  buckets : h.buckets = bounds.map fun b => (b, vs.countP (· ≤ b))
  count : h.count = vs.length
  sum : h.sum = vs.sum

theorem counts_ofBounds (bounds : List Nat) : (ofBounds bounds).Counts bounds [] := ⟨rfl, rfl, rfl⟩

theorem Counts.observe (c : h.Counts bounds vs) (v : Nat) :
    (h.observe v).Counts bounds (vs ++ [v]) where
  buckets := by
    simp only [Histogram.observe, c.buckets, List.map_map]
    apply List.map_congr_left
    intro b _
    by_cases below : v ≤ b <;> simp [below, List.countP_append]
  count := by simp [Histogram.observe, c.count]
  sum := by simp [Histogram.observe, c.sum]

end Histogram

/-! ## Rules and nesting of a policy -/

namespace Graph

variable {g : Graph} {v : Value} {f : Field}

/-- The steps that lead from a policy to its rules. -/
def topRules (g : Graph) (v : Value) : Set PathStep :=
  {s | (∃ i, s = .permission i ∨ s = .prohibition i ∨ s = .obligation i) ∧
    (g.follow? v s).isSome}

/-- The length of the longest chain of nested rules and constraints, if there is one. -/
noncomputable def depth (g : Graph) (v : Value) : Nat := sSup (g.chains v)

/-- The steps of one kind that lead somewhere are those below the number of values in the field. -/
theorem setOf_follow?_isSome (step : Nat → PathStep) (hi : ∀ i, (step i).index? = some i)
    (hf : ∀ i, (step i).field = f) (opens : ∀ i, g.opens v (step i) = true) :
    {s | (∃ i, s = step i) ∧ (g.follow? v s).isSome} =
      step '' (Finset.range (Encoding.count g v f)) := by
  have leads : ∀ i, (g.follow? v (step i)).isSome ↔ i < Encoding.count g v f := by
    intro i
    unfold follow? Encoding.count
    rw [if_pos (opens i), hf, hi]
    cases g.fieldOf v f <;> simp
  ext s
  simp only [Set.mem_ofPred_eq, Set.mem_image, Finset.coe_range, Set.mem_Iio]
  constructor
  · rintro ⟨⟨i, rfl⟩, h⟩
    exact ⟨i, (leads i).mp h, rfl⟩
  · rintro ⟨i, h, rfl⟩
    exact ⟨⟨i, rfl⟩, (leads i).mpr h⟩

theorem ncard_follow?_isSome (step : Nat → PathStep) (hi : ∀ i, (step i).index? = some i)
    (hf : ∀ i, (step i).field = f) (opens : ∀ i, g.opens v (step i) = true) :
    {s | (∃ i, s = step i) ∧ (g.follow? v s).isSome}.ncard = Encoding.count g v f ∧
      {s | (∃ i, s = step i) ∧ (g.follow? v s).isSome}.Finite := by
  have injective : Function.Injective step := by
    intro i j same
    exact Option.some.inj (by rw [← hi i, ← hi j, same])
  rw [setOf_follow?_isSome step hi hf opens]
  refine ⟨?_, (Finset.finite_toSet _).image _⟩
  rw [Set.ncard_image_of_injective _ injective, Set.ncard_coe_finset, Finset.card_range]

/-- The rules of a policy are counted by the lengths of its fields. -/
theorem ncard_topRules (policy : g.nodeClass? v = some .policy) :
    (g.topRules v).ncard = Encoding.ruleCount g v := by
  obtain ⟨permissions, finite⟩ := ncard_follow?_isSome (g := g) (v := v)
    (f := .permissions) .permission (fun _ => rfl) (fun _ => rfl) fun _ => by simp [opens, policy]
  obtain ⟨prohibitions, finite'⟩ := ncard_follow?_isSome (g := g) (v := v)
    (f := .prohibitions) .prohibition (fun _ => rfl) (fun _ => rfl) fun _ => by simp [opens, policy]
  obtain ⟨obligations, finite''⟩ := ncard_follow?_isSome (g := g) (v := v)
    (f := .obligations) .obligation (fun _ => rfl) (fun _ => rfl) fun _ => by simp [opens, policy]
  have union : g.topRules v = ({s | (∃ i, s = .permission i) ∧ (g.follow? v s).isSome} ∪
      {s | (∃ i, s = .prohibition i) ∧ (g.follow? v s).isSome}) ∪
      {s | (∃ i, s = .obligation i) ∧ (g.follow? v s).isSome} := by
    ext s
    simp only [topRules, Set.mem_ofPred_eq, Set.mem_union, exists_or, or_and_right, or_assoc]
  rw [union, Set.ncard_union_eq ?_ (finite.union finite') finite'',
    Set.ncard_union_eq ?_ finite finite', permissions, prohibitions, obligations,
    Encoding.ruleCount]
  · rw [Set.disjoint_left]
    rintro _ ⟨⟨i, rfl⟩, -⟩ ⟨⟨j, same⟩, -⟩
    cases same
  · rw [Set.disjoint_left]
    rintro _ (⟨⟨i, rfl⟩, -⟩ | ⟨⟨i, rfl⟩, -⟩) ⟨⟨j, same⟩, -⟩ <;> cases same

/-- What a document is said to be the document of. -/
theorem encoded_of_policyFrom {limit : Int} {r : Resolver} {id : Text} {t : Trail}
    {encoded : Encoded} (h : (Encoding.policyFrom g limit r id v t).outcome = .ok encoded) :
    g.nodeClass? v = some .policy ∧
      (∃ x, g.fieldOf v .type = .ok x ∧ Outline.policyType? x = some encoded.policyType) ∧
      encoded.ruleCount = Encoding.ruleCount g v := by
  unfold Encoding.policyFrom at h
  split at h
  · next policy =>
    refine ⟨policy, ?_⟩
    unfold Encoding.policyType at h
    cases hx : g.fieldOf v .type with
    | error e => simp [hx, Encoding.failed] at h
    | ok x =>
      cases known : Outline.policyType? x with
      | none => simp [hx, known, Encoding.failed] at h
      | some type =>
        simp only [hx, known, Encoding.rules] at h
        cases hr : (Resolution.both g r v).outcome with
        | error e => simp [hr] at h
        | ok both =>
          simp only [hr] at h
          cases walked : ((Outline.policy g v id type both.1 both.2).fill (visitFrom g limit) t).1
          · simp [walked, Except.map] at h
          · simp only [walked, Except.map, Except.ok.injEq] at h
            subst h
            exact ⟨⟨x, rfl, known⟩, rfl⟩
  · cases h

end Graph

/-! ## Calls -/

/-- The limit that is asked for is below one, or what is given as a resolver is none. -/
def EncodeRequest.IsUnfit (r : EncodeRequest) : Prop :=
  (∃ n, r.maxDepth = some n ∧ n < 1) ∨ ∃ t, r.resolver = .other t

namespace EncodeReport

/-- The encoding gave a document. -/
def returned (r : EncodeReport) : Bool :=
  match r.result with
  | .ok run => run.outcome.isOk
  | .error _ => false

/-- The encoding began and failed. -/
def raised (r : EncodeReport) : Bool :=
  match r.result with
  | .ok run => !run.outcome.isOk
  | .error _ => false

end EncodeReport

namespace Session

/-- A call to encode a policy in a session. -/
structure Call where
  session : Session
  moment : Moment
  request : EncodeRequest

/-- What can happen in a session. -/
inductive Event
  | encode (m : Moment) (r : EncodeRequest)
  | setMaxDepth (n : Int)
  | setCorrelation (id : Text)
  | configureLogging (level : Text) (structured : Bool)
  | log (span : SpanContext) (r : Record)

/-- The session after an event. -/
def after (s : Session) : Event → Session
  | .encode m r => (s.encode m r).1
  | .setMaxDepth n => s.setMaxDepth n
  | .setCorrelation id => s.setCorrelation id
  | .configureLogging level structured => (s.configureLogging level structured).1
  | .log _ _ => s

/-- The session after events one after the other. -/
def run (s : Session) (es : List Event) : Session := es.foldl after s

/-- The calls among events one after the other. -/
def calls (s : Session) : List Event → List Call
  | [] => []
  | e :: es => (match e with
    | .encode m r => [⟨s, m, r⟩]
    | _ => []) ++ calls (s.after e) es

namespace Call

variable {c : Call}

/-- What a call leaves. -/
def report (c : Call) : EncodeReport := (c.session.encode c.moment c.request).2

/-- The rules of the policy of a call. -/
noncomputable def rules (c : Call) : Nat := (c.request.graph.topRules c.request.policy).ncard

/-- The depth of the policy of a call. -/
noncomputable def depth (c : Call) : Nat := c.request.graph.depth c.request.policy

/-- What a call that begins leaves: one span, which tells the type and the number of rules of the
policy only if the policy was encoded. -/
structure Begun (c : Call) : Prop where
  result : ∃ run, c.report.result = .ok run
  failed : c.report.raised = true →
    c.report.spans = [⟨"odrl_encoder", "odrl.encode_policy", []⟩]
  encoded : c.report.returned = true →
    IsGreatest (c.request.graph.chains c.request.policy) c.depth ∧
    ∃ x type, c.request.graph.fieldOf c.request.policy .type = .ok x ∧
      Outline.policyType? x = some type ∧
      c.report.spans = [⟨"odrl_encoder", "odrl.encode_policy",
        [("odrl.policy_type", .text type.name), ("odrl.rule_count", .int c.rules)]⟩]

/-- What a refused call leaves: the session as it was, no span and nothing written. -/
structure Refused (c : Call) : Prop where
  result : ∃ refusal, c.report.result = .error refusal
  session : (c.session.encode c.moment c.request).1 = c.session
  spans : c.report.spans = []
  lines : c.report.lines = []

end Call

end Session

/-- The metrics account for calls: those that gave a document and those that failed are counted, and
the policies of the former are in the histograms. -/
structure Metrics.Accounts (m : Metrics) (cs : List Session.Call) : Prop where
  successes : m.successes = cs.countP fun c => c.report.returned
  errors : m.errors = cs.countP fun c => c.report.raised
  durations : m.durations = m.successes + m.errors
  rules : m.rules.Counts [0, 1, 5, 10, 25, 50, 100, 250]
    ((cs.filter fun c => c.report.returned).map Session.Call.rules)
  depths : m.depths.Counts [1, 2, 4, 8, 16, 32, 64]
    ((cs.filter fun c => c.report.returned).map Session.Call.depth)
  refused : ∀ c ∈ cs, c.request.IsUnfit → c.Refused
  begun : ∀ c ∈ cs, ¬ c.request.IsUnfit → c.Begun

theorem Metrics.zero_accounts : Metrics.zero.Accounts [] :=
  ⟨rfl, rfl, rfl, Histogram.counts_ofBounds _, Histogram.counts_ofBounds _, by simp, by simp⟩

namespace Session

variable {s : Session} {m : Moment} {r : EncodeRequest} {run : Encoding} {cs : List Call}

/-! ## One call -/

/-- An encoding is refused exactly if its limit or its resolver is unfit. -/
theorem isUnfit_iff_of_encode {g : Graph} {limit : Int} {id : Text} {policy : Value} :
    r.IsUnfit ↔ ∃ refusal, UsagePolicy.encode g limit r.maxDepth r.resolver id policy
      = .error refusal := by
  have low : r.maxDepth.filter (· < 1) = none ↔ ¬ ∃ n, r.maxDepth = some n ∧ n < 1 := by
    simp [Option.filter_eq_none_iff]
  unfold UsagePolicy.encode EncodeRequest.IsUnfit
  cases hf : r.maxDepth.filter (· < 1) with
  | some n =>
    have unfit := mt low.mpr (by simp [hf])
    simp [not_not.mp unfit]
  | none =>
    rw [or_iff_right (low.mp hf)]
    cases r.resolver <;> simp [ResolverArgument.normalize]

theorem encode_of_error {refusal : Refusal}
    (h : UsagePolicy.encode r.graph s.settings.maxDepth r.maxDepth r.resolver m.id r.policy
      = .error refusal) : s.encode m r = (s, ⟨.error refusal, [], []⟩) := by
  rw [encode, h]

theorem encode_of_ok
    (h : UsagePolicy.encode r.graph s.settings.maxDepth r.maxDepth r.resolver m.id r.policy
      = .ok run) : s.encode m r = ({ s with metrics := countEncoding s.metrics run },
        ⟨.ok run, [encodingSpan run],
          (encodingRecords r.graph r.policy m run).flatMap (s.root.emit (s.circumstances m.span))⟩) := by
  rw [encode, h]

/-- What is counted of a policy that was encoded can be read off the policy. -/
theorem Call.measured {c : Call} {limit : Int} {resolver : Resolver} {encoded : Encoded}
    (h : Encoding.policyFrom c.request.graph limit resolver m.id c.request.policy .start = run)
    (ok : run.outcome = .ok encoded) :
    IsGreatest (c.request.graph.chains c.request.policy) c.depth ∧
      encoded.ruleCount = c.rules ∧ run.trail.deepest = c.depth := by
  have ended : (Graph.ending run).1 = .ok () := by
    rw [Graph.ending, Walk.ending, ok]
    rfl
  obtain ⟨greatest, -⟩ := Graph.policyFrom_isGreatest_deepest h ended
  have deepest : run.trail.deepest = c.depth := greatest.csSup_eq.symm
  subst h
  obtain ⟨policy, -, count⟩ := Graph.encoded_of_policyFrom ok
  exact ⟨deepest ▸ greatest, count.trans (Graph.ncard_topRules policy).symm, deepest⟩

theorem Call.refused {c : Call} (unfit : c.request.IsUnfit) : c.Refused := by
  obtain ⟨refusal, h⟩ := isUnfit_iff_of_encode.mp unfit
  have left := encode_of_error (s := c.session) (m := c.moment) h
  exact ⟨⟨refusal, by rw [report, left]⟩, by rw [left], by rw [report, left], by rw [report, left]⟩

theorem Call.begun {c : Call} (fit : ¬ c.request.IsUnfit) : c.Begun := by
  obtain ⟨run, h⟩ : ∃ run, UsagePolicy.encode c.request.graph c.session.settings.maxDepth
      c.request.maxDepth c.request.resolver c.moment.id c.request.policy = .ok run := by
    cases h : UsagePolicy.encode c.request.graph c.session.settings.maxDepth
      c.request.maxDepth c.request.resolver c.moment.id c.request.policy with
    | ok run => exact ⟨run, rfl⟩
    | error refusal => exact absurd (isUnfit_iff_of_encode.mpr ⟨refusal, h⟩) fit
  have left := encode_of_ok (s := c.session) (m := c.moment) h
  have result : c.report.result = .ok run := by rw [report, left]
  have spans : c.report.spans = [encodingSpan run] := by rw [report, left]
  refine ⟨⟨run, result⟩, fun raised => ?_, fun returned => ?_⟩
  · rw [spans, encodingSpan]
    cases hout : run.outcome with
    | error e => rfl
    | ok encoded => simp [EncodeReport.raised, result, hout, Except.isOk, Except.toBool] at raised
  · rw [spans, encodingSpan]
    cases hout : run.outcome with
    | error e =>
      simp [EncodeReport.returned, result, hout, Except.isOk, Except.toBool] at returned
    | ok encoded =>
      obtain ⟨resolver, -, hrun⟩ := Graph.exists_policyFrom_of_encode h
      obtain ⟨greatest, count, -⟩ := measured hrun hout
      subst hrun
      obtain ⟨-, ⟨x, hx, known⟩, -⟩ := Graph.encoded_of_policyFrom hout
      exact ⟨greatest, x, _, hx, known, by simp only [count]⟩

/-! ## Runs -/

/-- A call keeps the account. -/
theorem accounts_encode (h : s.metrics.Accounts cs) (m : Moment) (r : EncodeRequest) :
    (s.encode m r).1.metrics.Accounts (cs ++ [⟨s, m, r⟩]) := by
  generalize hc : (⟨s, m, r⟩ : Call) = c
  have refused : ∀ c' ∈ cs ++ [c], c'.request.IsUnfit → c'.Refused := fun _ _ => Call.refused
  have begun : ∀ c' ∈ cs ++ [c], ¬ c'.request.IsUnfit → c'.Begun := fun _ _ => Call.begun
  have report : c.report = (s.encode m r).2 := by rw [← hc]; rfl
  cases he : UsagePolicy.encode r.graph s.settings.maxDepth r.maxDepth r.resolver m.id r.policy with
  | error refusal =>
    rw [encode_of_error he] at report ⊢
    have returned : c.report.returned = false := by rw [report]; rfl
    have raised : c.report.raised = false := by rw [report]; rfl
    exact ⟨by simp [h.successes, returned], by simp [h.errors, raised], h.durations,
      by simpa [returned] using h.rules, by simpa [returned] using h.depths, refused, begun⟩
  | ok run =>
    rw [encode_of_ok he] at report ⊢
    cases hout : run.outcome with
    | error e =>
      have returned : c.report.returned = false := by
        simp [report, EncodeReport.returned, hout, Except.isOk, Except.toBool]
      have raised : c.report.raised = true := by
        simp [report, EncodeReport.raised, hout, Except.isOk, Except.toBool]
      simp only [countEncoding, hout]
      exact ⟨by simp [Metrics.failure, h.successes, returned],
        by simp [Metrics.failure, h.errors, raised],
        by simp [Metrics.failure, h.durations, Nat.add_assoc],
        by simpa [Metrics.failure, returned] using h.rules,
        by simpa [Metrics.failure, returned] using h.depths, refused, begun⟩
    | ok encoded =>
      have returned : c.report.returned = true := by
        simp [report, EncodeReport.returned, hout, Except.isOk, Except.toBool]
      have raised : c.report.raised = false := by
        simp [report, EncodeReport.raised, hout, Except.isOk, Except.toBool]
      obtain ⟨resolver, -, hrun⟩ := Graph.exists_policyFrom_of_encode he
      obtain ⟨-, count, deepest⟩ : _ ∧ encoded.ruleCount = c.rules ∧ run.trail.deepest = c.depth :=
        Call.measured (c := c) (by rw [← hc]; exact hrun) hout
      simp only [countEncoding, hout, count, deepest]
      exact ⟨by simp [Metrics.success, h.successes, returned],
        by simp [Metrics.success, h.errors, raised],
        by simp [Metrics.success, h.durations, Nat.add_right_comm],
        by simpa [Metrics.success, returned] using h.rules.observe c.rules,
        by simpa [Metrics.success, returned] using h.depths.observe c.depth, refused, begun⟩

/-- Events keep the account, with the calls among them added to it. -/
theorem accounts_run (h : s.metrics.Accounts cs) (es : List Event) :
    (s.run es).metrics.Accounts (cs ++ s.calls es) := by
  induction es generalizing s cs with
  | nil => simpa [run, calls] using h
  | cons e es ih =>
    cases e with
    | encode m r =>
      have rest := ih (s := s.after (.encode m r)) (accounts_encode h m r)
      rwa [List.append_assoc] at rest
    | setMaxDepth n => exact ih (s := s.after (.setMaxDepth n)) h
    | setCorrelation id => exact ih (s := s.after (.setCorrelation id)) h
    | configureLogging level structured =>
      exact ih (s := s.after (.configureLogging level structured)) h
    | log span r => exact ih (s := s.after (.log span r)) h

/-- The metrics of a session that began with none account for all calls in it, whatever else
happened and however the calls ended. -/
theorem metrics_account_for_calls (s : Session) (es : List Event) :
    let fresh := { s with metrics := .zero }
    (fresh.run es).metrics.Accounts (fresh.calls es) :=
  accounts_run (s := { s with metrics := .zero }) Metrics.zero_accounts es

end Session

end UsagePolicy
