import UsagePolicy.Proofs.Encoding.CopiedPolicies
import UsagePolicy.Proofs.Encoding.OwnErrors

/-!
# What an encoding asks a resolver

An encoding asks for the participants of a policy before it looks at the rules: for the assignee
first and then for the assigner, each if there is one, and for nobody else. The first complaint ends
the encoding, and nothing but the answers to what was asked makes a difference to it.

A complaint is reported together with the text of the participant, so a participant whose text has
no end makes the report fail instead.
-/

namespace UsagePolicy

/-- The participants asked for when each of some is asked for until there is a complaint. -/
def Resolver.untilComplaint (r : Resolver) (g : Graph) :
    List (Role × Value) → List (Role × Value)
  | [] => []
  | p :: ps => p :: match r.resolve g p.2 with
    | .ok _ => untilComplaint r g ps
    | .error _ => []

namespace Graph

/-- The values that a policy has in roles, as far as it has the fields. An absent value is none. -/
def namedIn (g : Graph) (v : Value) : List Role → List (Role × Value)
  | [] => []
  | role :: roles => match g.fieldOf v role.field with
    | .error _ => []
    | .ok .absent => namedIn g v roles
    | .ok x => (role, x) :: namedIn g v roles

/-- The participants of a policy in their roles, the assignee before the assigner. -/
def participants (g : Graph) (v : Value) : List (Role × Value) := g.namedIn v [.assignee, .assigner]

/-- The value is a policy of a known type. -/
def IsTypedPolicy (g : Graph) (v : Value) : Prop :=
  g.nodeClass? v = some .policy ∧ ∃ x, g.fieldOf v .type = .ok x ∧ (Outline.policyType? x).isSome

/-- How an encoding fails for a complaint about the participant of a policy in a role: with an error
that reports it, or because the participant cannot be printed. -/
inductive FailsToResolve (g : Graph) (policy : Value) (role : Role) (x : Value) (c : Complaint) :
    Failure → Prop
  | reported {printed : Text} {e : EncodingError} :
    g.plainWithin (policy.slot role.field) x = .ok printed →
    e.errorClass = .participantResolution →
    e.message = ("Failed to resolve " : Text) ++ role.name ++ (" '" : Text) ++ printed
      ++ ("' to an IRI" : Text) →
    e.details = ([("path", .text (("$." : Text) ++ role.name)),
      ("participant_id", EncodingError.participantJson x printed),
      ("error", .text c.text)] : Json.Members) →
    e.cause? = some c → FailsToResolve g policy role x c (.encoding e)
  | unprintable {flaw : PrintFlaw} : g.plainWithin (policy.slot role.field) x = .error flaw →
    FailsToResolve g policy role x c (.unprintable flaw .plain)

/-- Whom an encoding asks a resolver for, and what it does about a complaint: it fails with it before
any rule is entered. -/
structure Consults (g : Graph) (r : Resolver) (v : Value) (run : Encoding) : Prop where
  nobody : ¬ g.IsTypedPolicy v → run.asked = []
  inTurn : g.IsTypedPolicy v → run.asked = (r.untilComplaint g (g.participants v)).map Prod.snd
  complaint : g.IsTypedPolicy v → ∀ role x c, (role, x) ∈ r.untilComplaint g (g.participants v) →
    r.resolve g x = .error c →
      (∃ e, run.outcome = .error e ∧ g.FailsToResolve v role x c e) ∧ run.trail = .start

variable {g : Graph} {r r' : Resolver} {v x : Value} {role : Role}

theorem namedIn_cons_of_error {e : Failure} (h : g.fieldOf v role.field = .error e)
    (roles : List Role) : g.namedIn v (role :: roles) = [] := by
  rw [namedIn, h]

theorem namedIn_cons_of_absent (h : g.fieldOf v role.field = .ok .absent) (roles : List Role) :
    g.namedIn v (role :: roles) = g.namedIn v roles := by
  rw [namedIn, h]

theorem namedIn_cons_of_given (h : g.fieldOf v role.field = .ok x) (given : x ≠ .absent)
    (roles : List Role) : g.namedIn v (role :: roles) = (role, x) :: g.namedIn v roles := by
  rw [namedIn, h]
  cases x with
  | absent => exact absurd rfl given
  | _ => rfl

end Graph

namespace Resolution

variable {α β : Type} {g : Graph} {r r' : Resolver} {v x : Value} {ro : Role}
  {w : Resolution α} {k k' : α → Resolution β}

theorem bind_of_ok {a : α} (h : w.outcome = .ok a) :
    w.bind k = ⟨w.asked ++ (k a).asked, w.omitted ++ (k a).omitted, (k a).outcome⟩ := by
  simp only [bind, h]

theorem bind_of_error {e : Failure} (h : w.outcome = .error e) :
    w.bind k = ⟨w.asked, w.omitted, .error e⟩ := by
  simp only [bind, h]

/-! ## One role after the other -/

/-- What asking for the participant in a role comes to. -/
inductive Comes (g : Graph) (r : Resolver) (v : Value) (ro : Role) : Resolution Value → Prop
  | unreadable {e : Failure} : g.fieldOf v ro.field = .error e →
    Comes g r v ro ⟨[], [], .error e⟩
  | unnamed : g.fieldOf v ro.field = .ok .absent → Comes g r v ro ⟨[], [], .ok .absent⟩
  | answered {x y : Value} (omitted : List (Role × Value)) : g.fieldOf v ro.field = .ok x →
    x ≠ .absent → r.resolve g x = .ok y → Comes g r v ro ⟨[x], omitted, .ok y⟩
  | refused {x : Value} {c : Complaint} {e : Failure} : g.fieldOf v ro.field = .ok x →
    x ≠ .absent → r.resolve g x = .error c → g.FailsToResolve v ro x c e →
    Comes g r v ro ⟨[x], [], .error e⟩

theorem failsToResolve (g : Graph) (v : Value) (ro : Role) (x : Value) (c : Complaint) :
    g.FailsToResolve v ro x c (match g.plainWithin (v.slot ro.field) x with
      | .ok printed => .encoding (.unresolved ro x printed c)
      | .error flaw => .unprintable flaw .plain) := by
  cases printed : g.plainWithin (v.slot ro.field) x with
  | error flaw => exact .unprintable printed
  | ok t =>
    refine .reported printed rfl rfl ?_ rfl
    cases ro <;> rfl

theorem participant_of_given {opened : List Slot} (given : x ≠ .absent) :
    participant g r opened ro x = match r.resolve g x with
      | .ok .absent => ⟨[x], [(ro, x)], .ok .absent⟩
      | .ok identifier => ⟨[x], [], .ok identifier⟩
      | .error c => ⟨[x], [], .error (match g.plainWithin opened x with
        | .ok printed => .encoding (.unresolved ro x printed c)
        | .error flaw => .unprintable flaw .plain)⟩ := by
  cases x with
  | absent => exact absurd rfl given
  | _ => rfl

theorem role_comes (g : Graph) (r : Resolver) (v : Value) (ro : Role) :
    Comes g r v ro (role g r v ro) := by
  unfold role
  cases field : g.fieldOf v ro.field with
  | error e => exact .unreadable field
  | ok x =>
    rw [bind_of_ok rfl]
    by_cases given : x = .absent
    · subst given
      exact .unnamed field
    · rw [participant_of_given given]
      split
      · next answer => exact .answered _ field given answer
      · next answer => exact .answered _ field given answer
      · next c answer => exact .refused field given answer (failsToResolve g v ro x c)

/-- Participants in roles are asked for in turn, until there is a complaint to fail with. -/
structure InTurn (g : Graph) (r : Resolver) (v : Value) (roles : List Role) (w : Resolution α) :
    Prop where
  asked : w.asked = (r.untilComplaint g (g.namedIn v roles)).map Prod.snd
  complaint : ∀ ro x c, (ro, x) ∈ r.untilComplaint g (g.namedIn v roles) → r.resolve g x = .error c →
    ∃ e, w.outcome = .error e ∧ g.FailsToResolve v ro x c e

theorem inTurn_silent (out : Except Failure α) : InTurn g r v [] (silent out) :=
  ⟨rfl, fun _ _ _ member => absurd member List.not_mem_nil⟩

/-- One more role comes first. -/
theorem InTurn.role_bind {roles : List Role} {k : Value → Resolution α}
    (rest : ∀ a, InTurn g r v roles (k a)) :
    InTurn g r v (ro :: roles) ((role g r v ro).bind k) := by
  have comes := role_comes g r v ro
  generalize Resolution.role g r v ro = first at comes
  cases comes with
  | @unreadable e field =>
    rw [bind_of_error rfl]
    constructor
    · rw [Graph.namedIn_cons_of_error field]
      rfl
    · intro ro' x c asked
      rw [Graph.namedIn_cons_of_error field] at asked
      exact absurd asked List.not_mem_nil
  | unnamed field =>
    rw [bind_of_ok rfl]
    constructor
    · rw [Graph.namedIn_cons_of_absent field]
      exact (rest .absent).asked
    · rw [Graph.namedIn_cons_of_absent field]
      exact (rest .absent).complaint
  | @answered x y omitted field given answer =>
    have asks : r.untilComplaint g (g.namedIn v (ro :: roles)) =
        (ro, x) :: r.untilComplaint g (g.namedIn v roles) := by
      rw [Graph.namedIn_cons_of_given field given, Resolver.untilComplaint, answer]
    rw [bind_of_ok rfl]
    constructor
    · rw [asks, (rest y).asked]
      rfl
    · intro ro' x' c asked complains
      rw [asks] at asked
      rcases List.mem_cons.mp asked with here | later
      · cases here
        cases answer.symm.trans complains
      · exact (rest y).complaint ro' x' c later complains
  | @refused x c e field given answer fails =>
    have asks : r.untilComplaint g (g.namedIn v (ro :: roles)) = [(ro, x)] := by
      rw [Graph.namedIn_cons_of_given field given, Resolver.untilComplaint, answer]
    rw [bind_of_error rfl]
    constructor
    · rw [asks]
      rfl
    · intro ro' x' c' asked complains
      rw [asks] at asked
      cases List.mem_singleton.mp asked
      cases answer.symm.trans complains
      exact ⟨e, rfl, fails⟩

theorem both_inTurn (g : Graph) (r : Resolver) (v : Value) :
    InTurn g r v [.assignee, .assigner] (both g r v) :=
  .role_bind fun _ => .role_bind fun _ => inTurn_silent _

/-! ## Resolvers that answer alike -/

theorem bind_congr {w' : Resolution α} (first : w' = w)
    (rest : ∀ a, w.outcome = .ok a → k' a = k a) : w'.bind k' = w.bind k := by
  subst first
  cases out : w'.outcome with
  | error e => rw [bind_of_error out, bind_of_error out]
  | ok a => rw [bind_of_ok out, bind_of_ok out, rest a out]

theorem mem_asked_bind {a : α} (out : w.outcome = .ok a) (later : x ∈ (k a).asked) :
    x ∈ (w.bind k).asked := by
  rw [bind_of_ok out]
  exact List.mem_append_right _ later

theorem mem_asked_of_first (first : x ∈ w.asked) : x ∈ (w.bind k).asked := by
  cases out : w.outcome with
  | error e =>
    rw [bind_of_error out]
    exact first
  | ok a =>
    rw [bind_of_ok out]
    exact List.mem_append_left _ first

/-- Only the answer to what is asked makes a difference. -/
theorem participant_congr {opened : List Slot}
    (agree : ∀ y ∈ (participant g r opened ro x).asked, r'.resolve g y = r.resolve g y) :
    participant g r' opened ro x = participant g r opened ro x := by
  by_cases given : x = .absent
  · subst given
    rfl
  · have asked : x ∈ (participant g r opened ro x).asked := by
      rw [participant_of_given given]
      split <;> exact List.mem_singleton.mpr rfl
    rw [participant_of_given given, participant_of_given given, agree x asked]

theorem role_congr (agree : ∀ y ∈ (role g r v ro).asked, r'.resolve g y = r.resolve g y) :
    role g r' v ro = role g r v ro := by
  apply bind_congr rfl
  intro x field
  exact participant_congr fun y asked => agree y (mem_asked_bind field asked)

theorem both_congr (agree : ∀ y ∈ (both g r v).asked, r'.resolve g y = r.resolve g y) :
    both g r' v = both g r v := by
  apply bind_congr (role_congr fun y asked => agree y (mem_asked_of_first asked))
  intro a out
  apply bind_congr
  · exact role_congr fun y asked => agree y (mem_asked_bind out (mem_asked_of_first asked))
  · intro b _
    rfl

end Resolution

/-! ## Encodings -/

namespace Graph

variable {g : Graph} {r r' : Resolver} {v : Value} {limit : Int} {id : Text} {t : Trail}

theorem IsTypedPolicy.exists_policyType (h : g.IsTypedPolicy v) :
    ∃ type, Encoding.policyType g v = .ok type := by
  obtain ⟨-, x, field, known⟩ := h
  obtain ⟨type, ht⟩ := Option.isSome_iff_exists.mp known
  refine ⟨type, ?_⟩
  unfold Encoding.policyType
  rw [field]
  dsimp only
  rw [ht]

/-- An encoding of what is no policy of a known type fails at its beginning. -/
theorem policyFrom_untyped (h : ¬ g.IsTypedPolicy v) :
    ∃ e, ∀ limit r id t, Encoding.policyFrom g limit r id v t = Encoding.failed e t := by
  by_cases policy : g.nodeClass? v = some .policy
  · cases type : Encoding.policyType g v with
    | error e => exact ⟨e, fun _ _ _ _ => by rw [Encoding.policyFrom, if_pos policy, type]⟩
    | ok type' =>
      refine absurd ⟨policy, ?_⟩ h
      unfold Encoding.policyType at type
      cases field : g.fieldOf v .type with
      | error e => simp [field] at type
      | ok x =>
        refine ⟨x, rfl, ?_⟩
        rw [field] at type
        cases known : Outline.policyType? x with
        | none => simp [known] at type
        | some type => rfl
  · exact ⟨_, fun _ _ _ _ => by rw [Encoding.policyFrom, if_neg policy]⟩

/-- An encoding of a policy of a known type resolves its participants, and enters no rule if it
fails to. -/
theorem policyFrom_typed (h : g.IsTypedPolicy v) :
    ∃ type, ∀ limit r id t,
      Encoding.policyFrom g limit r id v t = Encoding.rules g limit r id v type t := by
  obtain ⟨type, ht⟩ := h.exists_policyType
  exact ⟨type, fun _ _ _ _ => by rw [Encoding.policyFrom, if_pos h.1, ht]⟩

theorem asked_rules (type : PolicyType) :
    (Encoding.rules g limit r id v type t).asked = (Resolution.both g r v).asked := by
  unfold Encoding.rules
  dsimp only
  split <;> rfl

theorem consults_policyFrom (g : Graph) (limit : Int) (r : Resolver) (id : Text) (v : Value) :
    g.Consults r v (Encoding.policyFrom g limit r id v .start) := by
  have turns := Resolution.both_inTurn g r v
  constructor
  · intro untyped
    obtain ⟨e, fails⟩ := policyFrom_untyped untyped
    rw [fails]
    rfl
  · intro typed
    obtain ⟨type, goes⟩ := policyFrom_typed typed
    rw [goes, asked_rules]
    exact turns.asked
  · intro typed role x c asked complains
    obtain ⟨type, goes⟩ := policyFrom_typed typed
    obtain ⟨e, failed, fails⟩ := turns.complaint role x c asked complains
    rw [goes, Encoding.rules]
    dsimp only
    rw [failed]
    exact ⟨⟨e, rfl, fails⟩, rfl⟩

/-- Resolvers that answer alike to what one of them is asked make no difference. -/
theorem policyFrom_congr
    (agree : ∀ y ∈ (Encoding.policyFrom g limit r id v t).asked, r'.resolve g y = r.resolve g y) :
    Encoding.policyFrom g limit r' id v t = Encoding.policyFrom g limit r id v t := by
  by_cases typed : g.IsTypedPolicy v
  · obtain ⟨type, goes⟩ := policyFrom_typed typed
    rw [goes, asked_rules] at agree
    rw [goes, goes, Encoding.rules, Encoding.rules, Resolution.both_congr agree]
  · obtain ⟨e, fails⟩ := policyFrom_untyped typed
    rw [fails, fails]

/-- What is asked for does not depend on the identifier of the document. -/
theorem asked_policyFrom_identified (g : Graph) (limit : Int) (r : Resolver) (id id' : Text)
    (v : Value) (t : Trail) :
    (Encoding.policyFrom g limit r id v t).asked = (Encoding.policyFrom g limit r id' v t).asked ∧
      (Encoding.policyFrom g limit r id v t).omitted =
        (Encoding.policyFrom g limit r id' v t).omitted := by
  rcases policyFrom_course g limit r v with ⟨_, _, _, same⟩ | ⟨_, _, _, _, _, same⟩
  · simp only [same, and_self]
  · simp only [same, and_self]

/-- An encoding asks for the participants in turn and for nobody else, fails with the first
complaint before any rule, and comes to the same with every resolver that gives the same answers. -/
theorem encode_consults_resolver (g : Graph) (limit : Int) (asked : Option Int)
    (hd : 1 ≤ asked.getD limit) (resolver : ResolverArgument) {r : Resolver}
    (hr : resolver.normalize = .ok r) (id : Text) (v : Value) :
    ∃ run, encode g limit asked resolver id v = .ok run ∧ g.Consults r v run ∧
      ∀ resolver' r' id', ResolverArgument.normalize resolver' = .ok r' →
        (∀ x ∈ run.asked, r'.resolve g x = r.resolve g x) →
        ∃ run', encode g limit asked resolver' id' v = .ok run' ∧ run'.asked = run.asked ∧
          run'.omitted = run.omitted ∧ run'.result = run.result := by
  refine ⟨_, encode_eq hd hr, consults_policyFrom _ _ _ _ _, ?_⟩
  intro resolver' r' id' hr' agree
  refine ⟨_, encode_eq hd hr', ?_⟩
  have same := policyFrom_congr agree
  have named := asked_policyFrom_identified g (asked.getD limit) r' id' id v .start
  rw [result_policyFrom_identified _ _ _ id' id, named.1, named.2, same]
  exact ⟨rfl, rfl, rfl⟩

/-- An offer whose assignee is a list with a duty in it. -/
def assigningOffer : Node :=
  ⟨.policy, [(.type, .member (.policyType .offer)), (.permissions, .tuple []),
    (.prohibitions, .tuple []), (.obligations, .tuple []), (.assignee, .list [.node 1]),
    (.assigner, .text "bob"), (.target, .absent)], by decide⟩

/-- A policy whose assignee holds a duty that is the consequence of its own consequence. -/
def cyclicAssignee : Graph := ⟨#[assigningOffer, bareDuty (.node 2), bareDuty (.node 1)]⟩

set_option maxRecDepth 4000 in
/-- The assignee cannot be looked up in a table, and the complaint about it cannot be told. -/
theorem cyclicAssignee_ends_unreported : ∃ run,
    encode cyclicAssignee 64 none (.resolver (.table [])) "id" (.node 0) = .ok run ∧
      run.asked = [.list [.node 1]] ∧ run.outcome = .error (.unprintable .endless .plain) ∧
      run.trail = .start := by
  obtain ⟨run, encoded, consults, -⟩ := encode_consults_resolver cyclicAssignee 64 none (by decide)
    (.resolver (.table [])) rfl "id" (.node 0)
  have typed : cyclicAssignee.IsTypedPolicy (.node 0) := ⟨rfl, _, rfl, rfl⟩
  obtain ⟨⟨e, failed, fails⟩, start⟩ := consults.complaint typed .assignee (.list [.node 1]) _
    (.head _) rfl
  refine ⟨run, encoded, consults.inTurn typed, ?_, start⟩
  cases fails with
  | reported printed => cases printed
  | unprintable printed =>
    cases printed
    exact failed

end Graph

end UsagePolicy
