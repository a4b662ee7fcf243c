import Mathlib.Data.Set.Card
import UsagePolicy.Proofs.Encoding.Moments
import UsagePolicy.Proofs.Encoding.Nesting

/-!
# The active path of a well-typed policy

A rule or a constraint on the active path is not entered again, so the path never holds one of them
twice and is at most as long as there are rules and constraints below the policy. A limit of at
least that length is never met: the walk ends by itself, and a policy with a cycle fails because a
node is cyclic.
-/

namespace UsagePolicy

namespace Outline

variable {f f' : Filler}

mutual

/-- Two fillers that agree on the places of an outline fill it alike. -/
theorem fill_congr (hf : f.Restores) : ∀ (o : Outline) (t : Trail),
    (∀ s v p, .place s v p ∈ o.stops → ∀ w, w.active = t.active → f s v p w = f' s v p w) →
    o.fill f t = o.fill f' t
  | .leaf _, _, _ => rfl
  | .fault _, _, _ => rfl
  | .place s v p, t, same => same s v p (by simp [stops]) t rfl
  | .items os, t, same => by
    rw [fill, fill, fillItems_congr hf os t same]
  | .members ms, t, same => by
    rw [fill, fill, fillMembers_congr hf ms t same]

theorem fillItems_congr (hf : f.Restores) : ∀ (os : List Outline) (t : Trail),
    (∀ s v p, .place s v p ∈ itemStops os → ∀ w, w.active = t.active → f s v p w = f' s v p w) →
    fillItems f os t = fillItems f' os t
  | [], _, _ => rfl
  | o :: os, t, same => by
    have kept := fill_active hf o t
    rw [fillItems, fillItems, ← fill_congr hf o t fun s v p member =>
      same s v p (by simp [itemStops, member])]
    cases filled : fill f o t with
    | mk out u =>
      rw [filled] at kept
      cases out with
      | error e => rfl
      | ok x =>
        dsimp only at kept ⊢
        rw [fillItems_congr hf os u fun s v p member w hw =>
          same s v p (by simp [itemStops, member]) w (hw.trans kept)]

theorem fillMembers_congr (hf : f.Restores) : ∀ (ms : List (Text × Outline)) (t : Trail),
    (∀ s v p, .place s v p ∈ memberStops ms → ∀ w, w.active = t.active → f s v p w = f' s v p w) →
    fillMembers f ms t = fillMembers f' ms t
  | [], _, _ => rfl
  | (k, o) :: ms, t, same => by
    have kept := fill_active hf o t
    rw [fillMembers, fillMembers, ← fill_congr hf o t fun s v p member =>
      same s v p (by simp [memberStops, member])]
    cases filled : fill f o t with
    | mk out u =>
      rw [filled] at kept
      cases out with
      | error e => rfl
      | ok x =>
        dsimp only at kept ⊢
        rw [fillMembers_congr hf ms u fun s v p member w hw =>
          same s v p (by simp [memberStops, member]) w (hw.trans kept)]

end

end Outline

namespace Graph

open Stop Outline

variable {g : Graph} {v x y : Value} {ss : List PathStep} {up : List Ref} {spot : Spot} {p : Path}
  {t u : Trail} {r : Ref}

/-! ## Rules and constraints below a value -/

/-- The rules and constraints that can be reached from a value. -/
def nested (g : Graph) (v : Value) : Set Ref :=
  {r | g.entered? (.node r) = some r ∧ ∃ ss, g.reach? v ss = some (.node r)}

theorem finite_nested (g : Graph) (v : Value) : (g.nested v).Finite := by
  refine (Set.finite_lt_nat g.nodes.size).subset ?_
  rintro r ⟨entered, -⟩
  show r < g.nodes.size
  by_contra beyond
  have none : g.node? r = none := Array.getElem?_eq_none (Nat.not_lt.mp beyond)
  simp [entered?, nodeClass?, none] at entered

/-- The references are different ones, all of rules and constraints below the value. -/
structure Straight (g : Graph) (v : Value) (up : List Ref) : Prop where
  nodup : up.Nodup
  nested : ∀ r ∈ up, r ∈ g.nested v

theorem straight_nil (g : Graph) (v : Value) : g.Straight v [] := ⟨List.nodup_nil, by simp⟩

theorem Straight.cons (h : g.Straight v up) (fresh : r ∉ up) (hr : r ∈ g.nested v) :
    g.Straight v (r :: up) where
  nodup := List.nodup_cons.mpr ⟨fresh, h.nodup⟩
  nested := by
    intro q member
    rcases List.mem_cons.mp member with rfl | member
    · exact hr
    · exact h.nested q member

/-- There are no more different rules and constraints on a path than there are at all. -/
theorem Straight.length_le (h : g.Straight v up) : up.length ≤ (g.nested v).ncard := by
  rw [← List.toFinset_card_of_nodup h.nodup, ← Set.ncard_coe_finset]
  refine Set.ncard_le_ncard ?_ (g.finite_nested v)
  intro r member
  exact h.nested r (by simpa using member)

theorem mem_nested_of_admitsAt (hx : g.reach? v ss = some x) (admitted : g.AdmitsAt x spot) :
    ∃ r, x = .node r ∧ r ∈ g.nested v := by
  obtain ⟨r, rfl, under⟩ := under_of_admitsAt admitted []
  refine ⟨r, rfl, ?_, ss, hx⟩
  rw [Graph.under, List.append_nil] at under
  simpa using under

/-- What stands above the end of a path has been entered on the way there. -/
theorem mem_nested_of_mem_above (member : r ∈ g.above up v ss) : r ∈ up ∨ r ∈ g.nested v := by
  induction ss generalizing up v with
  | nil => exact .inl member
  | cons s ss ih =>
    rw [above] at member
    cases hx : g.follow? v s with
    | none =>
      rw [hx] at member
      exact .inl member
    | some x =>
      rw [hx] at member
      rcases ih member with member | ⟨entered, ts, hr⟩
      · rcases List.mem_append.mp member with here | above
        · have here : g.entered? v = some r := by simpa using here
          cases v with
          | node q =>
            obtain rfl : q = r := by
              unfold entered? at here
              split at here
              · exact Option.some.inj here
              · cases here
            exact .inr ⟨here, [], rfl⟩
          | _ => simp [entered?, nodeClass?] at here
        · exact .inl above
      · exact .inr ⟨entered, s :: ts, reach?_cons_eq_some.mpr ⟨x, hx, hr⟩⟩

/-! ## Places of well-typed policies -/

theorem not_place_of_expression {w : Value} {q : Path} :
    .place spot w q ∉ (expression g x p).stops := by
  unfold expression
  split
  · simp only [stops, memberStops, List.append_nil]
    rcases stops_literal g x with none | ⟨e, fault, -⟩
    · simp [none]
    · simp [fault]
  · simp [stops]

theorem not_place_of_operator {w : Value} {q : Path} :
    .place spot w q ∉ (Outline.operator g x p).stops := by
  unfold Outline.operator identifier
  split
  · simp [stops, itemStops, memberStops]
  · split <;> simp [stops]

/-- The places of a branch are reached from the policy, and what stands there is allowed there. -/
theorem WellTyped.place_of_branch (h : g.WellTyped v) (hx : g.reach? v ss = some x)
    {s : PathStep} {w : Value} (hy : g.follow? x s = some y) {q : Path}
    (member : .place spot w q ∈ g.stopsAt p (.ok (s, y))) :
    ∃ ts, g.reach? v ts = some w ∧ g.AdmitsAt w spot := by
  have spotted : ∀ {ts s' z p'}, g.reach? v ts = some z → s'.spot? = some spot →
      g.follow? z s' = some w → .place spot w q ∈ g.stopsAt p' (.ok (s', w)) →
      ∃ ts, g.reach? v ts = some w ∧ g.AdmitsAt w spot := by
    intro ts s' z p' hz hs hw _
    have hw := reach?_snoc hz hw
    have allowed := h.allowedAt hw
    simp only [AllowedAt, List.getLast?_append, List.getLast?_singleton, Option.some_or] at allowed
    exact ⟨_, hw, (admits_of_spot hs).mp allowed⟩
  cases hs : s.spot? with
  | some spot' =>
    have place := member
    rw [stopsAt_of_spot hs] at place
    obtain ⟨rfl, rfl, -⟩ : spot = spot' ∧ w = y ∧ _ := by simpa using place
    exact spotted hx hs hy member
  | none =>
    cases s <;> simp [PathStep.spot?] at hs
    case type | assignee | assigner => simp [stopsAt, PathStep.spot?] at member
    case leftOperand | rightOperand => exact absurd member not_place_of_expression
    case operator => exact absurd member not_place_of_operator
    case action =>
      have action := nodeClass?_of_hasType (h.follow hx hy) (by decide)
      have member : .place spot w q ∈ (Outline.action g y (p.snoc .action)).stops := member
      rw [stops_action _ action] at member
      obtain ⟨b, hb, member⟩ := List.mem_flatMap.mp member
      cases b with
      | error e => simp [stopsAt] at member
      | ok e =>
        obtain ⟨s', z⟩ := e
        have hz := mem_branches.mp hb
        have refinement : s' = .refinement := by
          cases s' <;> simp [follow?, opens, action] at hz ⊢
        subst refinement
        have place := member
        rw [stopsAt_of_spot rfl] at place
        obtain ⟨rfl, rfl, -⟩ : spot = .constraint ∧ w = z ∧ _ := by simpa using place
        exact spotted (reach?_snoc hx hy) rfl hz member

/-- What a walk meets inside a rule or a constraint is reached from the policy and allowed. -/
theorem WellTyped.place_of_spot (h : g.WellTyped v) (hx : g.reach? v ss = some x)
    (admitted : g.AdmitsAt x spot) {spot' : Spot} {w : Value} {q : Path}
    (member : .place spot' w q ∈ (ofSpot g spot x p).stops) :
    ∃ ts, g.reach? v ts = some w ∧ g.AdmitsAt w spot' := by
  rw [stops_ofSpot admitted] at member
  obtain ⟨b, hb, member⟩ := List.mem_flatMap.mp member
  cases b with
  | error e => simp [stopsAt] at member
  | ok e => exact h.place_of_branch hx (mem_branches.mp hb) member

theorem WellTyped.place_of_policy (h : g.WellTyped v) {id : Text} {type : PolicyType}
    {a b : Value} {w : Value} {q : Path}
    (member : .place spot w q ∈ (Outline.policy g v id type a b).stops) :
    ∃ ts, g.reach? v ts = some w ∧ g.AdmitsAt w spot := by
  rw [stops_policy] at member
  obtain ⟨b, hb, member⟩ := List.mem_flatMap.mp member
  cases b with
  | error e => simp [stopsAt] at member
  | ok e =>
    have branch : .ok e ∈ g.branches v := by simp [branches, h.policy, hb]
    exact h.place_of_branch (reach?_nil g v) (mem_branches.mp branch) member

/-! ## Moments of walks through well-typed policies -/

/-- What is entered is not on the active path, so it keeps the path straight. -/
theorem Straight.push (h : g.Straight v up) (ht : t.active = up.map some)
    (hx : g.reach? v ss = some x) (admitted : g.AdmitsAt x spot)
    (entered : refusal? g spot x p t = none) :
    ∃ r, (t.push x).active = (r :: up).map some ∧ g.Straight v (r :: up) := by
  obtain ⟨r, rfl, hr⟩ := mem_nested_of_admitsAt hx admitted
  obtain ⟨-, fresh⟩ := refusal?_eq_none ht entered
  refine ⟨r, by simp [Trail.push, Trail.mark, ht], h.cons ?_ hr⟩
  intro member
  exact fresh r member rfl

/-- At every moment of a visit the active path is straight, and it is longer than before by no more
than the room below the limit. -/
theorem WellTyped.straight_of_visit (h : g.WellTyped v) {limit : Int} {room : Nat}
    (straight : g.Straight v up) (ht : t.active = up.map some) (hx : g.reach? v ss = some x)
    (admitted : g.AdmitsAt x spot) (stands : visitStandsOn g limit room spot x p t u) :
    ∃ up', u.active = up'.map some ∧ g.Straight v up' ∧ up'.length ≤ up.length + room := by
  induction room generalizing up ss spot x p t u with
  | zero =>
    rcases stands with rfl | rfl | ⟨-, within⟩
    · exact ⟨up, ht, straight, Nat.le_add_right _ _⟩
    · exact ⟨up, (visit_restores g limit 0 spot x p t).trans ht, straight, Nat.le_add_right _ _⟩
    · exact absurd within id
  | succ room ih =>
    rcases stands with rfl | rfl | ⟨entered, within⟩
    · exact ⟨up, ht, straight, Nat.le_add_right _ _⟩
    · exact ⟨up, (visit_restores g limit _ spot x p t).trans ht, straight, Nat.le_add_right _ _⟩
    · obtain ⟨r, pushed, straight'⟩ := straight.push ht hx admitted entered
      have length : (r :: up).length + room = up.length + (room + 1) := by
        rw [List.length_cons]
        omega
      rw [← length]
      have outside : ∀ w : Trail, w.active = (t.push x).active → ∃ up', w.active = up'.map some ∧
          g.Straight v up' ∧ up'.length ≤ (r :: up).length + room :=
        fun w hw => ⟨r :: up, hw.trans pushed, straight', Nat.le_add_right _ _⟩
      refine within.forall (visit_restores g limit room) outside ?_
      intro spot' y q member w w' hw stands
      obtain ⟨ts, hy, admitted'⟩ := h.place_of_spot hx admitted member
      exact ih straight' (hw.trans pushed) hy admitted' stands

/-- At every moment of an encoding the active path is straight and keeps to the limit. -/
theorem WellTyped.straight_of_standsOn (h : g.WellTyped v) {limit : Int} {r : Resolver} {id : Text}
    (stands : Encoding.StandsOn g limit r id v .start u) :
    ∃ up, u.active = up.map some ∧ g.Straight v up ∧ up.length ≤ limit.toNat := by
  have start : ∀ w : Trail, w.active = Trail.start.active →
      ∃ up, w.active = up.map some ∧ g.Straight v up ∧ up.length ≤ limit.toNat :=
    fun w hw => ⟨[], hw, g.straight_nil v, Nat.zero_le _⟩
  rcases stands with rfl | ⟨type, a, b, -, -, -, stands⟩
  · exact start _ rfl
  · refine stands.forall (visitFrom_restores g limit) start ?_
    intro spot x q member w w' hw stands
    obtain ⟨ts, hx, admitted⟩ := h.place_of_policy member
    have active : w.active = ([] : List Ref).map some := hw
    obtain ⟨up, hup, straight, length⟩ :=
      h.straight_of_visit (g.straight_nil v) active hx admitted stands
    refine ⟨up, hup, straight, Nat.le_trans length ?_⟩
    simp [active]

/-! ## Limits that are never met -/

/-- If there is room for all rules and constraints, a visit does not depend on the limit. -/
theorem WellTyped.visit_eq (h : g.WellTyped v) {limit limit' : Int} {room room' : Nat}
    (straight : g.Straight v up) (ht : t.active = up.map some) (hx : g.reach? v ss = some x)
    (admitted : g.AdmitsAt x spot) (enough : (g.nested v).ncard ≤ up.length + room)
    (enough' : (g.nested v).ncard ≤ up.length + room') :
    visit g limit room spot x p t = visit g limit' room' spot x p t := by
  -- by the room: what is entered takes one place of it on both sides
  induction room generalizing up ss spot x p t room' with
  | zero =>
    cases entered : refusal? g spot x p t with
    | some e =>
      unfold visit
      simp only [entered]
    | none =>
      obtain ⟨r, -, straight'⟩ := straight.push ht hx admitted entered
      have bound := straight'.length_le
      rw [List.length_cons] at bound
      omega
  | succ room ih =>
    cases entered : refusal? g spot x p t with
    | some e =>
      unfold visit
      simp only [entered]
    | none =>
      obtain ⟨r, pushed, straight'⟩ := straight.push ht hx admitted entered
      have bound := straight'.length_le
      have length : (r :: up).length = up.length + 1 := rfl
      cases room' with
      | zero => omega
      | succ room' =>
        have filled : (ofSpot g spot x p).fill (visit g limit room) (t.push x) =
            (ofSpot g spot x p).fill (visit g limit' room') (t.push x) := by
          apply fill_congr (visit_restores g limit room)
          intro spot' y q member w hw
          obtain ⟨ts, hy, admitted'⟩ := h.place_of_spot hx admitted member
          exact ih straight' (hw.trans pushed) hy admitted' (by omega) (by omega)
        unfold visit
        simp only [entered, filled]

/-- If the limit allows for all rules and constraints, an encoding does not depend on it. -/
theorem WellTyped.policyFrom_eq (h : g.WellTyped v) {limit limit' : Int} (r : Resolver) (id : Text)
    (enough : (g.nested v).ncard ≤ limit) (enough' : (g.nested v).ncard ≤ limit') :
    Encoding.policyFrom g limit r id v .start = Encoding.policyFrom g limit' r id v .start := by
  have filled : ∀ type a b, (Outline.policy g v id type a b).fill (visitFrom g limit) .start =
      (Outline.policy g v id type a b).fill (visitFrom g limit') .start := by
    intro type a b
    apply fill_congr (visitFrom_restores g limit)
    intro spot x q member w hw
    obtain ⟨ts, hx, admitted⟩ := h.place_of_policy member
    have active : w.active = ([] : List Ref).map some := hw
    refine h.visit_eq (g.straight_nil v) active hx admitted ?_ ?_
    · simp only [active, List.map_nil, List.length_nil]
      omega
    · simp only [active, List.map_nil, List.length_nil]
      omega
  unfold Encoding.policyFrom
  by_cases policy : g.nodeClass? v = some .policy
  · rw [if_pos policy, if_pos policy]
    cases Encoding.policyType g v with
    | error e => rfl
    | ok type =>
      unfold Encoding.rules
      cases hr : (Resolution.both g r v).outcome with
      | error e => simp only [hr]
      | ok both => simp only [hr, filled]
  · rw [if_neg policy, if_neg policy]

/-- A fault of a well-typed policy is that a node is cyclic, if the limit allows for all rules and
constraints. -/
theorem WellTyped.cyclic_of_firstFaultAt (h : g.WellTyped v) {limit : Nat} {e : EncodingError}
    (enough : (g.nested v).ncard ≤ limit) (first : g.FirstFaultAt limit v e) :
    ∃ p t, e = .cyclic p t := by
  obtain ⟨ss, x, -, hx, explained, -⟩ := first
  cases e with
  | cyclic p t => exact ⟨p, t, rfl⟩
  | tooDeep p n =>
    -- the value and what stands above it would be one rule or constraint too many
    obtain ⟨enters, length, nodup, fresh⟩ := explained
    have straight : g.Straight v (g.above [] v ss) := by
      refine ⟨nodup, fun r member => ?_⟩
      rcases mem_nested_of_mem_above member with none | nested
      · cases none
      · exact nested
    have allowed := h.allowedAt hx
    rcases exists_of_reach? hx with ⟨rfl, -⟩ | ⟨front, s, w, rfl, hw, hx'⟩
    · cases enters
    · obtain ⟨spot, hs⟩ : ∃ spot, s.spot? = some spot := by
        have enters : s.enters = true := by simpa using enters
        exact Option.isSome_iff_exists.mp enters
      simp only [AllowedAt, List.getLast?_append, List.getLast?_singleton, Option.some_or]
        at allowed
      obtain ⟨r, rfl, hr⟩ := mem_nested_of_admitsAt hx ((admits_of_spot hs).mp allowed)
      have unseen : r ∉ g.above [] v (front ++ [s]) := fun member => fresh r member rfl
      have bound := (straight.cons unseen hr).length_le
      rw [List.length_cons] at bound
      omega
  | unresolved role participant printed cause => exact absurd explained id
  | notAPolicy t => exact absurd (h.allowedAt hx) explained
  | unsupported p t shown => exact absurd (h.allowedAt hx) explained
  | unsupportedOperator p shown => exact absurd (h.allowedAt hx) explained

/-- A run that fails because a node is cyclic; the details name its type and no limit. -/
def FailsAsCyclic (run : Encoding) : Prop :=
  ∃ (e : EncodingError) (p : Path), run.outcome = .error (.encoding e) ∧
    e.message = ("Cyclic policy structure at " : Text) ++ p.text ∧
    e.details.map Prod.fst = ["path", "type"]

/-- At every moment of an encoding the active path holds different rules and constraints below the
policy, and it is no longer than the limit and than there are of them. -/
structure StaysStraight (g : Graph) (limit : Int) (r : Resolver) (id : Text) (v : Value)
    (run : Encoding) : Prop where
  straight : ∀ u, Encoding.StandsOn g limit r id v .start u →
    ∃ up, u.active = up.map some ∧ g.Straight v up
  length : ∀ u, Encoding.StandsOn g limit r id v .start u →
    (u.active.length : Int) ≤ min limit (g.nested v).ncard
  deepest : IsGreatest {n | ∃ u, Encoding.StandsOn g limit r id v .start u ∧ u.active.length = n}
    run.trail.deepest

/-- What an encoding comes to whose limit allows for all rules and constraints: it is the same with
every such limit, the limit is not exceeded, and a cycle makes it fail. -/
structure EndsByItself (g : Graph) (resolver : ResolverArgument) (r : Resolver) (id : Text)
    (v : Value) (run : Encoding) : Prop where
  same : ∀ (limit : Int) (asked : Option Int), 1 ≤ asked.getD limit →
    (g.nested v).ncard ≤ asked.getD limit → encode g limit asked resolver id v = .ok run
  notTooDeep : ∀ p n, run.outcome ≠ .error (.encoding (.tooDeep p n))
  cyclic : ¬ g.Acyclic v → ¬ r.Complains g v → FailsAsCyclic run

theorem WellTyped.staysStraight (h : g.WellTyped v) {limit : Int} (hd : 1 ≤ limit) (r : Resolver)
    (id : Text) :
    g.StaysStraight limit r id v (Encoding.policyFrom g limit r id v .start) where
  straight u stands := by
    obtain ⟨up, hup, straight, -⟩ := h.straight_of_standsOn stands
    exact ⟨up, hup, straight⟩
  length u stands := by
    obtain ⟨up, hup, straight, length⟩ := h.straight_of_standsOn stands
    have bound := straight.length_le
    rw [hup, List.length_map]
    omega
  deepest := Encoding.isGreatest_deepest g limit r id v

theorem WellTyped.endsByItself (h : g.WellTyped v) {limit : Int} {resolver : ResolverArgument}
    {r : Resolver} (hr : resolver.normalize = .ok r) (id : Text)
    (enough : (g.nested v).ncard ≤ limit) :
    g.EndsByItself resolver r id v (Encoding.policyFrom g limit r id v .start) := by
  generalize hrun : Encoding.policyFrom g limit r id v .start = run
  have report := policyFrom_reports g limit r id v hrun
  have ended : ∀ e, run.outcome = .error e → (ending run).1 = .error e := by
    intro e failed
    rw [ending, Walk.ending, failed]
    rfl
  have enoughNat : (g.nested v).ncard ≤ limit.toNat := by omega
  refine ⟨fun limit' asked hd enough' => ?_, fun p n failed => ?_, fun cycle answers => ?_⟩
  · rw [encode_eq hd hr, ← hrun, h.policyFrom_eq r id enough' enough]
  · rw [ended _ failed] at report
    rcases report with ⟨-, participant⟩ | ⟨e, same, first⟩ | ⟨other, -⟩
    · cases participant _ rfl
    · obtain ⟨p', t, rfl⟩ := h.cyclic_of_firstFaultAt enoughNat first
      cases same
    · exact other _ rfl
  · cases hout : run.outcome with
    | ok encoded =>
      have ok : (ending run).1 = .ok () := by
        rw [ending, Walk.ending, hout]
        rfl
      obtain ⟨greatest, -⟩ := policyFrom_isGreatest_deepest hrun ok
      exact absurd (h.acyclic_of_bounded fun n hn => greatest.2 hn) cycle
    | error e =>
      rw [ended e hout] at report
      rcases report with ⟨complains, -⟩ | ⟨e', rfl, first⟩ | ⟨-, stall⟩
      · exact absurd complains answers
      · obtain ⟨p, t, rfl⟩ := h.cyclic_of_firstFaultAt enoughNat first
        exact ⟨.cyclic p t, p, hout, rfl, rfl⟩
      · exact absurd stall (h.not_stallsAt e)

/-- A policy with two obligations that are the consequences of each other. -/
def mutualConsequence : Graph := ⟨#[obligingOffer, bareDuty (.node 2), bareDuty (.node 1)]⟩

theorem mutualConsequence_wellTyped : mutualConsequence.WellTyped (.node 0) := by
  apply wellTyped_of_nodes rfl
  intro n member
  simp only [mutualConsequence, List.mem_cons, List.not_mem_nil, or_false] at member
  rcases member with rfl | rfl | rfl
  all_goals
    apply typedNode_of_fields rfl
    simp [mutualConsequence, obligingOffer, bareDuty, NodeClass.fieldType, HasType, nodeClass?,
      node?, NodeClass.isA, Value.text?]

/-- The two obligations are all that can be entered. -/
theorem ncard_nested_mutualConsequence : (mutualConsequence.nested (.node 0)).ncard ≤ 2 := by
  have only : mutualConsequence.nested (.node 0) ⊆ ({1, 2} : Finset Ref) := by
    rintro r ⟨entered, -⟩
    match r with
    | 0 => cases entered
    | 1 | 2 => simp
    | r + 3 => simp [entered?, nodeClass?, node?, mutualConsequence] at entered
  calc (mutualConsequence.nested (.node 0)).ncard
      ≤ (({1, 2} : Finset Ref) : Set Ref).ncard :=
        Set.ncard_le_ncard only (Finset.finite_toSet _)
    _ = 2 := Set.ncard_coe_finset _

theorem mutualConsequence_not_acyclic : ¬ mutualConsequence.Acyclic (.node 0) :=
  fun acyclic => acyclic [.obligation 0] 1 [.consequence, .consequence] rfl (by simp) rfl

/-- The encoding of a well-typed policy never has the same rule or constraint twice on its active
path, so it ends by itself: a limit that allows for all rules and constraints is not exceeded, and a
cycle makes it fail as cyclic. -/
theorem encode_walks_straight (g : Graph) (limit : Int) (asked : Option Int)
    (hd : 1 ≤ asked.getD limit) (resolver : ResolverArgument) {r : Resolver}
    (hr : resolver.normalize = .ok r) (id : Text) (v : Value) (h : g.WellTyped v) :
    ∃ run, encode g limit asked resolver id v = .ok run ∧
      g.StaysStraight (asked.getD limit) r id v run ∧
      ((g.nested v).ncard ≤ asked.getD limit → g.EndsByItself resolver r id v run) :=
  ⟨_, encode_eq hd hr, h.staysStraight hd r id, h.endsByItself hr id⟩

/-- The two obligations fit the limit of two, so the policy fails because one of them is cyclic. -/
theorem mutualConsequence_fails_as_cyclic : ∃ run,
    encode mutualConsequence 64 (some 2) (.resolver .identity) "id" (.node 0) = .ok run ∧
      mutualConsequence.StaysStraight 2 .identity "id" (.node 0) run ∧ FailsAsCyclic run := by
  obtain ⟨run, encoded, straight, bounded⟩ := encode_walks_straight mutualConsequence 64 (some 2)
    (by decide) (.resolver .identity) rfl "id" (.node 0) mutualConsequence_wellTyped
  have fits : ((mutualConsequence.nested (.node 0)).ncard : Int) ≤ 2 := by
    exact_mod_cast ncard_nested_mutualConsequence
  refine ⟨run, encoded, straight, (bounded fits).cyclic mutualConsequence_not_acyclic ?_⟩
  rintro ⟨_, _, _, _, _, complaint⟩
  cases complaint

end Graph

end UsagePolicy
