import UsagePolicy.Proofs.Encoding.Faults

/-!
# Visits

What a visit does to the trail of a walk, and what its ending says about the positions below the
value that is visited. Both are shown for a single branch first, then for all branches of a value,
and by induction on the room below the limit for a whole visit.
-/

namespace UsagePolicy

/-- A filler that takes off the active path whatever it puts there. -/
def Filler.Restores (f : Filler) : Prop := ∀ s v p t, (f s v p t).2.active = t.active

namespace Stop

theorem pass_active {f : Filler} (hf : f.Restores) (ss : List Stop) (t : Trail) :
    (pass f ss t).2.active = t.active := by
  induction ss generalizing t with
  | nil => rfl
  | cons s ss ih =>
    cases s with
    | fault e => rfl
    | place s v p =>
      have kept := hf s v p t
      rw [pass]
      split
      · next _ t' h => rw [ih, ← kept, h]
      · next e t' h => rw [← kept, h]

end Stop

theorem Outline.fill_active {f : Filler} (hf : f.Restores) (o : Outline) (t : Trail) :
    (o.fill f t).2.active = t.active := by
  have h := Stop.pass_active hf o.stops t
  rwa [← ending_fill] at h

/-- How a visit ends: it is refused, there is no room left, or what is visited has been filled with
one place less of room. -/
theorem visit_cases {g : Graph} {limit : Int} {room : Nat} {s : Spot} {v : Value} {p : Path}
    {t t' : Trail} {out : Except Failure Value} (h : visit g limit room s v p t = (out, t')) :
    (∃ e, refusal? g s v p t = some e ∧ out = .error e ∧ t' = t) ∨
    (refusal? g s v p t = none ∧ room = 0 ∧ out = .error (.encoding (.tooDeep p limit)) ∧ t' = t) ∨
    (refusal? g s v p t = none ∧ ∃ n t'', room = n + 1 ∧
      (Outline.ofSpot g s v p).fill (visit g limit n) (t.push v) = (out, t'') ∧ t' = t''.pop) := by
  cases hr : refusal? g s v p t with
  | some e =>
    unfold visit at h
    simp only [hr] at h
    obtain ⟨rfl, rfl⟩ := Prod.mk.inj h
    exact .inl ⟨e, rfl, rfl, rfl⟩
  | none =>
    cases room with
    | zero =>
      simp only [visit, hr] at h
      obtain ⟨rfl, rfl⟩ := Prod.mk.inj h
      exact .inr (.inl ⟨rfl, rfl, rfl, rfl⟩)
    | succ n =>
      simp only [visit, hr] at h
      obtain ⟨rfl, rfl⟩ := Prod.mk.inj h
      exact .inr (.inr ⟨rfl, n, _, rfl, rfl, rfl⟩)

/-- A visit leaves the active path as it was, whatever its outcome. -/
theorem visit_restores (g : Graph) (limit : Int) (room : Nat) : (visit g limit room).Restores := by
  induction room with
  | zero =>
    intro s v p t
    rcases visit_cases (rfl : visit g limit 0 s v p t = (_, _)) with
      ⟨e, -, -, ht⟩ | ⟨-, -, -, ht⟩ | ⟨-, n, t'', hn, -⟩
    · rw [ht]
    · rw [ht]
    · exact absurd hn (Nat.zero_ne_add_one n)
  | succ n ih =>
    intro s v p t
    rcases visit_cases (rfl : visit g limit (n + 1) s v p t = (_, _)) with
      ⟨e, -, -, ht⟩ | ⟨-, -, -, ht⟩ | ⟨-, m, t'', hm, hfill, ht⟩
    · rw [ht]
    · rw [ht]
    · obtain rfl : n = m := Nat.succ.inj hm
      have kept := Outline.fill_active ih (Outline.ofSpot g s v p) (t.push v)
      rw [hfill] at kept
      simp only [Trail.push] at kept
      simp only [ht, Trail.pop, kept, List.tail_cons]

namespace Graph

open Outline Stop

variable {g : Graph} {n : Nat} {limit : Int} {up : List Ref} {s : PathStep} {v : Value} {p : Path}

/-! ## What is refused -/

theorem holds_iff {t : Trail} (ht : t.active = up.map some) :
    t.holds v = true ↔ ∃ r ∈ up, v = .node r := by
  cases v <;> simp [Trail.holds, ht]

theorem unsupported_cases (g : Graph) (v : Value) (p : Path) :
    (∃ flaw, g.unsupported v p = .unprintable flaw .shown) ∨
      ∃ t, g.unsupported v p = .encoding (.unsupported p (g.typeName v) t) := by
  unfold unsupported
  split
  · exact .inr ⟨_, rfl⟩
  · exact .inl ⟨_, rfl⟩

/-- A value whose class a spot asks for. -/
def suits (g : Graph) (v : Value) : Spot → Bool
  | .rule kind => (g.nodeClass? v).any fun c => c.isA kind
  | .constraint => true

theorem refusal?_eq (g : Graph) (spot : Spot) (v : Value) (p : Path) (t : Trail) :
    refusal? g spot v p t = if g.suits v spot then
        if t.holds v then some (.encoding (.cyclic p (g.typeName v))) else none
      else some (g.unsupported v p) := by
  cases spot with
  | rule kind => cases h : (g.nodeClass? v).any fun c => c.isA kind <;> simp [refusal?, suits, h]
  | constraint => simp [refusal?, suits]

theorem refusal?_cases (spot : Spot) (v : Value) (p : Path) {t : Trail}
    (ht : t.active = up.map some) :
    (g.suits v spot = false ∧ refusal? g spot v p t = some (g.unsupported v p)) ∨
    (g.suits v spot = true ∧ (∃ r ∈ up, v = .node r) ∧
      refusal? g spot v p t = some (.encoding (.cyclic p (g.typeName v)))) ∨
    (g.suits v spot = true ∧ (∀ r ∈ up, v ≠ .node r) ∧ refusal? g spot v p t = none) := by
  rw [refusal?_eq]
  cases hs : g.suits v spot with
  | false => exact .inl ⟨rfl, rfl⟩
  | true =>
    by_cases hv : t.holds v = true
    · exact .inr (.inl ⟨rfl, (holds_iff ht).mp hv, by simp [hv]⟩)
    · refine .inr (.inr ⟨rfl, ?_, by simp [hv]⟩)
      intro r hr hvr
      exact hv ((holds_iff ht).mpr ⟨r, hr, hvr⟩)

theorem refusal?_eq_none {spot : Spot} {t : Trail} (ht : t.active = up.map some)
    (h : refusal? g spot v p t = none) : g.suits v spot = true ∧ ∀ r ∈ up, v ≠ .node r := by
  rcases refusal?_cases spot v p ht with ⟨-, refused⟩ | ⟨-, -, refused⟩ | ⟨suited, fresh, -⟩
  · rw [refused] at h
    cases h
  · rw [refused] at h
    cases h
  · exact ⟨suited, fresh⟩

theorem suits_of_refusal? {spot : Spot} {t : Trail} (h : refusal? g spot v p t = none) :
    g.suits v spot = true := by
  rw [refusal?_eq] at h
  by_cases suited : g.suits v spot = true
  · exact suited
  · rw [if_neg suited] at h
    cases h

/-! ## What is entered -/

theorem suits_of_admitsAt {spot : Spot} (h : g.AdmitsAt v spot) : g.suits v spot = true := by
  cases spot with
  | rule kind =>
    obtain ⟨c, hc, hk, -⟩ := h
    simp [suits, hc, hk]
  | constraint => rfl

theorem nodeClass?_ne_policy {spot : Spot} (h : g.AdmitsAt v spot) :
    g.nodeClass? v ≠ some .policy := by
  cases spot with
  | rule kind =>
    obtain ⟨c, hc, -, rfl | rfl | rfl⟩ := h <;> simp [hc]
  | constraint => rcases h with hc | ⟨hc, -⟩ <;> simp [hc]

theorem under_of_admitsAt {spot : Spot} (h : g.AdmitsAt v spot) (up : List Ref) :
    ∃ r, v = .node r ∧ g.under v up = r :: up := by
  have entered : (g.nodeClass? v).any NodeClass.isEntered = true := by
    cases spot with
    | rule kind =>
      obtain ⟨c, hc, -, rfl | rfl | rfl⟩ := h <;> simp [hc, NodeClass.isEntered]
    | constraint => rcases h with hc | ⟨hc, -⟩ <;> simp [hc, NodeClass.isEntered]
  cases v with
  | node r => exact ⟨r, rfl, by simp [under, entered?, entered, Trail.mark]⟩
  | _ => simp [nodeClass?] at entered

/-- The outline of a value that is allowed at a spot stops at the branches of the value. -/
theorem stops_ofSpot {spot : Spot} (h : g.AdmitsAt v spot) (p : Path) :
    (ofSpot g spot v p).stops = g.stopsOf p (g.branches v) := by
  cases spot with
  | rule kind =>
    obtain ⟨c, hc, -, hr⟩ := h
    exact stops_rule p (by rcases hr with rfl | rfl | rfl <;> simp [hc])
  | constraint => exact stops_constraint p h

/-- The outline of a value that is not allowed at a spot is a fault. -/
theorem stops_ofSpot_of_not {spot : Spot} (hs : g.suits v spot = true)
    (h : ¬ g.AdmitsAt v spot) (p : Path) :
    ∃ w, (ofSpot g spot v p).stops = [.fault (g.unsupported w p)] := by
  cases spot with
  | rule kind =>
    refine ⟨v, ?_⟩
    cases hc : g.nodeClass? v with
    | none => simp [suits, hc] at hs
    | some c =>
      have hk : c.isA kind = true := by simpa [suits, hc] using hs
      cases c <;> simp [AdmitsAt, hc, hk] at h <;> simp [ofSpot, rule, hc, stops]
  | constraint =>
    cases hc : g.nodeClass? v with
    | none => exact ⟨v, by simp [ofSpot, constraint, hc, stops]⟩
    | some c =>
      cases c <;> simp [AdmitsAt, hc] at h
      case multiplicityConstraint =>
        obtain ⟨k, hk, hu⟩ := h
        exact ⟨k, by simp [ofSpot, constraint, hc, Outline.multiplicity, hk, withValue, hu, stops]⟩
      all_goals exact ⟨v, by simp [ofSpot, constraint, hc, stops]⟩

/-! ## The way through branches -/

/-- The way through branches ends well if each of them does, and else as the first that does not. -/
theorem pass_stopsOf {f : Filler} (hf : f.Restores) (p : Path) (bs : List Branch) {t t' : Trail}
    {out : Except Failure Unit} (h : pass f (g.stopsOf p bs) t = (out, t')) :
    (out = .ok () ∧ ∀ b ∈ bs, ∃ u : Trail, u.active = t.active ∧
      (pass f (g.stopsAt p b) u).1 = .ok ()) ∨
    ∃ e as b cs, out = .error e ∧ bs = as ++ b :: cs ∧
      (∀ a ∈ as, ∃ u : Trail, u.active = t.active ∧ (pass f (g.stopsAt p a) u).1 = .ok ()) ∧
      ∃ u : Trail, u.active = t.active ∧ (pass f (g.stopsAt p b) u).1 = .error e := by
  induction bs generalizing t with
  | nil =>
    obtain ⟨rfl, rfl⟩ := Prod.mk.inj h
    exact .inl ⟨rfl, by simp⟩
  | cons b bs ih =>
    rw [stopsOf, List.flatMap_cons, pass_append] at h
    cases hb : pass f (g.stopsAt p b) t with
    | mk o u =>
      have kept : u.active = t.active := by
        rw [← pass_active hf (g.stopsAt p b) t, hb]
      have here : (pass f (g.stopsAt p b) t).1 = o := by rw [hb]
      simp only [hb] at h
      cases o with
      | error e =>
        obtain ⟨rfl, rfl⟩ := Prod.mk.inj h
        exact .inr ⟨e, [], b, bs, rfl, rfl, by simp, t, rfl, here⟩
      | ok _ =>
        rw [← kept]
        rcases ih h with ⟨rfl, all⟩ | ⟨e, as, c, cs, rfl, rfl, before, last⟩
        · refine .inl ⟨rfl, ?_⟩
          intro a ha
          rcases List.mem_cons.mp ha with rfl | ha
          · exact ⟨t, kept.symm, here⟩
          · exact all a ha
        · refine .inr ⟨e, b :: as, c, cs, rfl, rfl, ?_, last⟩
          intro a ha
          rcases List.mem_cons.mp ha with rfl | ha
          · exact ⟨t, kept.symm, here⟩
          · exact before a ha

/-- What the way through branches says about a value, if each branch says the like. Branches that
are not gone through lead to no fault. -/
theorem reportsBranches_of {f : Filler} (hf : f.Restores) {pre bs : List Branch} {t : Trail}
    (split : g.branches v = pre ++ bs) (before : ∀ s x, .ok (s, x) ∈ pre → g.Clean n up s x)
    (each : ∀ s x, .ok (s, x) ∈ bs → ∀ u : Trail, u.active = t.active →
      g.Reports n up s x (p.snoc s) (pass f (g.stopsAt p (.ok (s, x))) u).1) :
    g.ReportsBranches n up v p (pass f (g.stopsOf p bs) t).1 := by
  have clean : ∀ s x, .ok (s, x) ∈ bs →
      (∃ u : Trail, u.active = t.active ∧ (pass f (g.stopsAt p (.ok (s, x))) u).1 = .ok ()) →
      g.Clean n up s x := by
    rintro s x member ⟨u, hu, ended⟩
    have report := each s x member u hu
    rwa [ended] at report
  rcases pass_stopsOf hf p bs (rfl : pass f (g.stopsOf p bs) t = (_, _)) with
    ⟨ended, all⟩ | ⟨e, as, b, cs, ended, rfl, all, u, hu, last⟩
  · rw [ended]
    intro s x hx
    rw [← mem_branches, split] at hx
    rcases List.mem_append.mp hx with hx | hx
    · exact before s x hx
    · exact clean s x hx (all _ hx)
  · rw [ended]
    cases b with
    | error e' =>
      obtain rfl : e' = e := by simpa [stopsAt, Stop.pass] using last
      have member : .error e' ∈ g.branches v := by simp [split]
      cases unreadable_of_branches member <;> exact .inl member
    | ok q =>
      obtain ⟨s, x⟩ := q
      have hx : g.follow? v s = some x := mem_branches.mp (by simp [split])
      have report := each s x (by simp) u hu
      rw [last] at report
      cases e with
      | encoding e =>
        refine ⟨s, x, hx, report, ?_⟩
        intro s' y sooner hy
        rw [← List.append_assoc] at split
        rcases List.mem_append.mp (mem_of_precedes split hy sooner) with hy | hy
        · exact before s' y hy
        · exact clean s' y (by simp [hy]) (all _ hy)
      | noAttribute t n => exact .inr ⟨s, x, hx, report⟩
      | notIterable t => exact .inr ⟨s, x, hx, report⟩
      | unprintable flaw how => exact .inr ⟨s, x, hx, report⟩

/-! ## Single branches -/

/-- The ending of a rejection reports the value at the path. -/
theorem reports_unsupported (w : Value) (h : ¬ g.Admits s v) :
    g.Reports n up s v p (.error (g.unsupported w p)) := by
  rcases unsupported_cases g w p with ⟨flaw, hw⟩ | ⟨t, hw⟩
  · rw [hw]
    exact ⟨[], v, rfl, .rejected flaw h⟩
  · rw [hw]
    exact firstFault_here ⟨rfl, h⟩

theorem clean_of_no_branch (here : ¬ g.Faulty n up s v) (none : g.branches v = []) :
    g.Clean n up s v :=
  clean_of_branches here fun s' x hx => by simp [← mem_branches, none] at hx

theorem not_faulty {s : PathStep} (hs : s.spot? = none) (h : g.Admits s v) :
    ¬ g.Faulty n up s v := by
  simp [Faulty, h, PathStep.enters, hs]

theorem branches_of_not_node (h : ∀ r, v ≠ .node r) : g.branches v = [] := by
  cases v <;> simp_all [branches, nodeClass?]

theorem reports_stall {e : Failure} (h : g.Stalls s v e) (he : ∀ e', e ≠ .encoding e') :
    g.Reports n up s v p (.error e) := by
  cases e with
  | encoding e => exact absurd rfl (he e)
  | _ => exact ⟨[], v, rfl, h⟩

theorem stops_literal (g : Graph) (v : Value) :
    (withValue (g.fieldOf v .value) (literal g (v.slot .value))).stops = [] ∨
      ∃ e, (withValue (g.fieldOf v .value) (literal g (v.slot .value))).stops = [.fault e] ∧
        ∀ e', e ≠ .encoding e' := by
  cases hf : g.fieldOf v .value with
  | error e =>
    refine .inr ⟨e, rfl, ?_⟩
    cases unreadable_of_fieldOf hf <;> simp
  | ok x =>
    simp only [withValue]
    unfold literal
    split
    · exact .inl rfl
    · exact .inl rfl
    · split
      · exact .inl rfl
      · exact .inr ⟨_, rfl, by simp⟩

theorem reports_expression (f : Filler) (u : Trail) (hs : s = .leftOperand ∨ s = .rightOperand) :
    g.Reports n up s v p (pass f (expression g v p).stops u).1 := by
  have admits : g.Admits s v ↔ g.nodeClass? v = some .literalExpression := by
    rcases hs with rfl | rfl <;> rfl
  have noSpot : s.spot? = none := by rcases hs with rfl | rfl <;> rfl
  unfold expression
  split
  · next hc =>
    have clean : g.Clean n up s v :=
      clean_of_no_branch (not_faulty noSpot (admits.mpr hc)) (by simp [branches, hc])
    have stall := fun e => Stalls.literal (g := g) (s := s) (v := v) (e := e) hc
    simp only [stops, memberStops, List.append_nil]
    rcases stops_literal g v with hl | ⟨e, hl, he⟩
    · rw [hl]
      exact clean
    · rw [hl] at stall ⊢
      exact reports_stall (stall e (by simp)) he
  · next hc => exact reports_unsupported v (mt admits.mp hc)

theorem reports_operator (f : Filler) (u : Trail) :
    g.Reports n up .operator v p (pass f (operator g v p).stops u).1 := by
  unfold operator
  split
  · next o =>
    exact clean_of_no_branch (not_faulty rfl ⟨o, rfl⟩) (branches_of_not_node (by simp))
  · next hv =>
    have rejected : ¬ g.Admits .operator v := by
      rintro ⟨o, ho⟩
      exact hv o ho
    split
    · exact firstFault_here ⟨rfl, rejected⟩
    · exact ⟨[], v, rfl, .rejected _ rejected⟩

theorem mem_fields_of_fieldOf {f : Field} {x : Value} (h : g.fieldOf v f = .ok x) :
    ∃ c, g.nodeClass? v = some c ∧ f ∈ c.fields := by
  unfold fieldOf at h
  split at h
  · next r =>
    cases hn : g.node? r with
    | none => simp [hn] at h
    | some node =>
      simp only [hn, Option.bind_some] at h
      split at h
      · next y hy =>
        obtain ⟨as, bs, fields, -⟩ := List.lookup_eq_some_iff.mp hy
        exact ⟨node.nodeClass, by simp [nodeClass?, hn],
          node.mem_fields (f, y) (by simp [fields])⟩
      · simp at h
  · simp at h

/-- What is no action ends an encoding because a field is not there. -/
theorem pass_action_of_not (f : Filler) (u : Trail) (hv : v ≠ .absent)
    (hc : g.nodeClass? v ≠ some .action) :
    ∃ e, pass f (Outline.action g v p).stops u = (.error e, u) ∧ Unreadable e := by
  have included : ∃ e, g.fieldOf v .includedIn = .error e := by
    cases hf : g.fieldOf v .includedIn with
    | error e => exact ⟨e, rfl⟩
    | ok x =>
      obtain ⟨c, hcv, member⟩ := mem_fields_of_fieldOf hf
      cases c <;> simp [NodeClass.fields, hcv] at member hc
  obtain ⟨e, he⟩ := included
  have unfolded : (Outline.action g v p).stops =
      (withValue (g.fieldOf v .type) .leaf).stops ++ .fault e ::
        memberStops (ifPresent Term.refinement (g.fieldOf v .constraint)
          fun c => .place .constraint c (p.snoc .refinement)) := by
    cases v <;> simp_all [Outline.action, stops, memberStops, ifPresent]
  rw [unfolded]
  cases ht : g.fieldOf v .type with
  | error e' => exact ⟨e', rfl, unreadable_of_fieldOf ht⟩
  | ok x => exact ⟨e, rfl, unreadable_of_fieldOf he⟩

theorem stopsAt_of_spot {spot : Spot} (hs : s.spot? = some spot) (x : Value) :
    g.stopsAt p (.ok (s, x)) = [.place spot x (p.snoc s)] := by
  cases s <;> simp_all [PathStep.spot?, stopsAt]

theorem reports_action {f : Filler} (hf : f.Restores) {u : Trail}
    (places : ∀ s spot x p w, s.spot? = some spot → w.active = u.active →
      g.Reports n up s x p (Walk.ending (f spot x p w)).1) (hv : v ≠ .absent) :
    g.Reports n up .action v p (pass f (Outline.action g v p).stops u).1 := by
  by_cases hc : g.nodeClass? v = some .action
  · have under : g.under v up = up := by simp [under, entered?, hc, NodeClass.isEntered]
    have here : ¬ g.Faulty n up .action v := not_faulty rfl (by simp [Admits, PathStep.spot?])
    rw [stops_action p hc]
    apply ReportsBranches.reports here
    rw [under]
    apply reportsBranches_of hf (List.nil_append _).symm (by simp)
    intro s x hx w hw
    rw [mem_branches] at hx
    have refinement : s = .refinement := by
      cases s <;> simp [follow?, opens, hc] at hx ⊢
    subst refinement
    rw [stopsAt_of_spot rfl, pass_place]
    exact places .refinement .constraint x _ w rfl hw
  · obtain ⟨e, ended, he⟩ := pass_action_of_not f u hv hc
    rw [ended]
    exact reports_stall (.action rfl hc) (by cases he <;> simp)

/-- What the ending of the way through a branch says about the value it leads to, if the filler says
the like of the places that it fills. -/
theorem reports_stopsAt {f : Filler} (hf : f.Restores) {u : Trail}
    (places : ∀ s spot x p w, s.spot? = some spot → w.active = u.active →
      g.Reports n up s x p (Walk.ending (f spot x p w)).1)
    {x : Value} (hx : g.follow? v s = some x) (hs : s ≠ .type) :
    g.Reports n up s x (p.snoc s) (pass f (g.stopsAt p (.ok (s, x))) u).1 := by
  cases hspot : s.spot? with
  | some spot =>
    rw [stopsAt_of_spot hspot, pass_place]
    exact places s spot x _ u hspot rfl
  | none =>
    cases s <;> simp [PathStep.spot?] at hspot
    case type => exact absurd rfl hs
    case assignee => simp [follow?, opens] at hx
    case assigner => simp [follow?, opens] at hx
    case leftOperand => exact reports_expression f u (.inl rfl)
    case rightOperand => exact reports_expression f u (.inr rfl)
    case operator => exact reports_operator f u
    case action => exact reports_action hf places (follow?_of_single rfl |>.mp hx |>.2.2 rfl)

/-! ## Whole visits -/

theorem admits_of_spot {spot : Spot} (hs : s.spot? = some spot) :
    g.Admits s v ↔ g.AdmitsAt v spot := by
  cases s <;> simp_all [PathStep.spot?, Admits]

theorem reports_refusal {spot : Spot} (hs : s.spot? = some spot) {t : Trail}
    (ht : t.active = up.map some) {e : Failure} (h : refusal? g spot v p t = some e) :
    g.Reports n up s v p (.error e) := by
  rcases refusal?_cases spot v p ht with
    ⟨unsuited, refused⟩ | ⟨-, above, refused⟩ | ⟨-, -, entered⟩
  · obtain rfl : g.unsupported v p = e := Option.some.inj (refused.symm.trans h)
    apply reports_unsupported v
    rw [admits_of_spot hs]
    intro admitted
    simp [suits_of_admitsAt admitted] at unsuited
  · obtain rfl := Option.some.inj (refused.symm.trans h)
    exact firstFault_here ⟨rfl, above⟩
  · simp [entered] at h

theorem ne_type_of_admitsAt {spot : Spot} {x : Value} (admitted : g.AdmitsAt v spot)
    (hx : g.follow? v s = some x) : s ≠ .type := by
  rintro rfl
  have opened := ((follow?_of_single rfl).mp hx).1
  exact nodeClass?_ne_policy admitted (by simpa [opens] using opened)

/-- What the ending of the way through a rule or a constraint says about it, if it is not faulty
itself and the filler says the like of the places that it fills. -/
theorem reports_entered {f : Filler} (hf : f.Restores) {spot : Spot} {r : Ref} {u : Trail}
    (admitted : g.AdmitsAt (.node r) spot) (under : g.under (.node r) up = r :: up)
    (here : ¬ g.Faulty n up s (.node r))
    (places : ∀ s spot x p w, s.spot? = some spot → w.active = u.active →
      g.Reports n (r :: up) s x p (Walk.ending (f spot x p w)).1) :
    g.Reports n up s (.node r) p (pass f (ofSpot g spot (.node r) p).stops u).1 := by
  rw [stops_ofSpot admitted]
  apply ReportsBranches.reports here
  rw [under]
  apply reportsBranches_of hf (List.nil_append _).symm (by simp)
  intro s' x hx w hw
  rw [mem_branches] at hx
  apply reports_stopsAt hf _ hx (ne_type_of_admitsAt admitted hx)
  intro s'' spot' y q w' hs'' hw'
  exact places s'' spot' y q w' hs'' (hw'.trans hw)

/-- What the ending of a visit says about the value where a step leads: the visit is a success only
if no position below is faulty, and an encoding error names the first faulty one. -/
theorem visit_reports (g : Graph) (limit : Int) {n room : Nat} {up : List Ref} {s : PathStep}
    {spot : Spot} (hs : s.spot? = some spot) (v : Value) (p : Path) {t : Trail}
    (ht : t.active = up.map some) (nodup : up.Nodup) (hn : up.length + room = n) :
    g.Reports n up s v p (Walk.ending (visit g limit room spot v p t)).1 := by
  have enters : s.enters = true := by simp [PathStep.enters, hs]
  -- by the room below the limit; the active path of the trail is what stands above the value
  induction room generalizing up s spot v p t with
  | zero =>
    rcases visit_cases (rfl : visit g limit 0 spot v p t = (_, _)) with
      ⟨e, refused, out, -⟩ | ⟨entered, -, out, -⟩ | ⟨-, m, -, hm, -⟩
    · rw [Walk.ending, out]
      exact reports_refusal hs ht refused
    · rw [Walk.ending, out]
      exact firstFault_here ⟨rfl, enters, hn, nodup, (refusal?_eq_none ht entered).2⟩
    · omega
  | succ room ih =>
    rcases visit_cases (rfl : visit g limit (room + 1) spot v p t = (_, _)) with
      ⟨e, refused, out, -⟩ | ⟨-, h, -⟩ | ⟨entered, m, t', hm, filled, -⟩
    · rw [Walk.ending, out]
      exact reports_refusal hs ht refused
    · omega
    · obtain rfl : room = m := by omega
      obtain ⟨suited, fresh⟩ := refusal?_eq_none ht entered
      have passed := Outline.ending_fill (visit g limit room) (ofSpot g spot v p) (t.push v)
      rw [filled] at passed
      have outcome : (Walk.ending (visit g limit (room + 1) spot v p t)).1 =
          (pass (visit g limit room) (ofSpot g spot v p).stops (t.push v)).1 := by
        rw [← passed]
        rfl
      rw [outcome]
      by_cases admitted : g.AdmitsAt v spot
      · obtain ⟨r, rfl, under⟩ := under_of_admitsAt admitted up
        have active : (t.push (.node r)).active = (r :: up).map some := by
          simp [Trail.push, Trail.mark, ht]
        have unseen : r ∉ up := fun member => fresh r member rfl
        have here : ¬ g.Faulty n up s (.node r) := by
          rintro (h | ⟨-, ⟨r', member, same⟩ | deep⟩)
          · exact h ((admits_of_spot hs).mpr admitted)
          · exact fresh r' member same
          · omega
        apply reports_entered (visit_restores g limit room) admitted under here
        intro s' spot' x q w hs' hw
        have enters' : s'.enters = true := by simp [PathStep.enters, hs']
        refine ih hs' x q (hw.trans active) (List.nodup_cons.mpr ⟨unseen, nodup⟩) ?_ enters'
        rw [List.length_cons]
        omega
      · obtain ⟨w, fault⟩ := stops_ofSpot_of_not suited admitted p
        rw [fault]
        exact reports_unsupported w (mt (admits_of_spot hs).mp admitted)

end Graph

end UsagePolicy
