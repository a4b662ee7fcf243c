import Mathlib.Order.Bounds.Defs
import UsagePolicy.Proofs.Encoding.Policies

/-!
# The moments of a walk

Between its beginning and its end a walk stands on further trails: those on which it enters a value,
goes on to the next place or leaves a value again. `Stop.StandsOn` are those on the way from stop to
stop, `visitStandsOn` those of a visit and `Encoding.StandsOn` those of a whole encoding. The depth
that a walk keeps is the greatest length of the active path at any of them.
-/

namespace UsagePolicy

/-- On its way from stop to stop from the first trail, a walk stands on the second trail at some
moment. While a place is filled it stands on the trails that `inner` gives for the place. -/
inductive Stop.StandsOn (f : Filler) (inner : Spot → Value → Path → Trail → Trail → Prop) :
    List Stop → Trail → Trail → Prop
  | between (ss : List Stop) (t : Trail) : StandsOn f inner ss t t
  | inside {s v p ss t u} : inner s v p t u → StandsOn f inner (.place s v p :: ss) t u
  | after {s v p ss t t' u d} : f s v p t = (.ok d, t') → StandsOn f inner ss t' u →
    StandsOn f inner (.place s v p :: ss) t u

/-- During a visit from the first trail, the walk stands on the second trail at some moment: when
the visit begins, when it ends, or on the way through what it has put on the active path. -/
def visitStandsOn (g : Graph) (limit : Int) :
    (room : Nat) → Spot → Value → Path → Trail → Trail → Prop
  | room, s, v, p, t, u =>
    u = t ∨ u = (visit g limit room s v p t).2 ∨ refusal? g s v p t = none ∧
      match room with
      | 0 => False
      | room + 1 => Stop.StandsOn (visit g limit room) (visitStandsOn g limit room)
          (Outline.ofSpot g s v p).stops (t.push v) u

/-- During an encoding of a policy from the first trail, the walk stands on the second trail at some
moment. -/
def Encoding.StandsOn (g : Graph) (limit : Int) (r : Resolver) (id : Text) (v : Value)
    (t u : Trail) : Prop :=
  u = t ∨ ∃ type a b, g.nodeClass? v = some .policy ∧ policyType g v = .ok type ∧
    (Resolution.both g r v).outcome = .ok (a, b) ∧
      Stop.StandsOn (visitFrom g limit)
        (fun s x p t => visitStandsOn g limit (limit.toNat - t.active.length) s x p t)
        (Outline.policy g v id type a b).stops t u

/-- What holds wherever the active path is as at the beginning, and while any of the places is
filled, holds on the whole way. -/
theorem Stop.StandsOn.forall {f : Filler}
    {inner : Spot → Value → Path → Trail → Trail → Prop} {P : Trail → Prop} (hf : f.Restores)
    {ss : List Stop} {t u : Trail} (outside : ∀ w, w.active = t.active → P w)
    (places : ∀ s v p, .place s v p ∈ ss → ∀ w w', w.active = t.active → inner s v p w w' → P w')
    (h : StandsOn f inner ss t u) : P u := by
  induction h with
  | between ss t => exact outside t rfl
  | inside within => exact places _ _ _ List.mem_cons_self _ _ rfl within
  | @after s v p ss t t' u d filled _ ih =>
    have kept : t'.active = t.active := by
      rw [← hf s v p t, filled]
    apply ih
    · intro w hw
      exact outside w (hw.trans kept)
    · intro s' v' p' member w w' hw within
      exact places s' v' p' (List.mem_cons_of_mem _ member) w w' (hw.trans kept) within

/-! ## The depth that a walk keeps -/

/-- From one trail to another one, the greatest length of the active path is that of the moments
between them. -/
structure Trail.Measures (moments : Trail → Prop) (t t' : Trail) : Prop where
  le : t.deepest ≤ t'.deepest
  covers : ∀ u, moments u → u.active.length ≤ u.deepest ∧ u.deepest ≤ t'.deepest
  attained : t'.deepest = t.deepest ∨ ∃ u, moments u ∧ u.active.length = t'.deepest

theorem Trail.measures_self {t : Trail} (ht : t.active.length ≤ t.deepest) :
    t.Measures (· = t) t where
  le := Nat.le_refl _
  covers := by
    rintro u rfl
    exact ⟨ht, Nat.le_refl _⟩
  attained := .inl rfl

theorem Trail.Measures.trans {before after : Trail → Prop} {t t' t'' : Trail}
    (first : t.Measures before t') (rest : t'.Measures after t'') :
    t.Measures (fun u => before u ∨ after u) t'' where
  le := Nat.le_trans first.le rest.le
  covers := by
    rintro u (stands | stands)
    · obtain ⟨short, below⟩ := first.covers u stands
      exact ⟨short, Nat.le_trans below rest.le⟩
    · exact rest.covers u stands
  attained := by
    rcases rest.attained with same | ⟨u, stands, length⟩
    · rcases first.attained with same' | ⟨u, stands, length⟩
      · exact .inl (same.trans same')
      · exact .inr ⟨u, .inl stands, length.trans same.symm⟩
    · exact .inr ⟨u, .inr stands, length⟩

theorem Trail.Measures.congr {moments moments' : Trail → Prop} {t t' : Trail}
    (h : t.Measures moments t') (same : ∀ u, moments' u ↔ moments u) : t.Measures moments' t' := by
  rwa [funext fun u => propext (same u)]

namespace Stop

variable {f : Filler} {inner : Spot → Value → Path → Trail → Trail → Prop} {s : Spot} {v : Value}
  {p : Path} {ss : List Stop} {t t' u : Trail}

theorem standsOn_nil : StandsOn f inner [] t u ↔ u = t := by
  constructor
  · rintro ⟨⟩
    rfl
  · rintro rfl
    exact .between _ _

theorem standsOn_fault {e : Failure} : StandsOn f inner (.fault e :: ss) t u ↔ u = t := by
  constructor
  · rintro ⟨⟩
    rfl
  · rintro rfl
    exact .between _ _

theorem standsOn_place_error {e : Failure} (h : f s v p t = (.error e, t')) :
    StandsOn f inner (.place s v p :: ss) t u ↔ u = t ∨ inner s v p t u := by
  constructor
  · intro stands
    cases stands with
    | between => exact .inl rfl
    | inside within => exact .inr within
    | after ok =>
      rw [h] at ok
      cases ok
  · rintro (rfl | within)
    · exact .between _ _
    · exact .inside within

theorem standsOn_place_ok {d : Value} (h : f s v p t = (.ok d, t')) :
    StandsOn f inner (.place s v p :: ss) t u ↔
      u = t ∨ inner s v p t u ∨ StandsOn f inner ss t' u := by
  constructor
  · intro stands
    cases stands with
    | between => exact .inl rfl
    | inside within => exact .inr (.inl within)
    | after ok stands =>
      obtain ⟨-, rfl⟩ := Prod.mk.inj (h.symm.trans ok)
      exact .inr (.inr stands)
  · rintro (rfl | within | stands)
    · exact .between _ _
    · exact .inside within
    · exact .after h stands

theorem measures_pass (hf : f.Restores)
    (places : ∀ s v p (t : Trail), t.active.length ≤ t.deepest →
      t.Measures (inner s v p t) (f s v p t).2)
    (ss : List Stop) (ht : t.active.length ≤ t.deepest) :
    t.Measures (StandsOn f inner ss t) (pass f ss t).2 := by
  induction ss generalizing t with
  | nil => exact (Trail.measures_self ht).congr fun _ => standsOn_nil
  | cons stop ss ih =>
    cases stop with
    | fault e => exact (Trail.measures_self ht).congr fun _ => standsOn_fault
    | place s v p =>
      have kept := hf s v p t
      have first := (Trail.measures_self ht).trans (places s v p t ht)
      rw [pass]
      cases filled : f s v p t with
      | mk out t' =>
        rw [filled] at kept first
        cases out with
        | error e => exact first.congr fun _ => standsOn_place_error filled
        | ok d =>
          have kept : t'.active = t.active := kept
          have ht' : t'.active.length ≤ t'.deepest := by
            rw [kept]
            exact Nat.le_trans ht first.le
          refine (first.trans (ih ht')).congr fun u => ?_
          rw [standsOn_place_ok filled, or_assoc]

end Stop

/-- A visit that does not enter anything stands nowhere but where it begins. -/
theorem visit_measures_kept {g : Graph} {limit : Int} {room : Nat} {s : Spot} {v : Value}
    {p : Path} {t : Trail} (ht : t.active.length ≤ t.deepest)
    (kept : (visit g limit room s v p t).2 = t) (still : refusal? g s v p t = none → room = 0) :
    t.Measures (visitStandsOn g limit room s v p t) (visit g limit room s v p t).2 := by
  rw [kept]
  refine (Trail.measures_self ht).congr fun u => ?_
  unfold visitStandsOn
  refine ⟨?_, .inl⟩
  rintro (same | same | ⟨entered, within⟩)
  · exact same
  · exact same.trans kept
  · obtain rfl := still entered
    exact absurd within id

/-- The depth after a visit is the greatest length of the active path during it. -/
theorem visit_measures (g : Graph) (limit : Int) (room : Nat) (s : Spot) (v : Value) (p : Path)
    {t : Trail} (ht : t.active.length ≤ t.deepest) :
    t.Measures (visitStandsOn g limit room s v p t) (visit g limit room s v p t).2 := by
  induction room generalizing s v p t with
  | zero =>
    rcases visit_cases (rfl : visit g limit 0 s v p t = (_, _)) with
      ⟨e, -, -, kept⟩ | ⟨-, -, -, kept⟩ | ⟨-, n, _, hn, -⟩
    · exact visit_measures_kept ht kept fun _ => rfl
    · exact visit_measures_kept ht kept fun _ => rfl
    · exact absurd hn (Nat.zero_ne_add_one n)
  | succ room ih =>
    rcases visit_cases (rfl : visit g limit (room + 1) s v p t = (_, _)) with
      ⟨e, refused, -, kept⟩ | ⟨-, h, -⟩ | ⟨entered, n, t', hn, filled, popped⟩
    · refine visit_measures_kept ht kept fun entered => ?_
      cases refused.symm.trans entered
    · exact absurd h (Nat.succ_ne_zero room)
    · obtain rfl : room = n := Nat.succ.inj hn
      have passed := Outline.ending_fill (visit g limit room) (Outline.ofSpot g s v p) (t.push v)
      rw [filled] at passed
      have within := Stop.measures_pass (visit_restores g limit room)
        (fun s' x q w hw => ih s' x q hw) (Outline.ofSpot g s v p).stops
        (Nat.le_max_right t.deepest _ : (t.push v).active.length ≤ (t.push v).deepest)
      rw [← passed] at within
      have restored := visit_restores g limit (room + 1) s v p t
      rw [popped] at restored ⊢
      have deeper : t.deepest ≤ t'.deepest := Nat.le_trans (Nat.le_max_left _ _) within.le
      refine ⟨deeper, fun u stands => ?_, ?_⟩
      · rcases stands with rfl | rfl | ⟨-, stands⟩
        · exact ⟨ht, deeper⟩
        · rw [popped, restored]
          exact ⟨Nat.le_trans ht deeper, Nat.le_refl _⟩
        · exact within.covers u stands
      · show t'.deepest = t.deepest ∨ _
        rcases within.attained with same | ⟨u, stands, length⟩
        · -- nothing goes deeper than the value itself, which is entered first
          have same : t'.deepest = max t.deepest (t.active.length + 1) := same
          rcases Nat.le_total (t.active.length + 1) t.deepest with shallow | deep
          · exact .inl (same.trans (Nat.max_eq_left shallow))
          · refine .inr ⟨t.push v, .inr (.inr ⟨entered, .between _ _⟩), ?_⟩
            exact (same.trans (Nat.max_eq_right deep)).symm
        · exact .inr ⟨u, .inr (.inr ⟨entered, stands⟩), length⟩

namespace Encoding

variable {g : Graph} {limit : Int} {r : Resolver} {id : Text} {v : Value}

/-- The depth after an encoding is the greatest length of the active path during it. -/
theorem isGreatest_deepest (g : Graph) (limit : Int) (r : Resolver) (id : Text) (v : Value) :
    IsGreatest {n | ∃ u, StandsOn g limit r id v .start u ∧ u.active.length = n}
      (policyFrom g limit r id v .start).trail.deepest := by
  have measures : Trail.start.Measures (StandsOn g limit r id v .start)
      (policyFrom g limit r id v .start).trail := by
    have short : Trail.start.active.length ≤ Trail.start.deepest := Nat.le_refl _
    unfold StandsOn policyFrom
    by_cases policy : g.nodeClass? v = some .policy
    · cases known : policyType g v with
      | error e => simpa [policy, known, failed] using Trail.measures_self short
      | ok type =>
        cases resolved : (Resolution.both g r v).outcome with
        | error e => simpa [policy, known, rules, resolved] using Trail.measures_self short
        | ok both =>
          obtain ⟨a, b⟩ := both
          have passed := Outline.ending_fill (visitFrom g limit) (Outline.policy g v id type a b)
            .start
          have within := Stop.measures_pass (visitFrom_restores g limit)
            (fun s x p w hw => visit_measures g limit (limit.toNat - w.active.length) s x p hw)
            (Outline.policy g v id type a b).stops short
          rw [← passed] at within
          simp only [policy, if_true, rules, resolved]
          refine ⟨within.le, fun u stands => ?_, ?_⟩
          · rcases stands with rfl | ⟨_, _, _, -, same, same', stands⟩
            · exact ⟨short, within.le⟩
            · cases same
              cases same'
              exact within.covers u stands
          · rcases within.attained with same | ⟨u, stands, length⟩
            · exact .inl same
            · exact .inr ⟨u, .inr ⟨type, a, b, trivial, rfl, rfl, stands⟩, length⟩
    · simpa [policy, failed] using Trail.measures_self short
  refine ⟨?_, ?_⟩
  · rcases measures.attained with same | ⟨u, stands, length⟩
    · exact ⟨.start, .inl rfl, same.symm⟩
    · exact ⟨u, stands, length⟩
  · rintro n ⟨u, stands, rfl⟩
    obtain ⟨short, below⟩ := measures.covers u stands
    exact Nat.le_trans short below

end Encoding

end UsagePolicy
