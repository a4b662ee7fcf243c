import UsagePolicy.Encoding.Visitor
import UsagePolicy.Proofs.Encoding.Faithful
import UsagePolicy.Proofs.Encoding.Sequence

/-!
# Visitors that are called again

Walks do not look at the greatest length that the active path has had, and they take off the path
whatever they put there. So a visitor answers every call as a new one does, whatever its earlier
calls were and however they ended.
-/

namespace UsagePolicy

namespace Trail

/-- The trail, had the active path once been `n` long. -/
def deepened (t : Trail) (n : Nat) : Trail := ⟨t.active, max n t.deepest⟩

@[simp] theorem active_deepened (t : Trail) (n : Nat) : (t.deepened n).active = t.active := rfl

@[simp] theorem pop_deepened (t : Trail) (n : Nat) : (t.deepened n).pop = t.pop.deepened n := rfl

@[simp] theorem holds_deepened (t : Trail) (n : Nat) (v : Value) :
    (t.deepened n).holds v = t.holds v := rfl

@[simp] theorem push_deepened (t : Trail) (n : Nat) (v : Value) :
    (t.deepened n).push v = (t.push v).deepened n := by
  simp only [push, deepened, Trail.mk.injEq, true_and]
  omega

theorem eq_deepened_start {t : Trail} (h : t.active = []) : t = start.deepened t.deepest := by
  obtain ⟨active, deepest⟩ := t
  subst h
  simp [deepened, start]

end Trail

/-! ## Walks and the depth before them -/

/-- A walk that does not look at the greatest length that the active path has had. -/
def Walk.Unaware {α : Type} (w : Walk α) : Prop :=
  ∀ t n, w (t.deepened n) = ((w t).1, (w t).2.deepened n)

/-- A filler whose walks do not look at the greatest length that the active path has had. -/
def Filler.Unaware (f : Filler) : Prop := ∀ s v p, Walk.Unaware (f s v p)

theorem Walk.sequential_unaware : Walk.Sequential fun _ w _ => w.Unaware where
  result _ := fun _ _ => rfl
  failure _ := fun _ _ => rfl
  andThen {_ _ w _ _ _} first rest := by
    intro t n
    unfold Walk.andThen
    rw [first t n]
    cases w t with
    | mk out u =>
      cases out with
      | error e => rfl
      | ok a => exact rest a u n

theorem Outline.fill_unaware {f : Filler} (hf : f.Unaware) (o : Outline) :
    Walk.Unaware (o.fill f) :=
  o.fill_related f f Walk.sequential_unaware hf

/-- A leaf at the front of members is an entry at the front of what they are filled as. -/
theorem Outline.fill_leaf_cons (f : Filler) (k : Text) (v : Value) (ms : List (Text × Outline))
    (t : Trail) : (Outline.members ((k, .leaf v) :: ms)).fill f t =
      ((fillMembers f ms t).1.map fun es => .dict ((k, v) :: es), (fillMembers f ms t).2) := by
  rw [fill, fillMembers, fill]
  dsimp only
  cases fillMembers f ms t with
  | mk out u => cases out <;> rfl

theorem refusal?_deepened (g : Graph) (s : Spot) (v : Value) (p : Path) (t : Trail) (n : Nat) :
    refusal? g s v p (t.deepened n) = refusal? g s v p t := rfl

theorem visit_unaware (g : Graph) (limit : Int) (room : Nat) :
    Filler.Unaware (visit g limit room) := by
  induction room with
  | zero =>
    intro s v p t n
    unfold visit
    rw [refusal?_deepened]
    cases refusal? g s v p t <;> rfl
  | succ room ih =>
    intro s v p t n
    unfold visit
    rw [refusal?_deepened]
    cases refusal? g s v p t with
    | some e => rfl
    | none =>
      dsimp only
      rw [Trail.push_deepened, Outline.fill_unaware ih]
      rfl

theorem visitFrom_unaware (g : Graph) (limit : Int) : Filler.Unaware (visitFrom g limit) := by
  intro s v p t n
  exact visit_unaware g limit (limit.toNat - t.active.length) s v p t n

/-! ## The bound of the depth -/

/-- A filler that enters at most `room` values inside one another. -/
def Filler.Within (room : Nat) (f : Filler) : Prop :=
  ∀ s v p t, (f s v p t).2.deepest ≤ max t.deepest (t.active.length + room)

theorem Stop.pass_within {f : Filler} {room : Nat} (hf : f.Restores) (within : f.Within room)
    (ss : List Stop) (t : Trail) :
    (pass f ss t).2.deepest ≤ max t.deepest (t.active.length + room) := by
  induction ss generalizing t with
  | nil => exact Nat.le_max_left _ _
  | cons s ss ih =>
    cases s with
    | fault e => exact Nat.le_max_left _ _
    | place s v p =>
      have kept := hf s v p t
      have first := within s v p t
      rw [pass]
      cases h : f s v p t with
      | mk out u =>
        rw [h] at kept first
        cases out with
        | error e => exact first
        | ok d =>
          have rest := ih u
          have kept : u.active = t.active := kept
          rw [kept] at rest
          have first : u.deepest ≤ max t.deepest (t.active.length + room) := first
          show (pass f ss u).2.deepest ≤ _
          omega

theorem Outline.fill_within {f : Filler} {room : Nat} (hf : f.Restores) (within : f.Within room)
    (o : Outline) (t : Trail) :
    (o.fill f t).2.deepest ≤ max t.deepest (t.active.length + room) := by
  have bounded := Stop.pass_within hf within o.stops t
  rwa [← ending_fill] at bounded

theorem visit_within (g : Graph) (limit : Int) (room : Nat) :
    Filler.Within room (visit g limit room) := by
  induction room with
  | zero =>
    intro s v p t
    rcases visit_cases (rfl : visit g limit 0 s v p t = (_, _)) with
      ⟨e, -, -, ht⟩ | ⟨-, -, -, ht⟩ | ⟨-, n, _, hn, -⟩
    · rw [ht]
      exact Nat.le_max_left _ _
    · rw [ht]
      exact Nat.le_max_left _ _
    · exact absurd hn (Nat.zero_ne_add_one n)
  | succ room ih =>
    intro s v p t
    rcases visit_cases (rfl : visit g limit (room + 1) s v p t = (_, _)) with
      ⟨e, -, -, ht⟩ | ⟨-, -, -, ht⟩ | ⟨-, n, u, hn, filled, ht⟩
    · rw [ht]
      exact Nat.le_max_left _ _
    · rw [ht]
      exact Nat.le_max_left _ _
    · obtain rfl : room = n := Nat.succ.inj hn
      have bounded := Outline.fill_within (visit_restores g limit room) ih
        (Outline.ofSpot g s v p) (t.push v)
      rw [filled] at bounded
      have length : (t.push v).active.length = t.active.length + 1 := rfl
      have pushed : (t.push v).deepest = max t.deepest (t.active.length + 1) := rfl
      rw [ht]
      show u.deepest ≤ _
      have bounded : u.deepest ≤ max (t.push v).deepest ((t.push v).active.length + room) := bounded
      omega

/-! ## Encodings of policies -/

/-- What an encoding comes to: its document apart from the identifier or its failure, and how deep
the walk has gone. -/
def Encoding.result (run : Encoding) : Except Failure Value × Nat :=
  (run.outcome.map fun d => d.document.withoutId, run.trail.deepest)

namespace Graph

open Outline (fill)

/-- An encoding fails before its walk, whatever the trail and the identifier, or it is the walk
through the outline of a policy whose type and participants depend on neither. -/
theorem policyFrom_course (g : Graph) (limit : Int) (r : Resolver) (v : Value) :
    (∃ asked omitted e, ∀ id t,
      Encoding.policyFrom g limit r id v t = ⟨asked, omitted, .error e, t⟩) ∨
    ∃ asked omitted type a b, ∀ id t, Encoding.policyFrom g limit r id v t =
      let walked := (Outline.policy g v id type a b).fill (visitFrom g limit) t
      ⟨asked, omitted, walked.1.map fun d => ⟨d, type, Encoding.ruleCount g v⟩, walked.2⟩ := by
  unfold Encoding.policyFrom
  by_cases hv : g.nodeClass? v = some .policy
  · simp only [if_pos hv]
    cases Encoding.policyType g v with
    | error e => exact .inl ⟨[], [], e, fun _ _ => rfl⟩
    | ok type =>
      unfold Encoding.rules
      cases hr : (Resolution.both g r v).outcome with
      | error e =>
        refine .inl ⟨(Resolution.both g r v).asked, (Resolution.both g r v).omitted, e, ?_⟩
        intro id t
        simp only [hr]
      | ok both =>
        refine .inr ⟨(Resolution.both g r v).asked, (Resolution.both g r v).omitted, type, both.1,
          both.2, ?_⟩
        intro id t
        simp only [hr]
  · simp only [if_neg hv]
    exact .inl ⟨[], [], _, fun _ _ => rfl⟩

theorem policyFrom_deepened (g : Graph) (limit : Int) (r : Resolver) (id : Text) (v : Value)
    (t : Trail) (n : Nat) :
    let run := Encoding.policyFrom g limit r id v t
    Encoding.policyFrom g limit r id v (t.deepened n) =
      { run with trail := run.trail.deepened n } := by
  rcases policyFrom_course g limit r v with ⟨asked, omitted, e, same⟩ | ⟨_, _, type, a, b, same⟩
  · simp only [same]
  · simp only [same]
    rw [Outline.fill_unaware (visitFrom_unaware g limit)]

theorem policyFrom_active (g : Graph) (limit : Int) (r : Resolver) (id : Text) (v : Value)
    (t : Trail) : (Encoding.policyFrom g limit r id v t).trail.active = t.active := by
  rcases policyFrom_course g limit r v with ⟨asked, omitted, e, same⟩ | ⟨_, _, type, a, b, same⟩
  · simp only [same]
  · simp only [same]
    exact Outline.fill_active (visitFrom_restores g limit) _ t

/-- A policy has one document apart from its identifier, and its rules are gone through alike. -/
theorem policyFrom_identified (g : Graph) (limit : Int) (r : Resolver) (id id' : Text) (v : Value)
    (t : Trail) :
    let run := Encoding.policyFrom g limit r id v t
    let run' := Encoding.policyFrom g limit r id' v t
    run.outcome.map (fun d => d.document.withoutId) =
      run'.outcome.map (fun d => d.document.withoutId) ∧ run.trail = run'.trail := by
  rcases policyFrom_course g limit r v with ⟨asked, omitted, e, same⟩ | ⟨_, _, type, a, b, same⟩
  · simp only [same, Except.map, and_self]
  · -- the identifier is the first entry, and the others are filled alike
    obtain ⟨ms, members⟩ : ∃ ms, ∀ id, Outline.policy g v id type a b =
        .members ((Term.id, .leaf (.text id)) :: ms) := ⟨_, fun _ => rfl⟩
    simp only [same, members, Outline.fill_leaf_cons]
    cases (Outline.fillMembers (visitFrom g limit) ms t).1 with
    | error e => simp [Except.map]
    | ok es => simp [Except.map, Value.withoutId]

theorem result_policyFrom_identified (g : Graph) (limit : Int) (r : Resolver) (id id' : Text)
    (v : Value) (t : Trail) :
    (Encoding.policyFrom g limit r id v t).result =
      (Encoding.policyFrom g limit r id' v t).result := by
  obtain ⟨documents, trails⟩ := policyFrom_identified g limit r id id' v t
  rw [Encoding.result, documents, trails]
  rfl

end Graph

theorem visitFrom_within (g : Graph) (limit : Int) :
    Filler.Within limit.toNat (visitFrom g limit) := by
  intro s v p t
  have bounded := visit_within g limit (limit.toNat - t.active.length) s v p t
  show (visit g limit (limit.toNat - t.active.length) s v p t).2.deepest ≤ _
  omega

namespace Call

/-- The call with another identifier for the document. -/
def identified (id : Text) : Call → Call
  | .policy _ v => .policy id v
  | c => c

end Call

namespace Visitor

/-! ## Single calls -/

theorem walk_unaware (g : Graph) (x : Visitor) (c : Call) : Walk.Unaware (x.walk g c) := by
  cases c with
  | rule kind v p => exact visitFrom_unaware g x.limit (.rule kind) v p
  | constraint v p => exact visitFrom_unaware g x.limit .constraint v p
  | expression v p => exact Outline.fill_unaware (visitFrom_unaware g x.limit) _
  | policy id v =>
    intro t n
    have deepened := Graph.policyFrom_deepened g x.limit x.resolver id v t n
    simp only [walk, deepened]

/-- A call leaves the active path as it was. -/
theorem walk_active (g : Graph) (x : Visitor) (c : Call) (t : Trail) :
    (x.walk g c t).2.active = t.active := by
  cases c with
  | rule kind v p => exact visitFrom_restores g x.limit (.rule kind) v p t
  | constraint v p => exact visitFrom_restores g x.limit .constraint v p t
  | expression v p => exact Outline.fill_active (visitFrom_restores g x.limit) _ t
  | policy id v => exact Graph.policyFrom_active g x.limit x.resolver id v t

/-- A first call goes as deep as the limit allows at most. -/
theorem walk_start_within (g : Graph) (x : Visitor) (c : Call) :
    (x.walk g c .start).2.deepest ≤ x.limit.toNat := by
  have within := visitFrom_within g x.limit
  have bound : ∀ {n : Nat},
      n ≤ max Trail.start.deepest (Trail.start.active.length + x.limit.toNat) →
      n ≤ x.limit.toNat := by
    intro n h
    simpa [Trail.start] using h
  cases c with
  | rule kind v p => exact bound (within (.rule kind) v p .start)
  | constraint v p => exact bound (within .constraint v p .start)
  | expression v p =>
    exact bound (Outline.fill_within (visitFrom_restores g x.limit) within _ .start)
  | policy id v =>
    show (Encoding.policyFrom g x.limit x.resolver id v .start).trail.deepest ≤ _
    rcases Graph.policyFrom_course g x.limit x.resolver v with
      ⟨_, _, e, same⟩ | ⟨_, _, type, a, b, same⟩
    · rw [same]
      exact Nat.zero_le _
    · rw [same]
      exact bound (Outline.fill_within (visitFrom_restores g x.limit) within _ .start)

/-- The identifier of a document is in the document only. -/
theorem walk_identified (g : Graph) (x : Visitor) (id : Text) (c : Call) (t : Trail) :
    (x.walk g c t).1.map Value.withoutId = (x.walk g (c.identified id) t).1.map Value.withoutId ∧
      (x.walk g c t).2 = (x.walk g (c.identified id) t).2 := by
  cases c with
  | policy id' v =>
    obtain ⟨documents, trails⟩ := Graph.policyFrom_identified g x.limit x.resolver id' id v t
    refine ⟨?_, trails⟩
    simp only [walk, Call.identified]
    cases h : (Encoding.policyFrom g x.limit x.resolver id' v t).outcome <;>
      cases h' : (Encoding.policyFrom g x.limit x.resolver id v t).outcome <;>
      simp_all [Except.map]
  | _ => exact ⟨rfl, rfl⟩

/-! ## Calls one after the other -/

/-- A visitor between calls: nothing is on its active path, and no walk has exceeded the limit. -/
structure Idle (limit : Int) (r : Resolver) (x : Visitor) : Prop where
  limit_eq : x.limit = limit
  resolver_eq : x.resolver = r
  active : x.trail.active = []
  bounded : x.trail.deepest ≤ limit.toNat

variable {limit : Int} {r : Resolver} {x : Visitor}

theorem idle_fresh (limit : Int) (r : Resolver) : Idle limit r (fresh limit r) :=
  ⟨rfl, rfl, rfl, Nat.zero_le _⟩

/-- A call of a visitor on which nothing is active is a call of a new one, but for the depth of
earlier walks. -/
theorem Idle.call (h : Idle limit r x) (g : Graph) (c : Call) :
    let afresh := (fresh limit r).call g c
    x.call g c = (afresh.1, { afresh.2 with
      trail := afresh.2.trail.deepened x.trail.deepest }) := by
  obtain ⟨limit', r', t⟩ := x
  obtain ⟨rfl, rfl, active, -⟩ := h
  have walked := walk_unaware g ⟨limit', r', t⟩ c .start t.deepest
  rw [← Trail.eq_deepened_start active] at walked
  simp only [Visitor.call, walked]
  rfl

/-- A visitor is idle again after a call. -/
theorem Idle.step (h : Idle limit r x) (g : Graph) (c : Call) : Idle limit r (x.call g c).2 := by
  have active := walk_active g (fresh limit r) c .start
  have within := walk_start_within g (fresh limit r) c
  rw [h.call]
  refine ⟨rfl, rfl, active, ?_⟩
  have before := h.bounded
  show max x.trail.deepest ((fresh limit r).walk g c .start).2.deepest ≤ limit.toNat
  exact Nat.max_le.mpr ⟨before, within⟩

theorem Idle.run (h : Idle limit r x) (calls : List (Graph × Call)) :
    Idle limit r (x.after calls) := by
  induction calls generalizing x with
  | nil => exact h
  | cons c calls ih => exact ih (h.step c.1 c.2)

/-- A call of a visitor comes out as that of a new one: the active path is as before, the answer is
the same, and that of a new one with another identifier is the same apart from it, and the greatest
depth is that of the two walks, which keeps to the limit. -/
structure ComesOutAfresh (g : Graph) (x : Visitor) (c : Call) : Prop where
  active : (x.call g c).2.trail.active = x.trail.active
  answer : (x.call g c).1 = ((fresh x.limit x.resolver).call g c).1
  identified : ∀ id, (x.call g c).1.map Value.withoutId =
    ((fresh x.limit x.resolver).call g (c.identified id)).1.map Value.withoutId
  deepest : ∀ id, (x.call g c).2.trail.deepest = max x.trail.deepest
    ((fresh x.limit x.resolver).call g (c.identified id)).2.trail.deepest
  bounded : ((x.call g c).2.trail.deepest : Int) ≤ max x.limit 0

/-- After any calls nothing is on the active path of a visitor, and its next call comes out as that
of a new visitor. -/
theorem after_comesOutAfresh (limit : Int) (r : Resolver) (earlier : List (Graph × Call))
    (g : Graph) (c : Call) :
    ((fresh limit r).after earlier).trail.active = [] ∧
      ((fresh limit r).after earlier).ComesOutAfresh g c := by
  have idle := (idle_fresh limit r).run earlier
  generalize (fresh limit r).after earlier = x at idle ⊢
  have called := idle.call g c
  have after := idle.step g c
  obtain ⟨rfl, rfl, active, -⟩ := idle
  refine ⟨active, ?_, ?_, fun id => ?_, fun id => ?_, ?_⟩
  · rw [after.active, active]
  · rw [called]
  · rw [called]
    exact (walk_identified g (fresh x.limit x.resolver) id c .start).1
  · have alike := (walk_identified g (fresh x.limit x.resolver) id c .start).2
    rw [called]
    show max _ ((fresh x.limit x.resolver).walk g c .start).2.deepest =
      max _ ((fresh x.limit x.resolver).walk g (c.identified id) .start).2.deepest
    rw [alike]
  · have bounded := after.bounded
    omega

end Visitor

end UsagePolicy
