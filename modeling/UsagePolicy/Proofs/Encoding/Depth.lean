import UsagePolicy.Proofs.Encoding.Visit

/-!
# Depth

The depth of a path is the number of rules and constraints that it enters. `Graph.visit_deepens`
relates the greatest length of the active path, which a walk keeps, to the depths of the paths below
a value that is visited: it is the depth of one of them, and after a success of the deepest one.
-/

namespace UsagePolicy

/-- How many rules and constraints a path enters. -/
def PathStep.depth (ss : List PathStep) : Nat := ss.countP PathStep.enters

@[simp] theorem PathStep.depth_nil : PathStep.depth [] = 0 := rfl

theorem PathStep.depth_cons (s : PathStep) (ss : List PathStep) :
    PathStep.depth (s :: ss) = PathStep.depth ss + if s.enters then 1 else 0 :=
  List.countP_cons

theorem PathStep.depth_append (ss ts : List PathStep) :
    PathStep.depth (ss ++ ts) = PathStep.depth ss + PathStep.depth ts :=
  List.countP_append

namespace Graph

open Outline Stop PathStep

variable {g : Graph} {f : Filler} {room : Nat} {s : PathStep} {v x : Value} {p : Path}

/-- What a step of a walk does to the greatest length of the active path, if it looks at the values
that the given branches lead to and may enter `room` more of them inside one another. -/
structure Deepens (g : Graph) (room : Nat) (bs : List Branch) (t : Trail)
    (r : Except Failure Unit × Trail) : Prop where
  le : t.deepest ≤ r.2.deepest
  bounded : r.2.deepest ≤ max t.deepest (t.active.length + room)
  attained : r.2.deepest = t.deepest ∨ ∃ s x ss y, .ok (s, x) ∈ bs ∧ g.reach? x ss = some y ∧
    r.2.deepest = t.active.length + depth (s :: ss)
  covers : r.1 = .ok () → ∀ s x ss y, .ok (s, x) ∈ bs → g.reach? x ss = some y →
    t.active.length + depth (s :: ss) ≤ r.2.deepest

theorem Deepens.failed (bs : List Branch) (t : Trail) (e : Failure) :
    g.Deepens room bs t (.error e, t) :=
  ⟨Nat.le_refl _, Nat.le_max_left _ _, .inl rfl, by simp⟩

/-- A value that is not entered and that no further step can be taken from. -/
theorem Deepens.ended {t : Trail} (ht : t.active.length ≤ t.deepest) (hs : s.enters = false)
    (hx : g.branches x = []) : g.Deepens room [.ok (s, x)] t (.ok (), t) where
  le := Nat.le_refl _
  bounded := Nat.le_max_left _ _
  attained := .inl rfl
  covers := by
    intro _ s' x' ss y member hy
    obtain ⟨rfl, rfl⟩ : s' = s ∧ x' = x := by simpa using member
    cases ss with
    | nil => simpa [depth_cons, hs] using ht
    | cons s'' ss =>
      obtain ⟨z, hz, -⟩ := reach?_cons_eq_some.mp hy
      simp [← mem_branches, hx] at hz

theorem deepens_append {as bs : List Branch} {t u : Trail} {r : Except Failure Unit × Trail}
    (kept : u.active = t.active) (first : g.Deepens room as t (.ok (), u))
    (rest : g.Deepens room bs u r) : g.Deepens room (as ++ bs) t r where
  le := Nat.le_trans first.le rest.le
  bounded := by
    have deepest : u.deepest ≤ max t.deepest (t.active.length + room) := first.bounded
    have deepest' := rest.bounded
    rw [kept] at deepest'
    omega
  attained := by
    rcases rest.attained with same | ⟨s, x, ss, y, member, hy, deepest⟩
    · rcases first.attained with same' | ⟨s, x, ss, y, member, hy, deepest⟩
      · exact .inl (same.trans same')
      · exact .inr ⟨s, x, ss, y, by simp [member], hy, same.trans deepest⟩
    · exact .inr ⟨s, x, ss, y, by simp [member], hy, kept ▸ deepest⟩
  covers := by
    intro ok s x ss y member hy
    rcases List.mem_append.mp member with member | member
    · exact Nat.le_trans (first.covers rfl s x ss y member hy) rest.le
    · exact kept ▸ rest.covers ok s x ss y member hy

/-- The way through branches deepens the active path as the ways through each of them do. -/
theorem deepens_stopsOf (hf : f.Restores) (bs : List Branch) {t : Trail}
    (ht : t.active.length ≤ t.deepest)
    (each : ∀ s x, .ok (s, x) ∈ bs → ∀ u : Trail, u.active = t.active →
      u.active.length ≤ u.deepest →
      g.Deepens room [.ok (s, x)] u (pass f (g.stopsAt p (.ok (s, x))) u)) :
    g.Deepens room bs t (pass f (g.stopsOf p bs) t) := by
  induction bs generalizing t with
  | nil => exact ⟨Nat.le_refl _, Nat.le_max_left _ _, .inl rfl, by simp⟩
  | cons b bs ih =>
    rw [stopsOf, List.flatMap_cons, pass_append]
    cases b with
    | error e => exact .failed _ t e
    | ok q =>
      obtain ⟨s, x⟩ := q
      have first := each s x (by simp) t rfl ht
      have kept := pass_active hf (g.stopsAt p (.ok (s, x))) t
      cases hb : pass f (g.stopsAt p (.ok (s, x))) t with
      | mk o u =>
        rw [hb] at first kept
        cases o with
        | error e =>
          refine ⟨first.le, first.bounded, ?_, by simp⟩
          rcases first.attained with same | ⟨s', x', ss, y, member, hy, deepest⟩
          · exact .inl same
          · exact .inr ⟨s', x', ss, y, by simp_all, hy, deepest⟩
        | ok _ =>
          show g.Deepens room ([.ok (s, x)] ++ bs) t _
          refine deepens_append kept first (ih ?_ ?_)
          · have kept : u.active = t.active := kept
            rw [kept]
            exact Nat.le_trans ht first.le
          · intro s' x' member w hw
            exact each s' x' (by simp [member]) w (hw.trans kept)

/-! ## Single branches -/

theorem deepens_expression {t : Trail} (ht : t.active.length ≤ t.deepest)
    (hs : s.enters = false) :
    g.Deepens room [.ok (s, x)] t (pass f (expression g x p).stops t) := by
  unfold expression
  split
  · next hc =>
    simp only [stops, memberStops, List.append_nil]
    rcases stops_literal g x with hl | ⟨e, hl, -⟩
    · rw [hl]
      exact .ended ht hs (by simp [branches, hc])
    · rw [hl]
      exact .failed _ t e
  · exact .failed _ t _

theorem deepens_operator {t : Trail} (ht : t.active.length ≤ t.deepest)
    (hs : s.enters = false) :
    g.Deepens room [.ok (s, x)] t (pass f (Outline.operator g x p).stops t) := by
  unfold Outline.operator
  split
  · exact .ended ht hs (branches_of_not_node (by simp))
  · split <;> exact .failed _ t _

/-- Steps below a value, as steps below what leads to it without entering it. -/
theorem Deepens.through {t : Trail} {r : Except Failure Unit × Trail}
    (ht : t.active.length ≤ t.deepest) (hs : s.enters = false)
    (h : g.Deepens room (g.branches x) t r) : g.Deepens room [.ok (s, x)] t r where
  le := h.le
  bounded := h.bounded
  attained := by
    rcases h.attained with same | ⟨s', x', ss, y, member, hy, deepest⟩
    · exact .inl same
    · refine .inr ⟨s, x, s' :: ss, y, by simp, ?_, ?_⟩
      · exact reach?_cons_eq_some.mpr ⟨x', mem_branches.mp member, hy⟩
      · simpa [depth_cons s, hs] using deepest
  covers := by
    intro ok s' x' ss y member hy
    obtain ⟨rfl, rfl⟩ : s' = s ∧ x' = x := by simpa using member
    cases ss with
    | nil => simpa [depth_cons, hs] using Nat.le_trans ht h.le
    | cons s'' ss =>
      obtain ⟨z, hz, hy⟩ := reach?_cons_eq_some.mp hy
      simpa [depth_cons s', hs] using h.covers ok s'' z ss y (mem_branches.mpr hz) hy

/-- Steps below a value that is entered, as steps below what leads to it. -/
theorem Deepens.entered {t : Trail} {out : Except Failure Unit} {u : Trail}
    (hs : s.enters = true) (h : g.Deepens room (g.branches v) (t.push v) (out, u)) :
    g.Deepens (room + 1) [.ok (s, v)] t (out, u.pop) := by
  have length : (t.push v).active.length = t.active.length + 1 := rfl
  have pushed : (t.push v).deepest = max t.deepest (t.active.length + 1) := rfl
  have le : max t.deepest (t.active.length + 1) ≤ u.deepest := h.le
  have bounded : u.deepest ≤ max (t.push v).deepest ((t.push v).active.length + room) := h.bounded
  refine ⟨?_, ?_, ?_, ?_⟩
  · exact Nat.le_trans (Nat.le_max_left _ _) le
  · show u.deepest ≤ max t.deepest (t.active.length + (room + 1))
    omega
  · show u.deepest = t.deepest ∨ _
    rcases h.attained with same | ⟨s', x, ss, y, member, hy, deepest⟩
    · have same : u.deepest = max t.deepest (t.active.length + 1) := same
      rcases Nat.le_total (t.active.length + 1) t.deepest with shallow | deep
      · exact .inl (same.trans (Nat.max_eq_left shallow))
      · refine .inr ⟨s, v, [], v, by simp, rfl, ?_⟩
        show u.deepest = t.active.length + depth [s]
        rw [depth_cons, if_pos hs]
        exact same.trans (Nat.max_eq_right deep)
    · refine .inr ⟨s, v, s' :: ss, y, by simp, ?_, ?_⟩
      · exact reach?_cons_eq_some.mpr ⟨x, mem_branches.mp member, hy⟩
      · have deepest : u.deepest = t.active.length + 1 + depth (s' :: ss) := deepest
        rw [depth_cons s, if_pos hs]
        show u.deepest = _
        omega
  · intro ok s' x' ss y member hy
    show _ ≤ u.deepest
    obtain ⟨rfl, rfl⟩ : s' = s ∧ x' = v := by simpa using member
    rw [depth_cons s', if_pos hs]
    cases ss with
    | nil =>
      rw [depth_nil]
      omega
    | cons s'' ss =>
      obtain ⟨z, hz, hy⟩ := reach?_cons_eq_some.mp hy
      have covered : t.active.length + 1 + depth (s'' :: ss) ≤ u.deepest :=
        h.covers ok s'' z ss y (mem_branches.mpr hz) hy
      omega

/-- The places that a filler fills deepen the active path as visits with some room do. -/
def DeepensPlaces (g : Graph) (room : Nat) (f : Filler) (active : List (Option Ref)) : Prop :=
  ∀ s spot x p (u : Trail), s.spot? = some spot → u.active = active →
    u.active.length ≤ u.deepest → g.Deepens room [.ok (s, x)] u (Walk.ending (f spot x p u))

theorem deepens_action (hf : f.Restores) {t : Trail} (ht : t.active.length ≤ t.deepest)
    (places : g.DeepensPlaces room f t.active) (hx : x ≠ .absent) :
    g.Deepens room [.ok (.action, x)] t (pass f (Outline.action g x p).stops t) := by
  by_cases hc : g.nodeClass? x = some .action
  · rw [stops_action p hc]
    refine .through ht rfl (deepens_stopsOf hf _ ht ?_)
    intro s' y hy u hu hu'
    rw [mem_branches] at hy
    have refinement : s' = .refinement := by
      cases s' <;> simp [follow?, opens, hc] at hy ⊢
    subst refinement
    rw [stopsAt_of_spot rfl, pass_place]
    exact places .refinement .constraint y _ u rfl hu hu'
  · obtain ⟨e, ended, -⟩ := pass_action_of_not f t hx hc
    rw [ended]
    exact .failed _ t e

theorem deepens_stopsAt (hf : f.Restores) {t : Trail} (ht : t.active.length ≤ t.deepest)
    (places : g.DeepensPlaces room f t.active) (hx : g.follow? v s = some x) (hs : s ≠ .type) :
    g.Deepens room [.ok (s, x)] t (pass f (g.stopsAt p (.ok (s, x))) t) := by
  cases hspot : s.spot? with
  | some spot =>
    rw [stopsAt_of_spot hspot, pass_place]
    exact places s spot x _ t hspot rfl ht
  | none =>
    cases s <;> simp [PathStep.spot?] at hspot
    case type => exact absurd rfl hs
    case assignee => simp [follow?, opens] at hx
    case assigner => simp [follow?, opens] at hx
    case leftOperand => exact deepens_expression ht rfl
    case rightOperand => exact deepens_expression ht rfl
    case operator => exact deepens_operator ht rfl
    case action => exact deepens_action hf ht places (follow?_of_single rfl |>.mp hx |>.2.2 rfl)

/-- What a visit does to the greatest length of the active path. -/
theorem visit_deepens (g : Graph) (limit : Int) (room : Nat) (active : List (Option Ref)) :
    g.DeepensPlaces room (visit g limit room) active := by
  -- by the room below the limit, for all active paths: a visit makes its own one longer
  induction room generalizing active with
  | zero =>
    intro s spot v p t hs _ ht
    rcases visit_cases (rfl : visit g limit 0 spot v p t = (_, _)) with
      ⟨e, -, out, kept⟩ | ⟨-, -, out, kept⟩ | ⟨-, m, _, hm, -⟩
    · rw [Walk.ending, out, kept]
      exact .failed _ t e
    · rw [Walk.ending, out, kept]
      exact .failed _ t _
    · omega
  | succ room ih =>
    intro s spot v p t hs _ ht
    rcases visit_cases (rfl : visit g limit (room + 1) spot v p t = (_, _)) with
      ⟨e, -, out, kept⟩ | ⟨-, h, -⟩ | ⟨entered, m, t', hm, filled, popped⟩
    · rw [Walk.ending, out, kept]
      exact .failed _ t e
    · omega
    · obtain rfl : room = m := by omega
      have passed := Outline.ending_fill (visit g limit room) (ofSpot g spot v p) (t.push v)
      rw [filled] at passed
      rw [Walk.ending, popped]
      refine .entered (by simp [PathStep.enters, hs]) ?_
      show g.Deepens room (g.branches v) (t.push v) (Walk.ending (_, t'))
      rw [passed]
      by_cases admitted : g.AdmitsAt v spot
      · rw [stops_ofSpot admitted]
        refine deepens_stopsOf (visit_restores g limit room) _ ?_ ?_
        · exact Nat.le_max_right _ _
        · intro s' x hx u hu hu'
          rw [mem_branches] at hx
          exact deepens_stopsAt (visit_restores g limit room) hu' (ih _) hx
            (ne_type_of_admitsAt admitted hx)
      · obtain ⟨w, fault⟩ := stops_ofSpot_of_not (suits_of_refusal? entered) admitted p
        rw [fault]
        exact .failed _ _ _

end Graph

end UsagePolicy
