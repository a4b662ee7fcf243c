import UsagePolicy.Proofs.Encoding.Shaped

/-!
# Rejected values

An encoding that fails does so at the first faulty position. What fails there is known from the
position alone: a value of the wrong kind is rejected, and for that its text is needed, while a
value that is cyclic or too deep is named by its path only. In graphs of the shape that encodings
look into there are no other failures.
-/

namespace UsagePolicy

namespace Graph

open Outline Stop

/-- The value where a step leads, below the given rules and constraints, is rejected, and the last
value is the one that is printed for it. Rules are rejected for their class before anything else,
constraints only if they are neither cyclic nor too deep; of a combination with an unknown
combinator the combinator is printed. -/
inductive Rejects (g : Graph) (limit : Nat) (up : List Ref) (s : PathStep) (v : Value) :
    Value → Prop
  | rule {kind : NodeClass} : s.spot? = some (.rule kind) → ¬ g.AdmitsAt v (.rule kind) →
    Rejects g limit up s v v
  | constraint : s.spot? = some .constraint → (∀ r ∈ up, v ≠ .node r) → up.length < limit →
    g.nodeClass? v ≠ some .atomicConstraint → g.nodeClass? v ≠ some .multiplicityConstraint →
    Rejects g limit up s v v
  | combinator {k : Value} : s.spot? = some .constraint → (∀ r ∈ up, v ≠ .node r) →
    up.length < limit → g.nodeClass? v = some .multiplicityConstraint →
    g.fieldOf v .kind = .ok k → kind? k = none → Rejects g limit up s v k
  | other : s.spot? = none → ¬ g.Admits s v → Rejects g limit up s v v

/-- The failure of a rejection. -/
def rejection (g : Graph) (s : PathStep) (w : Value) (p : Path) : Failure :=
  match g.shown w with
  | .ok t => .encoding (if s = .operator then .unsupportedOperator p t
      else .unsupported p (g.typeName w) t)
  | .error flaw => .unprintable flaw .shown

/-- The value where a step leads, below the given rules and constraints, is faulty, and an encoding
that comes there fails so. -/
def FailsSo (g : Graph) (limit : Nat) (up : List Ref) (s : PathStep) (v : Value) (p : Path)
    (e : Failure) : Prop :=
  g.Faulty limit up s v ∧ ((∃ w, g.Rejects limit up s v w ∧ e = g.rejection s w p) ∨
    (∀ w, ¬ g.Rejects limit up s v w) ∧
      ∃ e', e = .encoding e' ∧ e'.errorClass = .depthExceeded)

/-- A failure is that of the first faulty position below the value where a step leads. -/
def FirstFailure (g : Graph) (limit : Nat) (up : List Ref) (s : PathStep) (v : Value) (p : Path)
    (e : Failure) : Prop :=
  ∃ ss x, g.reach? v ss = some x ∧
    g.FailsSo limit (g.above up v ss) (ss.getLastD s) x (p.append ss) e ∧
    ∀ ss', Path.Earlier ss' ss → ¬ g.FaultBelow limit up s v ss'

variable {g : Graph} {n : Nat} {up : List Ref} {s : PathStep} {v w x : Value} {p : Path}
  {e : Failure} {spot : Spot}

/-! ## Rejections -/

theorem rejection_eq_unsupported (hs : s ≠ .operator) : g.rejection s w p = g.unsupported w p := by
  unfold rejection unsupported
  cases g.shown w <;> simp [hs]

theorem stops_operator_of_not (h : ¬ g.Admits .operator v) :
    (Outline.operator g v p).stops = [.fault (g.rejection .operator v p)] := by
  unfold Outline.operator rejection
  split
  · next o => exact absurd ⟨o, rfl⟩ h
  · cases g.shown v <;> simp [stops]

theorem ne_operator_of_spot (hs : s.spot? = some spot) : s ≠ .operator := by
  rintro rfl
  cases hs

/-- Where a step leads to rules, those of the class are all that are allowed. -/
theorem admitsAt_of_suits {kind : NodeClass} (hs : s.spot? = some (.rule kind))
    (suited : g.suits v (.rule kind) = true) : g.AdmitsAt v (.rule kind) := by
  obtain ⟨c, hc, hk⟩ : ∃ c, g.nodeClass? v = some c ∧ c.isA kind = true := by
    cases hc : g.nodeClass? v with
    | none => simp [suits, hc] at suited
    | some c => exact ⟨c, rfl, by simpa [suits, hc] using suited⟩
  refine ⟨c, hc, hk, ?_⟩
  cases s <;> simp only [PathStep.spot?, Option.some.injEq, Spot.rule.injEq, reduceCtorEq] at hs
  all_goals
    subst hs
    obtain rfl := eq_of_isA (by decide) hk
    simp

theorem Rejects.not_admits (h : g.Rejects n up s v w) : ¬ g.Admits s v := by
  cases h with
  | rule hs rejected => exact mt (admits_of_spot hs).mp rejected
  | constraint hs _ _ atomic multiplicity =>
    rw [admits_of_spot hs]
    rintro (hc | ⟨hc, -⟩)
    · exact atomic hc
    · exact multiplicity hc
  | combinator hs _ _ multiplicity hk unknown =>
    rw [admits_of_spot hs]
    rintro (hc | ⟨-, known⟩)
    · cases multiplicity.symm.trans hc
    · have known := known _ hk
      rw [unknown] at known
      cases known
  | other _ rejected => exact rejected

theorem Rejects.unique {w' : Value} (h : g.Rejects n up s v w) (h' : g.Rejects n up s v w') :
    w = w' := by
  cases h with
  | combinator hs _ _ hc hk _ =>
    cases h' with
    | combinator _ _ _ _ hk' _ => exact Except.ok.inj (hk.symm.trans hk')
    | constraint _ _ _ _ multiplicity => exact absurd hc multiplicity
    | rule hs' _ => cases hs.symm.trans hs'
    | other hs' _ => cases hs.symm.trans hs'
  | constraint hs _ _ _ multiplicity =>
    cases h' with
    | combinator _ _ _ hc _ _ => exact absurd hc multiplicity
    | _ => rfl
  | rule hs _ =>
    cases h' with
    | combinator hs' _ _ _ _ _ => cases hs.symm.trans hs'
    | _ => rfl
  | other hs _ =>
    cases h' with
    | combinator hs' _ _ _ _ _ => cases hs.symm.trans hs'
    | _ => rfl

theorem Rejects.has (closed : g.Closed) (hv : g.Has v) (h : g.Rejects n up s v w) : g.Has w := by
  cases h with
  | combinator _ _ _ _ hk _ => exact has_of_fieldOf closed hk
  | _ => exact hv

theorem Rejects.printable (all : ∀ n ∈ g.nodes, ∀ e ∈ n.fields, e.2.Printable)
    (hv : v.Printable) (h : g.Rejects n up s v w) : w.Printable := by
  cases h with
  | combinator _ _ _ _ hk _ => exact printable_of_fieldOf all hk
  | _ => exact hv

/-- Where a rule or a constraint is asked for, what is allowed, cyclic or too deep is not rejected
there. -/
theorem not_rejects_of_suits (hs : s.spot? = some spot) (suited : g.suits v spot = true)
    (h : (∃ r ∈ up, v = .node r) ∨ n ≤ up.length) : ¬ g.Rejects n up s v w := by
  have occupied : ¬ ((∀ r ∈ up, v ≠ .node r) ∧ up.length < n) := by
    rintro ⟨fresh, short⟩
    rcases h with ⟨r, member, same⟩ | deep
    · exact fresh r member same
    · omega
  intro rejects
  cases rejects with
  | rule hs' rejected =>
    obtain rfl := Option.some.inj (hs.symm.trans hs')
    exact rejected (admitsAt_of_suits hs suited)
  | constraint _ fresh short _ _ => exact occupied ⟨fresh, short⟩
  | combinator _ fresh short _ _ _ => exact occupied ⟨fresh, short⟩
  | other hs' _ => cases hs.symm.trans hs'

/-- The outline of what is not allowed at a spot is its rejection. -/
theorem exists_rejects_of_not_admitsAt (hs : s.spot? = some spot) (suited : g.suits v spot = true)
    (fresh : ∀ r ∈ up, v ≠ .node r) (short : up.length < n) (rejected : ¬ g.AdmitsAt v spot)
    (p : Path) : ∃ w, g.Rejects n up s v w ∧
      (ofSpot g spot v p).stops = [.fault (g.unsupported w p)] := by
  cases spot with
  | rule kind => exact absurd (admitsAt_of_suits hs suited) rejected
  | constraint =>
    have neither : g.nodeClass? v ≠ some .atomicConstraint := fun hc => rejected (.inl hc)
    by_cases multiplicity : g.nodeClass? v = some .multiplicityConstraint
    · obtain ⟨k, hk, unknown⟩ : ∃ k, g.fieldOf v .kind = .ok k ∧ kind? k = none := by
        by_contra known
        refine rejected (.inr ⟨multiplicity, fun k hk => ?_⟩)
        rw [Option.isSome_iff_ne_none]
        exact fun unknown => known ⟨k, hk, unknown⟩
      refine ⟨k, .combinator hs fresh short multiplicity hk unknown, ?_⟩
      simp [ofSpot, Outline.constraint, multiplicity, Outline.multiplicity, hk, withValue, unknown,
        stops]
    · refine ⟨v, .constraint hs fresh short neither multiplicity, ?_⟩
      show (Outline.constraint g v p).stops = _
      unfold Outline.constraint
      split
      · next hc => exact absurd hc neither
      · next hc => exact absurd hc multiplicity
      · rfl

theorem failsSo_of_rejects (h : g.Rejects n up s v w) : g.FailsSo n up s v p (g.rejection s w p) :=
  ⟨.inl h.not_admits, .inl ⟨w, h, rfl⟩⟩

/-! ## First failures -/

theorem firstFailure_here (h : g.FailsSo n up s v p e) : g.FirstFailure n up s v p e :=
  ⟨[], v, rfl, by simpa [above] using h, fun ss' before => absurd before (Path.not_earlier_nil ss')⟩

theorem firstFailure_of_branch {s' : PathStep} (here : ¬ g.Faulty n up s v)
    (hx : g.follow? v s' = some x) (first : g.FirstFailure n (g.under v up) s' x (p.snoc s') e)
    (before : ∀ t y, t.Precedes s' → g.follow? v t = some y → g.Clean n (g.under v up) t y) :
    g.FirstFailure n up s v p e := by
  obtain ⟨ss, y, hy, failure, least⟩ := first
  refine ⟨s' :: ss, y, reach?_cons_eq_some.mpr ⟨x, hx, hy⟩, ?_, ?_⟩
  · rwa [above_cons hx, List.getLastD_cons, ← Path.snoc_append]
  · intro ss' earlier fault
    rcases Path.earlier_cons earlier with rfl | ⟨t, rest, rfl, sooner⟩
    · exact here (faultBelow_nil.mp fault)
    · obtain ⟨z, hz, fault⟩ := faultBelow_cons.mp fault
      rcases sooner with sooner | ⟨rfl, later⟩
      · exact before t z sooner hz rest fault
      · obtain rfl : z = x := Option.some.inj (hz.symm.trans hx)
        exact least rest later fault

/-- What a filler says of the places that it fills below the given rules and constraints, which are
those on the active path. -/
structure Judges (g : Graph) (n : Nat) (up : List Ref) (f : Filler) (active : List (Option Ref)) :
    Prop where
  reports : ∀ s spot x p (w : Trail), s.spot? = some spot → w.active = active →
    g.Reports n up s x p (Walk.ending (f spot x p w)).1
  fails : ∀ s spot x p (w : Trail) e, s.spot? = some spot → w.active = active →
    (Walk.ending (f spot x p w)).1 = .error e → g.FirstFailure n up s x p e

/-- The way through branches fails at one of them, and what comes before it in the document is
clean. -/
theorem exists_failing_branch {f : Filler} (hf : f.Restores) {pre bs : List Branch} {t : Trail}
    (split : g.branches v = pre ++ bs) (before : ∀ s x, .ok (s, x) ∈ pre → g.Clean n up s x)
    (readable : ∀ e, .error e ∉ g.branches v)
    (reports : ∀ s x, .ok (s, x) ∈ bs → ∀ u : Trail, u.active = t.active →
      g.Reports n up s x (p.snoc s) (pass f (g.stopsAt p (.ok (s, x))) u).1)
    (failed : (pass f (g.stopsOf p bs) t).1 = .error e) :
    ∃ s x, .ok (s, x) ∈ bs ∧
      (∃ u : Trail, u.active = t.active ∧ (pass f (g.stopsAt p (.ok (s, x))) u).1 = .error e) ∧
      ∀ s' y, s'.Precedes s → g.follow? v s' = some y → g.Clean n up s' y := by
  rcases pass_stopsOf hf p bs (rfl : pass f (g.stopsOf p bs) t = (_, _)) with
    ⟨ended, -⟩ | ⟨e', as, b, cs, ended, rfl, all, last⟩
  · cases failed.symm.trans ended
  · obtain rfl := Except.error.inj (failed.symm.trans ended)
    cases b with
    | error e' => exact absurd (by simp [split]) (readable e')
    | ok q =>
      obtain ⟨s, x⟩ := q
      refine ⟨s, x, by simp, last, ?_⟩
      intro s' y sooner hy
      rw [← List.append_assoc] at split
      rcases List.mem_append.mp (mem_of_precedes split hy sooner) with member | member
      · exact before s' y member
      · obtain ⟨u, hu, ok⟩ := all _ member
        have report := reports s' y (by simp [member]) u hu
        rwa [ok] at report

/-- The way through all branches of a value that is not faulty itself fails at the first faulty
position below, if the way through each of them does. -/
theorem firstFailure_of_branches {f : Filler} (hf : f.Restores) {t : Trail}
    (here : ¬ g.Faulty n up s v) (readable : ∀ e, .error e ∉ g.branches v)
    (reports : ∀ s' x, g.follow? v s' = some x → ∀ u : Trail, u.active = t.active →
      g.Reports n (g.under v up) s' x (p.snoc s') (pass f (g.stopsAt p (.ok (s', x))) u).1)
    (fails : ∀ s' x, g.follow? v s' = some x → ∀ u : Trail, u.active = t.active →
      (pass f (g.stopsAt p (.ok (s', x))) u).1 = .error e →
      g.FirstFailure n (g.under v up) s' x (p.snoc s') e)
    (failed : (pass f (g.stopsOf p (g.branches v)) t).1 = .error e) :
    g.FirstFailure n up s v p e := by
  obtain ⟨s', x, hx, ⟨u, hu, failed⟩, before⟩ := exists_failing_branch hf
    (List.nil_append _).symm (by simp) readable (fun s' x hx => reports s' x (mem_branches.mp hx))
    failed
  have hx := mem_branches.mp hx
  exact firstFailure_of_branch here hx (fails s' x hx u hu failed) before

/-! ## Failures of visits -/

section

variable {root : Value}

theorem Shaped.fails_expression (h : g.Shaped root) (f : Filler) (u : Trail)
    (hs : s = .leftOperand ∨ s = .rightOperand)
    (failed : (pass f (expression g x p).stops u).1 = .error e) :
    g.FirstFailure n up s x p e := by
  have rejects : g.nodeClass? x ≠ some .literalExpression → g.Rejects n up s x x := by
    rintro other
    rcases hs with rfl | rfl <;> exact .other rfl other
  unfold expression at failed
  split at failed
  · next hc =>
    simp only [stops, memberStops, h.stops_literal hc, List.append_nil] at failed
    cases failed
  · next other =>
    obtain rfl : g.unsupported x p = e := Except.error.inj failed
    rw [← rejection_eq_unsupported (s := s) (by rcases hs with rfl | rfl <;> simp)]
    exact firstFailure_here (failsSo_of_rejects (rejects other))

theorem fails_operator (f : Filler) (u : Trail)
    (failed : (pass f (Outline.operator g x p).stops u).1 = .error e) :
    g.FirstFailure n up .operator x p e := by
  by_cases admitted : g.Admits .operator x
  · obtain ⟨o, rfl⟩ := admitted
    cases failed
  · rw [stops_operator_of_not admitted] at failed
    obtain rfl : g.rejection .operator x p = e := Except.error.inj failed
    exact firstFailure_here (failsSo_of_rejects (.other rfl admitted))

theorem Shaped.fails_action (h : g.Shaped root) {f : Filler} (hf : f.Restores) {u : Trail}
    (judges : g.Judges n up f u.active) (hc : g.nodeClass? x = some .action)
    (failed : (pass f (Outline.action g x p).stops u).1 = .error e) :
    g.FirstFailure n up .action x p e := by
  have under : g.under x up = up := by simp [under, entered?, hc, NodeClass.isEntered]
  have here : ¬ g.Faulty n up .action x := not_faulty rfl (by simp [Admits, PathStep.spot?])
  have refinement : ∀ s y, g.follow? x s = some y → s = .refinement := by
    intro s y hy
    cases s <;> simp [follow?, opens, hc] at hy ⊢
  rw [stops_action p hc] at failed
  apply firstFailure_of_branches hf here (h.not_error_mem_branches x) _ _ failed
  · intro s y hy w hw
    obtain rfl := refinement s y hy
    rw [under, stopsAt_of_spot rfl, pass_place]
    exact judges.reports .refinement .constraint y _ w rfl hw
  · intro s y hy w hw failed
    obtain rfl := refinement s y hy
    rw [stopsAt_of_spot rfl, pass_place] at failed
    rw [under]
    exact judges.fails .refinement .constraint y _ w e rfl hw failed

/-- The way through a branch fails at the first faulty position below the value it leads to. -/
theorem Shaped.fails_stopsAt (h : g.Shaped root) {f : Filler} (hf : f.Restores) {u : Trail}
    (judges : g.Judges n up f u.active) (hx : g.follow? v s = some x) (hs : s ≠ .type)
    (failed : (pass f (g.stopsAt p (.ok (s, x))) u).1 = .error e) :
    g.FirstFailure n up s x (p.snoc s) e := by
  cases hspot : s.spot? with
  | some spot =>
    rw [stopsAt_of_spot hspot, pass_place] at failed
    exact judges.fails s spot x _ u e hspot rfl failed
  | none =>
    cases s <;> simp [PathStep.spot?] at hspot
    case type => exact absurd rfl hs
    case assignee => simp [follow?, opens] at hx
    case assigner => simp [follow?, opens] at hx
    case leftOperand => exact h.fails_expression f u (.inl rfl) failed
    case rightOperand => exact h.fails_expression f u (.inr rfl) failed
    case operator => exact fails_operator f u failed
    case action => exact h.fails_action hf judges (h.nodeClass?_action hx) failed

theorem fails_refusal (hs : s.spot? = some spot) {t : Trail} (ht : t.active = up.map some)
    (h : refusal? g spot v p t = some e) : g.FailsSo n up s v p e := by
  rcases refusal?_cases spot v p ht with
    ⟨unsuited, refused⟩ | ⟨suited, above, refused⟩ | ⟨-, -, entered⟩
  · obtain rfl : g.unsupported v p = e := Option.some.inj (refused.symm.trans h)
    rw [← rejection_eq_unsupported (ne_operator_of_spot hs)]
    cases spot with
    | constraint => cases unsuited
    | rule kind =>
      apply failsSo_of_rejects
      refine .rule hs fun admitted => ?_
      rw [suits_of_admitsAt admitted] at unsuited
      cases unsuited
  · obtain rfl := Option.some.inj (refused.symm.trans h)
    have enters : s.enters = true := by simp [PathStep.enters, hs]
    exact ⟨.inr ⟨enters, .inl above⟩, .inr ⟨fun w => not_rejects_of_suits hs suited (.inl above),
      _, rfl, rfl⟩⟩
  · cases entered.symm.trans h

/-- The way through a rule or a constraint that is not faulty itself fails at the first faulty
position below. -/
theorem Shaped.fails_entered (h : g.Shaped root) {f : Filler} (hf : f.Restores) {r : Ref}
    {u : Trail} (admitted : g.AdmitsAt (.node r) spot) (under : g.under (.node r) up = r :: up)
    (here : ¬ g.Faulty n up s (.node r)) (judges : g.Judges n (r :: up) f u.active)
    (failed : (pass f (ofSpot g spot (.node r) p).stops u).1 = .error e) :
    g.FirstFailure n up s (.node r) p e := by
  rw [stops_ofSpot admitted] at failed
  apply firstFailure_of_branches hf here (h.not_error_mem_branches _) _ _ failed
  · intro s' x hx w hw
    rw [← hw] at judges
    rw [under]
    exact reports_stopsAt hf judges.reports hx (ne_type_of_admitsAt admitted hx)
  · intro s' x hx w hw failed
    rw [← hw] at judges
    rw [under]
    exact h.fails_stopsAt hf judges hx (ne_type_of_admitsAt admitted hx) failed

/-- A visit that fails does so at the first faulty position below the value where a step leads. -/
theorem Shaped.visit_fails (h : g.Shaped root) (limit : Int) {room : Nat} (hs : s.spot? = some spot)
    (v : Value) (p : Path) {t : Trail} (ht : t.active = up.map some) (nodup : up.Nodup)
    (hn : up.length + room = n)
    (failed : (Walk.ending (visit g limit room spot v p t)).1 = .error e) :
    g.FirstFailure n up s v p e := by
  have enters : s.enters = true := by simp [PathStep.enters, hs]
  -- by the room below the limit, as for what visits report
  induction room generalizing up s spot v p t e with
  | zero =>
    rcases visit_cases (rfl : visit g limit 0 spot v p t = (_, _)) with
      ⟨e', refused, out, -⟩ | ⟨entered, -, out, -⟩ | ⟨-, m, -, hm, -⟩
    · rw [Walk.ending, out] at failed
      obtain rfl := Except.error.inj failed
      exact firstFailure_here (fails_refusal hs ht refused)
    · rw [Walk.ending, out] at failed
      obtain rfl := Except.error.inj failed
      have full : n ≤ up.length := by omega
      exact firstFailure_here ⟨.inr ⟨enters, .inr full⟩, .inr
        ⟨fun w => not_rejects_of_suits hs (suits_of_refusal? entered) (.inr full), _, rfl, rfl⟩⟩
    · omega
  | succ room ih =>
    rcases visit_cases (rfl : visit g limit (room + 1) spot v p t = (_, _)) with
      ⟨e', refused, out, -⟩ | ⟨-, h, -⟩ | ⟨entered, m, t', hm, filled, -⟩
    · rw [Walk.ending, out] at failed
      obtain rfl := Except.error.inj failed
      exact firstFailure_here (fails_refusal hs ht refused)
    · omega
    · obtain rfl : room = m := by omega
      obtain ⟨suited, fresh⟩ := refusal?_eq_none ht entered
      have passed := Outline.ending_fill (visit g limit room) (ofSpot g spot v p) (t.push v)
      rw [filled] at passed
      have failed : (pass (visit g limit room) (ofSpot g spot v p).stops (t.push v)).1 =
          .error e := by
        rw [← passed]
        exact failed
      by_cases admitted : g.AdmitsAt v spot
      · obtain ⟨r, rfl, under⟩ := under_of_admitsAt admitted up
        have active : (t.push (.node r)).active = (r :: up).map some := by
          simp [Trail.push, Trail.mark, ht]
        have unseen : r ∉ up := fun member => fresh r member rfl
        have nodup' : (r :: up).Nodup := List.nodup_cons.mpr ⟨unseen, nodup⟩
        have length : (r :: up).length + room = n := by
          rw [List.length_cons]
          omega
        have here : ¬ g.Faulty n up s (.node r) := by
          rintro (h | ⟨-, ⟨r', member, same⟩ | deep⟩)
          · exact h ((admits_of_spot hs).mpr admitted)
          · exact fresh r' member same
          · omega
        have judges : g.Judges n (r :: up) (visit g limit room) (t.push (.node r)).active := by
          refine ⟨fun s' spot' x q w hs' hw => ?_, fun s' spot' x q w e' hs' hw failed => ?_⟩
          · exact visit_reports g limit hs' x q (hw.trans active) nodup' length
          · exact ih hs' x q (hw.trans active) nodup' length failed
              (by simp [PathStep.enters, hs'])
        exact h.fails_entered (visit_restores g limit room) admitted under here judges failed
      · have short : up.length < n := by omega
        obtain ⟨w, rejects, fault⟩ :=
          exists_rejects_of_not_admitsAt hs suited fresh short admitted p
        rw [fault] at failed
        obtain rfl : g.unsupported w p = e := Except.error.inj failed
        rw [← rejection_eq_unsupported (ne_operator_of_spot hs)]
        exact firstFailure_here (failsSo_of_rejects rejects)

end

end Graph

end UsagePolicy
