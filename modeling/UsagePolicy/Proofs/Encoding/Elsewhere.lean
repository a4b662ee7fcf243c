import UsagePolicy.Proofs.Encoding.CopiedOutlines
import UsagePolicy.Proofs.Encoding.Position
import UsagePolicy.Proofs.Encoding.Visitor

/-!
# Values that stand elsewhere

An encoding never looks at the path it is given: it takes further steps on it and names it in its
errors. So a value is encoded alike wherever it stands, and if it cannot be encoded, the errors are
the same but for the path, which goes the same way on from where the encoding was told to start.

Two encodings of one value are followed side by side. At every moment their paths are parallel: they
have taken the same steps from the two paths they started at.
-/

namespace UsagePolicy

namespace Path

/-- The paths have gone the same steps from two others. -/
def Parallel (p q a b : Path) : Prop := ∃ ss, p.append ss = a ∧ q.append ss = b

variable {p q a b : Path}

theorem Parallel.refl (p q : Path) : Parallel p q p q := ⟨[], append_nil p, append_nil q⟩

theorem Parallel.snoc (along : Parallel p q a b) (s : PathStep) :
    Parallel p q (a.snoc s) (b.snoc s) := by
  obtain ⟨ss, rfl, rfl⟩ := along
  refine ⟨ss ++ [s], ?_, ?_⟩ <;> simp [append, Path.snoc, List.append_assoc]

theorem Parallel.text (along : Parallel p q a b) :
    ∃ s, a.text = p.text ++ s ∧ b.text = q.text ++ s := by
  obtain ⟨ss, rfl, rfl⟩ := along
  refine ⟨ss.flatMap PathStep.text, ?_, ?_⟩ <;> simp [append, Path.text, List.append_assoc]

end Path

/-! ## The same outcome elsewhere -/

/-- The errors are the same but for the path: each names where the same way on from one of two paths
leads. -/
structure EncodingError.Elsewhere (p q : Path) (e e' : EncodingError) : Prop where
  errorClass : e.errorClass = e'.errorClass
  cause : e.cause? = e'.cause?
  path : ∃ s head : Text,
    Json.get? e.details "path" = some (.text (p.text ++ s)) ∧
    Json.get? e'.details "path" = some (.text (q.text ++ s)) ∧
    e.message = head ++ (p.text ++ s) ∧ e'.message = head ++ (q.text ++ s)
  details : e.details.filter (fun m => m.1 ≠ ("path" : Text)) =
    e'.details.filter fun m => m.1 ≠ ("path" : Text)

/-- The failures are the same, but for the path if they are encoding errors. -/
inductive Failure.Elsewhere (p q : Path) : Failure → Failure → Prop
  | encoding {e e' : EncodingError} : e.Elsewhere p q e' → Elsewhere p q (.encoding e) (.encoding e')
  | noAttribute (t n : Text) : Elsewhere p q (.noAttribute t n) (.noAttribute t n)
  | notIterable (t : Text) : Elsewhere p q (.notIterable t) (.notIterable t)
  | unprintable (flaw : PrintFlaw) (how : Printing) :
    Elsewhere p q (.unprintable flaw how) (.unprintable flaw how)

/-- Both come out with the same result, or as failures that are the same but for the path. -/
inductive SameElsewhere (p q : Path) {α : Type} : Except Failure α → Except Failure α → Prop
  | ok (a : α) : SameElsewhere p q (.ok a) (.ok a)
  | error {e e' : Failure} : e.Elsewhere p q e' → SameElsewhere p q (.error e) (.error e')

variable {g : Graph} {p q a b : Path} {v : Value}

/-- An error that is told of either of two parallel paths. The message ends in the path and the
details begin with it. -/
theorem EncodingError.Elsewhere.of_parallel {e e' : EncodingError} {head : Text}
    {rest : Json.Members} (along : Path.Parallel p q a b) (errorClass : e.errorClass = e'.errorClass)
    (cause : e.cause? = e'.cause?) (message : e.message = head ++ a.text)
    (message' : e'.message = head ++ b.text)
    (details : e.details = (("path" : Text), .text a.text) :: rest)
    (details' : e'.details = (("path" : Text), .text b.text) :: rest)
    (once : Json.get? rest "path" = none) : e.Elsewhere p q e' := by
  obtain ⟨s, ha, hb⟩ := along.text
  refine ⟨errorClass, cause, ⟨s, head, ?_, ?_, ?_, ?_⟩, ?_⟩
  · simp [details, ha, Json.get?, once]
  · simp [details', hb, Json.get?, once]
  · rw [message, ha]
  · rw [message', hb]
  · simp [details, details']

namespace Failure

theorem Elsewhere.unsupportedOperator (along : Path.Parallel p q a b) (s : Text) :
    Elsewhere p q (.encoding (.unsupportedOperator a s)) (.encoding (.unsupportedOperator b s)) :=
  .encoding (.of_parallel along rfl rfl rfl rfl rfl rfl rfl)

theorem Elsewhere.cyclic (along : Path.Parallel p q a b) (t : Text) :
    Elsewhere p q (.encoding (.cyclic a t)) (.encoding (.cyclic b t)) :=
  .encoding (.of_parallel along rfl rfl rfl rfl rfl rfl rfl)

theorem Elsewhere.tooDeep (along : Path.Parallel p q a b) (limit : Int) :
    Elsewhere p q (.encoding (.tooDeep a limit)) (.encoding (.tooDeep b limit)) :=
  .encoding (.of_parallel along rfl rfl rfl rfl rfl rfl rfl)

theorem Elsewhere.unsupported (along : Path.Parallel p q a b) :
    Elsewhere p q (g.unsupported v a) (g.unsupported v b) := by
  unfold Graph.unsupported
  cases g.shown v with
  | error flaw => exact .unprintable flaw .shown
  | ok t => exact .encoding (.of_parallel along rfl rfl rfl rfl rfl rfl rfl)

theorem Elsewhere.of_fieldOf {f : Field} {e : Failure} (h : g.fieldOf v f = .error e) :
    Elsewhere p q e e := by
  cases Graph.unreadable_of_fieldOf h with
  | noAttribute t n => exact .noAttribute t n
  | notIterable t => exact .notIterable t

end Failure

/-! ## Outlines side by side -/

namespace Outline

mutual

/-- The outlines are the same, but for the paths of their faults and places, which are parallel. -/
inductive Elsewhere (p q : Path) : Outline → Outline → Prop
  | leaf (v : Value) : Elsewhere p q (.leaf v) (.leaf v)
  | fault {e e' : Failure} : e.Elsewhere p q e' → Elsewhere p q (.fault e) (.fault e')
  | place (s : Spot) (v : Value) {a b : Path} : Path.Parallel p q a b →
    Elsewhere p q (.place s v a) (.place s v b)
  | items {os os' : List Outline} : ItemsElsewhere p q os os' → Elsewhere p q (.items os) (.items os')
  | members {ms ms' : List (Text × Outline)} : MembersElsewhere p q ms ms' →
    Elsewhere p q (.members ms) (.members ms')

/-- The items are the same, but for the paths in them. -/
inductive ItemsElsewhere (p q : Path) : List Outline → List Outline → Prop
  | nil : ItemsElsewhere p q [] []
  | cons {o o' : Outline} {os os' : List Outline} : Elsewhere p q o o' → ItemsElsewhere p q os os' →
    ItemsElsewhere p q (o :: os) (o' :: os')

/-- The members are the same, but for the paths in them. -/
inductive MembersElsewhere (p q : Path) : List (Text × Outline) → List (Text × Outline) → Prop
  | nil : MembersElsewhere p q [] []
  | cons (key : Text) {o o' : Outline} {ms ms' : List (Text × Outline)} : Elsewhere p q o o' →
    MembersElsewhere p q ms ms' → MembersElsewhere p q ((key, o) :: ms) ((key, o') :: ms')

end

variable {f : Field} {key : Text} {k k' : Value → Outline} {ms ms' ns ns' : List (Text × Outline)}

theorem MembersElsewhere.append (front : MembersElsewhere p q ms ms')
    (back : MembersElsewhere p q ns ns') : MembersElsewhere p q (ms ++ ns) (ms' ++ ns') := by
  induction ms generalizing ms' with
  | nil =>
    cases front
    exact back
  | cons m ms ih =>
    cases front with
    | cons key first rest => exact .cons key first (ih rest)

theorem MembersElsewhere.single {o o' : Outline} (key : Text) (h : Elsewhere p q o o') :
    MembersElsewhere p q [(key, o)] [(key, o')] := .cons key h .nil

theorem itemsElsewhere_of_forall₂ {os os' : List Outline}
    (each : List.Forall₂ (Elsewhere p q) os os') : ItemsElsewhere p q os os' := by
  induction each with
  | nil => exact .nil
  | cons first _ ih => exact .cons first ih

theorem elsewhere_withValue (each : ∀ x, Elsewhere p q (k x) (k' x)) :
    Elsewhere p q (withValue (g.fieldOf v f) k) (withValue (g.fieldOf v f) k') := by
  cases h : g.fieldOf v f with
  | ok x => exact each x
  | error e => exact .fault (.of_fieldOf h)

theorem elsewhere_ifPresent (each : ∀ x, Elsewhere p q (k x) (k' x)) :
    MembersElsewhere p q (ifPresent key (g.fieldOf v f) k) (ifPresent key (g.fieldOf v f) k') := by
  cases h : g.fieldOf v f with
  | error e => exact .single key (.fault (.of_fieldOf h))
  | ok x =>
    have item := MembersElsewhere.single key (each x)
    cases x with
    | absent => exact .nil
    | _ => exact item

theorem elsewhere_ifTruthy (each : ∀ x, Elsewhere p q (k x) (k' x)) :
    MembersElsewhere p q (ifTruthy key (g.fieldOf v f) k) (ifTruthy key (g.fieldOf v f) k') := by
  cases h : g.fieldOf v f with
  | error e => exact .single key (.fault (.of_fieldOf h))
  | ok x =>
    unfold ifTruthy
    by_cases truthy : x.isTruthy
    · simp only [truthy, if_true]
      exact .single key (each x)
    · simp only [truthy]
      exact .nil

theorem elsewhere_elements {k k' : Nat → Value → Outline}
    (each : ∀ i x, Elsewhere p q (k i x) (k' i x)) :
    Elsewhere p q (elements g v k) (elements g v k') := by
  unfold elements
  cases g.elements? v with
  | none => exact .fault (.notIterable _)
  | some vs =>
    have same : List.Forall₂ Eq vs vs := List.forall₂_same.mpr fun _ _ => rfl
    refine .items (itemsElsewhere_of_forall₂ (forall₂_mapIdx same ?_))
    intro i x y h
    rw [h]
    exact each i y

theorem elsewhere_literal {opened : List Slot} :
    Elsewhere p q (literal g opened v) (literal g opened v) := by
  unfold literal
  split
  · exact .leaf _
  · exact .leaf _
  · split
    · exact .leaf _
    · exact .fault (.unprintable _ _)

theorem elsewhere_identifier : Elsewhere p q (identifier v) (identifier v) :=
  .items (.cons (.members (.single Term.id (.leaf v))) .nil)

theorem elsewhere_expression (along : Path.Parallel p q a b) :
    Elsewhere p q (expression g v a) (expression g v b) := by
  unfold expression
  split
  · exact .members (.single Term.value (elsewhere_withValue fun _ => elsewhere_literal))
  · exact .fault (.unsupported along)

theorem elsewhere_operator (along : Path.Parallel p q a b) :
    Elsewhere p q (operator g v a) (operator g v b) := by
  unfold operator
  split
  · exact elsewhere_identifier
  · split
    · exact .fault (.unsupportedOperator along _)
    · exact .fault (.unprintable _ _)

theorem elsewhere_atomic (along : Path.Parallel p q a b) :
    Elsewhere p q (atomic g v a) (atomic g v b) := by
  refine .members (.cons _ ?_ (.cons _ ?_ (.single _ ?_)))
  · exact elsewhere_withValue fun _ => elsewhere_expression (along.snoc .leftOperand)
  · exact elsewhere_withValue fun _ => elsewhere_operator (along.snoc .operator)
  · exact elsewhere_withValue fun _ => elsewhere_expression (along.snoc .rightOperand)

theorem elsewhere_multiplicity (along : Path.Parallel p q a b) :
    Elsewhere p q (multiplicity g v a) (multiplicity g v b) := by
  apply elsewhere_withValue
  intro k
  cases kind? k with
  | none => exact .fault (.unsupported along)
  | some kind =>
    refine .members (.single _ (elsewhere_withValue fun cs => elsewhere_elements fun i c => ?_))
    exact .place .constraint c (along.snoc (.member kind i))

theorem elsewhere_constraint (along : Path.Parallel p q a b) :
    Elsewhere p q (constraint g v a) (constraint g v b) := by
  unfold constraint
  split
  · exact elsewhere_atomic along
  · exact elsewhere_multiplicity along
  · exact .fault (.unsupported along)

theorem elsewhere_action (along : Path.Parallel p q a b) :
    Elsewhere p q (action g v a) (action g v b) := by
  unfold action
  split
  · exact .members .nil
  · refine .members (.append (.cons _ (elsewhere_withValue .leaf) (elsewhere_ifPresent .leaf)) ?_)
    apply elsewhere_ifPresent
    intro c
    exact .place .constraint c (along.snoc .refinement)

theorem elsewhere_ruleMembers (along : Path.Parallel p q a b) :
    MembersElsewhere p q (ruleMembers g v a) (ruleMembers g v b) := by
  refine .cons _ (elsewhere_withValue fun _ => elsewhere_action (along.snoc .action)) ?_
  apply elsewhere_ifTruthy
  intro cs
  apply elsewhere_elements
  intro i c
  exact .place .constraint c (along.snoc (.constraint i))

theorem elsewhere_rule (along : Path.Parallel p q a b) :
    Elsewhere p q (rule g v a) (rule g v b) := by
  have shared := elsewhere_ruleMembers (g := g) (v := v) along
  unfold rule
  split
  · refine .members (shared.append (elsewhere_ifTruthy fun ds => elsewhere_elements fun i d => ?_))
    exact .place (.rule .duty) d (along.snoc (.duty i))
  · exact .members shared
  · refine .members (shared.append (elsewhere_ifPresent fun d => ?_))
    exact .place (.rule .duty) d (along.snoc .consequence)
  · exact .fault (.unsupported along)

/-- What stands at a place has the same outline elsewhere. -/
theorem elsewhere_ofSpot (along : Path.Parallel p q a b) (s : Spot) :
    Elsewhere p q (ofSpot g s v a) (ofSpot g s v b) := by
  cases s with
  | rule kind => exact elsewhere_rule along
  | constraint => exact elsewhere_constraint along

end Outline

/-! ## Walks side by side -/

/-- Two steps of walks come out the same but for the paths of failures, and the walks stand alike
afterwards if they did before. -/
def Walk.Elsewhere (p q : Path) {α : Type} (w w' : Walk α) : Prop :=
  ∀ t, SameElsewhere p q (w t).1 (w' t).1 ∧ (w t).2 = (w' t).2

namespace Walk.Elsewhere

variable {α β : Type} {w w' : Walk α} {k k' : α → Walk β}

theorem result (x : α) : Walk.Elsewhere p q (.result x) (.result x) := fun _ => ⟨.ok x, rfl⟩

theorem andThen (first : Walk.Elsewhere p q w w') (rest : ∀ x, Walk.Elsewhere p q (k x) (k' x)) :
    Walk.Elsewhere p q (w.andThen k) (w'.andThen k') := by
  intro t
  have same := first t
  unfold Walk.andThen
  cases done : w t with
  | mk out u =>
    cases done' : w' t with
    | mk out' u' =>
      rw [done, done'] at same
      obtain ⟨came, stand : u = u'⟩ := same
      subst stand
      cases came with
      | ok x => exact rest x u
      | error failed => exact ⟨.error failed, rfl⟩

end Walk.Elsewhere

/-- Parallel paths are taken on alike: what a value is filled with does not depend on them. -/
def Filler.IgnoresPaths (f : Filler) : Prop :=
  ∀ p q s v a b, Path.Parallel p q a b → Walk.Elsewhere p q (f s v a) (f s v b)

namespace Outline

variable {f : Filler}

mutual

/-- Outlines that are the same elsewhere are filled alike. -/
theorem Elsewhere.fill (ignores : f.IgnoresPaths) :
    ∀ {o o' : Outline}, Elsewhere p q o o' → Walk.Elsewhere p q (o.fill f) (o'.fill f)
  | _, _, .leaf v => .result v
  | _, _, .fault failed => fun _ => ⟨.error failed, rfl⟩
  | _, _, .place s v along => ignores p q s v _ _ along
  | _, _, .items each => by
    rw [fill_items, fill_items]
    exact (each.fill ignores).andThen fun _ => .result _
  | _, _, .members each => by
    rw [fill_members, fill_members]
    exact (each.fill ignores).andThen fun _ => .result _

theorem ItemsElsewhere.fill (ignores : f.IgnoresPaths) :
    ∀ {os os' : List Outline}, ItemsElsewhere p q os os' →
      Walk.Elsewhere p q (fillItems f os) (fillItems f os')
  | _, _, .nil => .result []
  | _, _, .cons first rest => by
    rw [fillItems_cons, fillItems_cons]
    exact (first.fill ignores).andThen fun _ =>
      (rest.fill ignores).andThen fun _ => .result _

theorem MembersElsewhere.fill (ignores : f.IgnoresPaths) :
    ∀ {ms ms' : List (Text × Outline)}, MembersElsewhere p q ms ms' →
      Walk.Elsewhere p q (fillMembers f ms) (fillMembers f ms')
  | _, _, .nil => .result []
  | _, _, .cons key first rest => by
    rw [fillMembers_cons, fillMembers_cons]
    exact (first.fill ignores).andThen fun _ =>
      (rest.fill ignores).andThen fun _ => .result _

end

end Outline

/-- A value is refused at two places for the same reason, or at none of them. -/
theorem refusal?_elsewhere (along : Path.Parallel p q a b) (s : Spot) (t : Trail) :
    Option.Rel (Failure.Elsewhere p q) (refusal? g s v a t) (refusal? g s v b t) := by
  have cyclic : Option.Rel (Failure.Elsewhere p q)
      (if t.holds v then some (.encoding (.cyclic a (g.typeName v))) else none)
      (if t.holds v then some (.encoding (.cyclic b (g.typeName v))) else none) := by
    by_cases held : t.holds v
    · rw [if_pos held, if_pos held]
      exact .some (Failure.Elsewhere.cyclic along _)
    · rw [if_neg held, if_neg held]
      exact .none
  unfold refusal?
  cases s with
  | constraint => exact cyclic
  | rule kind =>
    dsimp only
    by_cases fits : (g.nodeClass? v).any (·.isA kind)
    · simp only [fits]
      exact cyclic
    · simp only [fits]
      exact .some (Failure.Elsewhere.unsupported along)

/-- A visit goes the same way wherever the value stands. -/
theorem visit_ignoresPaths (g : Graph) (limit : Int) (room : Nat) :
    Filler.IgnoresPaths (visit g limit room) := by
  -- by the room, so that the places inside of the value are visited alike already
  induction room with
  | zero =>
    intro p q s v a b along t
    have refused := refusal?_elsewhere (g := g) (v := v) along s t
    unfold visit
    revert refused
    generalize refusal? g s v a t = x, refusal? g s v b t = y
    intro refused
    cases refused with
    | some failed => exact ⟨.error failed, rfl⟩
    | none => exact ⟨.error (.tooDeep along limit), rfl⟩
  | succ room ih =>
    intro p q s v a b along t
    have refused := refusal?_elsewhere (g := g) (v := v) along s t
    unfold visit
    revert refused
    generalize refusal? g s v a t = x, refusal? g s v b t = y
    intro refused
    cases refused with
    | some failed => exact ⟨.error failed, rfl⟩
    | none =>
      have outline := Outline.elsewhere_ofSpot (g := g) (v := v) along s
      obtain ⟨came, stand⟩ := outline.fill ih (t.push v)
      exact ⟨came, congrArg Trail.pop stand⟩

theorem visitFrom_ignoresPaths (g : Graph) (limit : Int) :
    Filler.IgnoresPaths (visitFrom g limit) :=
  fun p q s v a b along t =>
    visit_ignoresPaths g limit (limit.toNat - t.active.length) p q s v a b along t

/-! ## Visitors side by side -/

/-- What a visitor is called for at a path. -/
inductive PathCall
  | rule (kind : NodeClass)
  | constraint
  | expression

/-- The call for a value at a path. -/
def PathCall.call (v : Value) (p : Path) : PathCall → Call
  | .rule kind => .rule kind v p
  | .constraint => .constraint v p
  | .expression => .expression v p

namespace Visitor

theorem walk_elsewhere (g : Graph) (x : Visitor) (c : PathCall) (v : Value) (p q : Path) :
    Walk.Elsewhere p q (x.walk g (c.call v p)) (x.walk g (c.call v q)) := by
  have ignores := visitFrom_ignoresPaths g x.limit
  have along := Path.Parallel.refl p q
  cases c with
  | rule kind => exact ignores p q (.rule kind) v p q along
  | constraint => exact ignores p q .constraint v p q along
  | expression => exact (Outline.elsewhere_expression along).fill ignores

/-- A visitor answers alike wherever it is told that a value stands, and goes on from the same
place: the path is in the errors only. -/
theorem call_elsewhere (g : Graph) (x : Visitor) (c : PathCall) (v : Value) (p q : Path) :
    SameElsewhere p q (x.call g (c.call v p)).1 (x.call g (c.call v q)).1 ∧
      (x.call g (c.call v p)).2 = (x.call g (c.call v q)).2 := by
  obtain ⟨came, stand⟩ := walk_elsewhere g x c v p q x.trail
  refine ⟨came, ?_⟩
  simp only [call, stand]

end Visitor

end UsagePolicy
