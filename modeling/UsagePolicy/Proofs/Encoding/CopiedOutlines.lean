import UsagePolicy.Proofs.Encoding.Sequence
import UsagePolicy.Proofs.Graph.Copies

/-!
# Outlines of copies

The outline of a copy is that of the value, with copies in its places: no outline looks at the
identity of a node. Outlines that are alike are filled alike if their places are.
-/

namespace UsagePolicy

/-- Errors of one class with the same message, details and cause. -/
structure EncodingError.Alike (e e' : EncodingError) : Prop where
  errorClass : e.errorClass = e'.errorClass
  message : e.message = e'.message
  details : e.details = e'.details
  cause : e.cause? = e'.cause?

namespace Failure

/-- Failures of one kind with the same message, and the same details if they are encoding errors. -/
inductive Alike : Failure → Failure → Prop
  | same (e : Failure) : Alike e e
  | encoding {e e' : EncodingError} : e.Alike e' → Alike (.encoding e) (.encoding e')

end Failure

/-- Both come out as failures that are alike or both with results that are related. -/
inductive ComesOutAlike {α β : Type} (R : α → β → Prop) : Except Failure α → Except Failure β → Prop
  | ok {a : α} {b : β} : R a b → ComesOutAlike R (.ok a) (.ok b)
  | error {e e' : Failure} : e.Alike e' → ComesOutAlike R (.error e) (.error e')

namespace ComesOutAlike

variable {α β γ δ : Type} {R S : α → β → Prop} {x : Except Failure α} {y : Except Failure β}

theorem mono (h : ComesOutAlike R x y) (sub : ∀ a b, R a b → S a b) : ComesOutAlike S x y := by
  cases h with
  | ok related => exact .ok (sub _ _ related)
  | error alike => exact .error alike

theorem map {T : γ → δ → Prop} {f : α → γ} {k : β → δ} (h : ComesOutAlike R x y)
    (each : ∀ a b, R a b → T (f a) (k b)) : ComesOutAlike T (x.map f) (y.map k) := by
  cases h with
  | ok related => exact .ok (each _ _ related)
  | error alike => exact .error alike

end ComesOutAlike

/-! ## Outlines that are alike -/

namespace Outline

/-- The outlines are the same, but that there are copies in the leaves and related values in the
places. -/
inductive Like (g h : Graph) (R : Value → Value → Prop) : Outline → Outline → Prop
  | leaf {v w : Value} : g.Copies h v w → Like g h R (.leaf v) (.leaf w)
  | fault {e e' : Failure} : e.Alike e' → Like g h R (.fault e) (.fault e')
  | place (s : Spot) {v w : Value} (p : Path) : R v w → Like g h R (.place s v p) (.place s w p)
  | items {os os' : List Outline} : os.length = os'.length →
    (∀ {o o'}, (o, o') ∈ os.zip os' → Like g h R o o') → Like g h R (.items os) (.items os')
  | members {ms ms' : List (Text × Outline)} : ms.length = ms'.length →
    (∀ {m m'}, (m, m') ∈ ms.zip ms' → m.1 = m'.1) →
    (∀ {m m'}, (m, m') ∈ ms.zip ms' → Like g h R m.2 m'.2) →
    Like g h R (.members ms) (.members ms')

variable {g h : Graph} {R : Value → Value → Prop}

theorem Like.ofItems {os os' : List Outline} (each : List.Forall₂ (Like g h R) os os') :
    Like g h R (.items os) (.items os') :=
  .items each.length_eq (List.forall₂_zip each)

theorem Like.ofMembers {ms ms' : List (Text × Outline)} (each : Entrywise (Like g h R) ms ms') :
    Like g h R (.members ms) (.members ms') :=
  .members each.length_eq (fun pair => (List.forall₂_zip each pair).1)
    fun pair => (List.forall₂_zip each pair).2

end Outline

/-! ## Filling outlines that are alike -/

/-- Two walks stand alike: on the given active paths, and as deep at most so far. -/
structure Trail.Matches (up up' : List (Option Ref)) (t t' : Trail) : Prop where
  active : t.active = up
  active' : t'.active = up'
  deepest : t.deepest = t'.deepest

/-- Two steps of walks come out alike, and the walks stand alike again afterwards. -/
def Walk.Alike {α β : Type} (S : α → β → Prop) (up up' : List (Option Ref)) (w : Walk α)
    (w' : Walk β) : Prop :=
  ∀ t t', Trail.Matches up up' t t' →
    ComesOutAlike S (w t).1 (w' t').1 ∧ Trail.Matches up up' (w t).2 (w' t').2

namespace Walk.Alike

variable {α β γ δ : Type} {S : α → β → Prop} {T : γ → δ → Prop} {up up' : List (Option Ref)}
  {w : Walk α} {w' : Walk β} {k : α → Walk γ} {k' : β → Walk δ}

theorem result {a : α} {b : β} (related : S a b) :
    Walk.Alike S up up' (.result a) (.result b) :=
  fun _ _ stand => ⟨.ok related, stand⟩

theorem andThen (first : Walk.Alike S up up' w w')
    (rest : ∀ a b, S a b → Walk.Alike T up up' (k a) (k' b)) :
    Walk.Alike T up up' (w.andThen k) (w'.andThen k') := by
  intro t t' stand
  obtain ⟨out, stand⟩ := first t t' stand
  unfold Walk.andThen
  cases done : w t with
  | mk x u =>
    cases done' : w' t' with
    | mk y u' =>
      rw [done, done'] at out stand
      cases out with
      | ok related => exact rest _ _ related u u' stand
      | error alike => exact ⟨.error alike, stand⟩

end Walk.Alike

namespace Outline

variable {g h : Graph} {R : Value → Value → Prop} {up up' : List (Option Ref)} {f f' : Filler}

theorem fillItems_alike {os os' : List Outline}
    (each : List.Forall₂ (fun o o' => Walk.Alike (g.Copies h) up up' (o.fill f) (o'.fill f'))
      os os') :
    Walk.Alike (List.Forall₂ (g.Copies h)) up up' (fillItems f os) (fillItems f' os') := by
  induction each with
  | nil => exact .result .nil
  | cons first _ ih =>
    rw [fillItems_cons, fillItems_cons]
    exact first.andThen fun _ _ copy => ih.andThen fun _ _ copies => .result (.cons copy copies)

theorem fillMembers_alike {ms ms' : List (Text × Outline)}
    (each : Entrywise (fun o o' => Walk.Alike (g.Copies h) up up' (o.fill f) (o'.fill f'))
      ms ms') :
    Walk.Alike (Entrywise (g.Copies h)) up up' (fillMembers f ms) (fillMembers f' ms') := by
  induction each with
  | nil => exact .result .nil
  | @cons m m' ms ms' first _ ih =>
    obtain ⟨k, o⟩ := m
    obtain ⟨k', o'⟩ := m'
    obtain ⟨rfl, first⟩ := first
    rw [fillMembers_cons, fillMembers_cons]
    exact first.andThen fun _ _ copy => ih.andThen fun _ _ copies =>
      .result (.cons ⟨rfl, copy⟩ copies)

/-- Outlines that are alike are filled alike, if related values are encoded alike. -/
theorem Like.fill {o o' : Outline} (like : Like g h R o o')
    (places : ∀ s p v w, R v w → Walk.Alike (g.Copies h) up up' (f s v p) (f' s w p)) :
    Walk.Alike (g.Copies h) up up' (o.fill f) (o'.fill f') := by
  induction like with
  | leaf copy => exact .result copy
  | fault alike => exact fun t t' stand => ⟨.error alike, stand⟩
  | place s p related => exact places s p _ _ related
  | items length _ ih =>
    rw [fill_items, fill_items]
    refine (fillItems_alike (List.forall₂_iff_zip.mpr ⟨length, ih⟩)).andThen fun _ _ copies => ?_
    exact .result (.ofItems copies)
  | members length names _ ih =>
    rw [fill_members, fill_members]
    refine (fillMembers_alike (.ofZip length names ih)).andThen fun _ _ copies => ?_
    exact .result (.ofEntries copies)

end Outline

/-! ## Relations that follow the encoder -/

namespace Graph

/-- Copies are rejected alike. -/
theorem Copies.unsupported {g h : Graph} {v w : Value} (hg : g.Closed) (hh : h.Closed)
    (c : g.Copies h v w) (p : Path) : g.unsupported v p = h.unsupported w p := by
  unfold Graph.unsupported
  rw [c.shown hg hh, c.typeName]

/-- The values are copies, and their fields are related. -/
structure Opens (g h : Graph) (R : Value → Value → Prop) (v w : Value) : Prop where
  copies : g.Copies h v w
  fieldOf : ∀ f, ComesOutAlike R (g.fieldOf v f) (h.fieldOf w f)

/-- Related values are copies, and whatever the encoder takes from them is related again. -/
structure Tracks (g h : Graph) (R : Value → Value → Prop) : Prop where
  closed : g.Closed
  closed' : h.Closed
  opens : ∀ {v w}, R v w → g.Opens h R v w
  elements : ∀ {v w}, R v w → Option.Rel (List.Forall₂ R) (g.elements? v) (h.elements? w)

theorem Tracks.copies {g h : Graph} {R : Value → Value → Prop} (tracks : g.Tracks h R)
    {v w : Value} (related : R v w) : g.Copies h v w :=
  (tracks.opens related).copies

end Graph

namespace Outline

open UsagePolicy.Graph

variable {g h : Graph} {R : Value → Value → Prop} {v w : Value} {x y : Except Failure Value}
  {p : Path} {key : Text} {k k' : Value → Outline}

theorem like_unsupported (tracks : g.Tracks h R) (copy : g.Copies h v w) :
    Like g h R (.fault (g.unsupported v p)) (.fault (h.unsupported w p)) := by
  rw [copy.unsupported tracks.closed tracks.closed']
  exact .fault (.same _)

theorem like_withValue (read : ComesOutAlike R x y)
    (each : ∀ a b, R a b → Like g h R (k a) (k' b)) :
    Like g h R (withValue x k) (withValue y k') := by
  cases read with
  | ok related => exact each _ _ related
  | error alike => exact .fault alike

theorem forall₂_mapIdx {α β γ δ : Type} {S : α → β → Prop} {T : γ → δ → Prop} {as : List α}
    {bs : List β} (related : List.Forall₂ S as bs) : ∀ {f : Nat → α → γ} {f' : Nat → β → δ},
    (∀ i a b, S a b → T (f i a) (f' i b)) → List.Forall₂ T (as.mapIdx f) (bs.mapIdx f') := by
  induction related with
  | nil => exact fun _ => .nil
  | cons first _ ih =>
    intro f f' each
    rw [List.mapIdx_cons, List.mapIdx_cons]
    exact .cons (each 0 _ _ first) (ih fun i a b => each (i + 1) a b)

theorem like_elements (tracks : g.Tracks h R) (related : R v w)
    {k k' : Nat → Value → Outline} (each : ∀ i a b, R a b → Like g h R (k i a) (k' i b)) :
    Like g h R (elements g v k) (elements h w k') := by
  have read := tracks.elements related
  unfold elements
  cases hv : g.elements? v with
  | none =>
    cases hw : h.elements? w with
    | none =>
      rw [(tracks.copies related).typeName]
      exact .fault (.same _)
    | some ws =>
      rw [hv, hw] at read
      cases read
  | some vs =>
    cases hw : h.elements? w with
    | none =>
      rw [hv, hw] at read
      cases read
    | some ws =>
      rw [hv, hw] at read
      cases read with
      | some items => exact .ofItems (forall₂_mapIdx items each)

theorem like_ifPresent (tracks : g.Tracks h R) (read : ComesOutAlike R x y)
    (each : ∀ a b, R a b → Like g h R (k a) (k' b)) :
    Entrywise (Like g h R) (ifPresent key x k) (ifPresent key y k') := by
  cases read with
  | error alike => exact .cons ⟨rfl, .fault alike⟩ .nil
  | @ok a b related =>
    have item : Entrywise (Like g h R) [(key, k a)] [(key, k' b)] :=
      .cons ⟨rfl, each a b related⟩ .nil
    cases tracks.copies related with
    | absent => exact .nil
    | _ => exact item

theorem like_ifTruthy (tracks : g.Tracks h R) (read : ComesOutAlike R x y)
    (each : ∀ a b, R a b → Like g h R (k a) (k' b)) :
    Entrywise (Like g h R) (ifTruthy key x k) (ifTruthy key y k') := by
  cases read with
  | error alike => exact .cons ⟨rfl, .fault alike⟩ .nil
  | @ok a b related =>
    rw [ifTruthy, ifTruthy, (tracks.copies related).isTruthy]
    split
    · exact .cons ⟨rfl, each a b related⟩ .nil
    · exact .nil

theorem like_identifier (copy : g.Copies h v w) :
    Like g h R (identifier v) (identifier w) :=
  .ofItems (.cons (.ofMembers (.cons ⟨rfl, .leaf copy⟩ .nil)) .nil)

theorem like_printed (how : Printing) {printed printed' : Except PrintFlaw Text}
    {k : Text → Outline} (each : ∀ t, Like g h R (k t) (k t)) : printed = printed' →
    Like g h R (match printed with | .ok t => k t | .error flaw => .fault (.unprintable flaw how))
      (match printed' with | .ok t => k t | .error flaw => .fault (.unprintable flaw how)) := by
  rintro rfl
  cases printed with
  | error flaw => exact .fault (.same _)
  | ok t => exact each t

theorem like_literal (tracks : g.Tracks h R) (opens : g.Opens h R v w) :
    Like g h R (withValue (g.fieldOf v .value) (literal g (v.slot .value)))
      (withValue (h.fieldOf w .value) (literal h (w.slot .value))) := by
  have read := opens.fieldOf .value
  cases hx : g.fieldOf v .value <;> cases hy : h.fieldOf w .value <;> rw [hx, hy] at read
  case ok.ok x y =>
    have copy : g.Copies h x y := by
      cases read with
      | ok related => exact tracks.copies related
    have plain := opens.copies.plain_field tracks.closed tracks.closed' hx hy copy
    rw [withValue, withValue]
    cases copy with
    | bool b => cases b <;> exact .leaf (.text _)
    | _ => exact like_printed .plain (fun t => .leaf (.text t)) plain
  case error.error e e' =>
    cases read with
    | error alike => exact .fault alike
  all_goals cases read

/-! ## Parts of policies -/

theorem like_expression (tracks : g.Tracks h R) (related : R v w) :
    Like g h R (expression g v p) (expression h w p) := by
  have opens := tracks.opens related
  unfold expression
  rw [opens.copies.nodeClass?]
  split
  · exact .ofMembers (.cons ⟨rfl, like_literal tracks opens⟩ .nil)
  · exact like_unsupported tracks opens.copies

theorem like_operator (tracks : g.Tracks h R) (copy : g.Copies h v w) :
    Like g h R (operator g v p) (operator h w p) := by
  have shown := copy.shown tracks.closed tracks.closed'
  cases copy with
  | member m =>
    cases m with
    | operator o => exact like_identifier (.text _)
    | _ => exact like_printed .shown (fun t => .fault (.same _)) shown
  | _ => exact like_printed .shown (fun t => .fault (.same _)) shown

theorem like_atomic (tracks : g.Tracks h R) (opens : g.Opens h R v w) :
    Like g h R (atomic g v p) (atomic h w p) :=
  .ofMembers (.cons
    ⟨rfl, like_withValue (opens.fieldOf .leftExpression) fun _ _ => like_expression tracks⟩
    (.cons ⟨rfl, like_withValue (opens.fieldOf .operator) fun _ _ related =>
        like_operator tracks (tracks.copies related)⟩
      (.cons ⟨rfl, like_withValue (opens.fieldOf .rightExpression) fun _ _ =>
        like_expression tracks⟩ .nil)))

theorem like_multiplicity (tracks : g.Tracks h R) (opens : g.Opens h R v w) :
    Like g h R (multiplicity g v p) (multiplicity h w p) := by
  refine like_withValue (opens.fieldOf .kind) fun k k' related => ?_
  have copy := tracks.copies related
  have same : kind? k = kind? k' := congrArg (Option.bind · MultiplicityKind.ofName?) copy.text?
  rw [same]
  cases kind? k' with
  | none => exact like_unsupported tracks copy
  | some kind =>
    refine .ofMembers (.cons ⟨rfl, like_withValue (opens.fieldOf .constraints) ?_⟩ .nil)
    exact fun _ _ related => like_elements tracks related fun i _ _ => .place .constraint _

theorem like_constraint (tracks : g.Tracks h R) (opens : g.Opens h R v w) :
    Like g h R (constraint g v p) (constraint h w p) := by
  unfold constraint
  rw [opens.copies.nodeClass?]
  split
  · exact like_atomic tracks opens
  · exact like_multiplicity tracks opens
  · exact like_unsupported tracks opens.copies

theorem like_action (tracks : g.Tracks h R) (opens : g.Opens h R v w) :
    Like g h R (action g v p) (action h w p) := by
  have leaf : ∀ a b, R a b → Like g h R (.leaf a) (.leaf b) :=
    fun _ _ related => .leaf (tracks.copies related)
  cases opens.copies with
  | absent => exact .ofMembers .nil
  | _ =>
    refine .ofMembers (.cons ⟨rfl, like_withValue (opens.fieldOf .type) leaf⟩
      (Entrywise.append (like_ifPresent tracks (opens.fieldOf .includedIn) leaf) ?_))
    exact like_ifPresent tracks (opens.fieldOf .constraint) fun _ _ => .place .constraint _

theorem like_ruleMembers (tracks : g.Tracks h R) (opens : g.Opens h R v w) :
    Entrywise (Like g h R) (ruleMembers g v p) (ruleMembers h w p) := by
  refine .cons ⟨rfl, like_withValue (opens.fieldOf .action) fun _ _ related =>
    like_action tracks (tracks.opens related)⟩ ?_
  exact like_ifTruthy tracks (opens.fieldOf .constraints) fun _ _ related =>
    like_elements tracks related fun i _ _ => .place .constraint _

theorem like_rule (tracks : g.Tracks h R) (opens : g.Opens h R v w) :
    Like g h R (rule g v p) (rule h w p) := by
  have shared := like_ruleMembers (p := p) tracks opens
  unfold rule
  rw [opens.copies.nodeClass?]
  split
  · exact .ofMembers (shared.append (like_ifTruthy tracks (opens.fieldOf .duties) fun _ _ related =>
      like_elements tracks related fun i _ _ => .place (.rule .duty) _))
  · exact .ofMembers shared
  · exact .ofMembers (shared.append (like_ifPresent tracks (opens.fieldOf .consequence) fun _ _ =>
      .place (.rule .duty) _))
  · exact like_unsupported tracks opens.copies

/-- What stands at a place of the outline of a copy is a copy. -/
theorem like_ofSpot (tracks : g.Tracks h R) (opens : g.Opens h R v w) (s : Spot) :
    Like g h R (ofSpot g s v p) (ofSpot h s w p) := by
  cases s with
  | rule kind => exact like_rule tracks opens
  | constraint => exact like_constraint tracks opens

theorem like_policyRules (tracks : g.Tracks h R) (opens : g.Opens h R v w) (f : Field)
    (kind : NodeClass) (step : Nat → PathStep) :
    Like g h R (policyRules g v f kind step) (policyRules h w f kind step) :=
  like_withValue (opens.fieldOf f) fun _ _ related =>
    like_elements tracks related fun _ _ _ => .place (.rule kind) _

theorem like_identifierMember (copy : g.Copies h v w) :
    Entrywise (Like g h R) (identifierMember key v) (identifierMember key w) := by
  have item : Entrywise (Like g h R) [(key, identifier v)] [(key, identifier w)] :=
    .cons ⟨rfl, like_identifier copy⟩ .nil
  cases copy with
  | absent => exact .nil
  | _ => exact item

/-- The outline of a copied policy is that of the policy with copies in its places. -/
theorem like_policy (tracks : g.Tracks h R) (opens : g.Opens h R v w) (id : Text)
    (type : PolicyType) {a a' b b' : Value} (assignee : g.Copies h a a')
    (assigner : g.Copies h b b') :
    Like g h R (policy g v id type a b) (policy h w id type a' b') := by
  refine .ofMembers (Entrywise.append (Entrywise.append (Entrywise.append ?_
    (like_identifierMember assignee)) (like_identifierMember assigner)) ?_)
  · exact .cons ⟨rfl, .leaf (.text _)⟩ (.cons ⟨rfl, .leaf (.text _)⟩
      (.cons ⟨rfl, like_policyRules tracks opens _ _ _⟩
        (.cons ⟨rfl, like_policyRules tracks opens _ _ _⟩
          (.cons ⟨rfl, like_policyRules tracks opens _ _ _⟩ .nil))))
  · exact like_ifPresent tracks (opens.fieldOf .target) fun _ _ related =>
      like_identifier (tracks.copies related)

end Outline

end UsagePolicy
