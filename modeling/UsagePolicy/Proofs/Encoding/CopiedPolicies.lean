import UsagePolicy.Proofs.Encoding.CopiedOutlines
import UsagePolicy.Proofs.Encoding.Visitor
import UsagePolicy.Proofs.Graph.Unfolded

/-!
# Encodings of copied policies

The walk looks at the identity of a node only to see whether the node stands on the active path. In a
policy without cycles it never does: whatever is on the path contains the node that is entered next.
So the walks through a policy and through a copy of it go side by side, and sharing makes no
difference to what they come to.
-/

namespace UsagePolicy

namespace Graph

open Relation

variable {g h : Graph} {v w x y : Value} {r s : Ref} {up up' : List (Option Ref)} {p : Path}

/-! ## What stands inside of what -/

/-- The nodes that the value holds stand inside of every node on the active path. -/
def Beneath (g : Graph) (up : List (Option Ref)) (v : Value) : Prop :=
  ∀ q r, some q ∈ up → v.Holds (.node r) → TransGen g.Refers q r

theorem beneath_nil (g : Graph) (v : Value) : g.Beneath [] v := nofun

theorem Beneath.tail {a : Option Ref} (beneath : g.Beneath (a :: up) v) : g.Beneath up v :=
  fun q r member => beneath q r (.tail a member)

/-- What stands in a field of a value stands inside of the value too. -/
theorem Beneath.fieldOf (beneath : g.Beneath up v) {f : Field} (hx : g.fieldOf v f = .ok x) :
    g.Beneath (Trail.mark v :: up) x := by
  intro q s member holds
  obtain ⟨r, rfl, step⟩ := refers_of_fieldOf hx holds
  rcases List.mem_cons.mp member with self | above
  · obtain rfl := Option.some.inj self
    exact .single step
  · exact (beneath q r above (.self _)).tail step

theorem Beneath.elements (beneath : g.Beneath up v) {xs : List Value}
    (hxs : g.elements? v = some xs) (hx : x ∈ xs) : g.Beneath up x := by
  intro q s above holds
  rcases holds_of_elements hxs hx holds with inside | ⟨r, rfl, step⟩
  · exact beneath q s above inside
  · exact (beneath q r above (.self _)).tail step

/-- A value that stands inside of everything on the active path is not on it, unless there is a
cycle. -/
theorem Copies.not_holds (c : g.Copies h v w) (beneath : g.Beneath up v) {t : Trail}
    (active : t.active = up) : t.holds v = false := by
  cases v with
  | node r =>
    rw [Trail.holds, active, Bool.eq_false_iff]
    intro member
    exact c.not_cyclic (.self _) (beneath r r (List.contains_iff_mem.mp member) (.self _))
  | _ => rfl

/-! ## Copies beneath active paths -/

/-- Copies, both of them inside of everything on their active paths. -/
structure CopiesBeneath (g h : Graph) (up up' : List (Option Ref)) (v w : Value) : Prop where
  copies : g.Copies h v w
  beneath : g.Beneath up v
  beneath' : h.Beneath up' w

theorem Copies.fieldOf (c : g.Copies h v w) (f : Field) :
    ComesOutAlike (g.Copies h) (g.fieldOf v f) (h.fieldOf w f) := by
  have name := c.typeName
  cases c with
  | @node r s n m hn hm kind length names each =>
    have c : g.Copies h (.node r) (.node s) := .node hn hm kind length names each
    have read := c.get? hn hm f
    simp only [Graph.fieldOf, hn, hm, Option.bind_some, name]
    cases hx : n.get? f <;> cases hy : m.get? f <;> rw [hx, hy] at read <;> cases read
    · exact .error (.same _)
    · next copy => exact .ok copy
  | _ => exact .error (.same _)

/-- What a value is looked at for when it is entered stands inside of it. -/
theorem CopiesBeneath.opens (c : g.CopiesBeneath h up up' v w) :
    g.Opens h (g.CopiesBeneath h (Trail.mark v :: up) (Trail.mark w :: up')) v w where
  copies := c.copies
  fieldOf f := by
    have read := c.copies.fieldOf f
    cases hx : g.fieldOf v f <;> cases hy : h.fieldOf w f <;> rw [hx, hy] at read <;> cases read
    · next alike => exact .error alike
    · next copy => exact .ok ⟨copy, c.beneath.fieldOf hx, c.beneath'.fieldOf hy⟩

theorem CopiesBeneath.tail {a b : Option Ref} (c : g.CopiesBeneath h (a :: up) (b :: up') v w) :
    g.CopiesBeneath h up up' v w :=
  ⟨c.copies, c.beneath.tail, c.beneath'.tail⟩

theorem tracks_copiesBeneath (hg : g.Closed) (hh : h.Closed) (up up' : List (Option Ref)) :
    g.Tracks h (g.CopiesBeneath h up up') where
  closed := hg
  closed' := hh
  opens c := ⟨c.copies, fun f => (c.opens.fieldOf f).mono fun _ _ => CopiesBeneath.tail⟩
  elements {v w} c := by
    have read := c.copies.elements?
    cases hx : g.elements? v <;> cases hy : h.elements? w <;> rw [hx, hy] at read <;> cases read
    · exact .none
    · next copies =>
      refine .some (List.forall₂_iff_zip.mpr ⟨copies.length_eq, fun pair => ?_⟩)
      have member := List.of_mem_zip pair
      exact ⟨List.forall₂_zip copies pair, c.beneath.elements hx member.1,
        c.beneath'.elements hy member.2⟩

/-! ## Walks side by side -/

theorem CopiesBeneath.refusal? (hg : g.Closed) (hh : h.Closed)
    (c : g.CopiesBeneath h up up' v w) {t t' : Trail} (active : t.active = up)
    (active' : t'.active = up') (s : Spot) (p : Path) :
    UsagePolicy.refusal? g s v p t = UsagePolicy.refusal? h s w p t' := by
  have free := c.copies.not_holds c.beneath active
  have free' := c.copies.symm.not_holds c.beneath' active'
  simp only [UsagePolicy.refusal?, c.copies.nodeClass?, c.copies.typeName,
    c.copies.unsupported hg hh p, free, free']

end Graph

theorem Trail.Matches.push {up up' : List (Option Ref)} {t t' : Trail}
    (stand : Trail.Matches up up' t t') (length : up.length = up'.length) (v w : Value) :
    Trail.Matches (Trail.mark v :: up) (Trail.mark w :: up') (t.push v) (t'.push w) := by
  obtain ⟨rfl, rfl, deepest⟩ := stand
  exact ⟨rfl, rfl, by simp only [Trail.push, deepest, length]⟩

theorem Trail.Matches.pop {a b : Option Ref} {up up' : List (Option Ref)} {t t' : Trail}
    (stand : Trail.Matches (a :: up) (b :: up') t t') :
    Trail.Matches up up' t.pop t'.pop :=
  ⟨congrArg List.tail stand.active, congrArg List.tail stand.active', stand.deepest⟩

namespace Graph

variable {g h : Graph} {v w : Value} {up up' : List (Option Ref)} {limit : Int}

/-- Visits of copies come out alike, if both stand inside of everything on their active paths. -/
theorem visit_alike (hg : g.Closed) (hh : h.Closed) (limit : Int) (room : Nat) (s : Spot) (p : Path)
    (length : up.length = up'.length) (c : g.CopiesBeneath h up up' v w) :
    Walk.Alike (g.Copies h) up up' (visit g limit room s v p) (visit h limit room s w p) := by
  -- by the room; entering puts the copies on their paths, and their parts stand inside of them
  induction room generalizing up up' s v w p with
  | zero =>
    intro t t' stand
    have refused := c.refusal? hg hh stand.active stand.active' s p
    unfold visit
    rw [refused]
    cases UsagePolicy.refusal? h s w p t' with
    | some e => exact ⟨.error (.same e), stand⟩
    | none => exact ⟨.error (.same _), stand⟩
  | succ room ih =>
    intro t t' stand
    have refused := c.refusal? hg hh stand.active stand.active' s p
    unfold visit
    rw [refused]
    cases UsagePolicy.refusal? h s w p t' with
    | some e => exact ⟨.error (.same e), stand⟩
    | none =>
      have like := Outline.like_ofSpot (p := p) (tracks_copiesBeneath hg hh _ _) c.opens s
      have places : ∀ s p x y,
          g.CopiesBeneath h (Trail.mark v :: up) (Trail.mark w :: up') x y →
            Walk.Alike (g.Copies h) (Trail.mark v :: up) (Trail.mark w :: up')
              (visit g limit room s x p) (visit h limit room s y p) :=
        fun s p _ _ below => ih s p (congrArg (· + 1) length) below
      have filled := like.fill places
      obtain ⟨out, stand⟩ := filled _ _ (stand.push length v w)
      exact ⟨out, stand.pop⟩

theorem visitFrom_alike (hg : g.Closed) (hh : h.Closed) (limit : Int) (s : Spot) (p : Path)
    (length : up.length = up'.length) (c : g.CopiesBeneath h up up' v w) :
    Walk.Alike (g.Copies h) up up' (visitFrom g limit s v p) (visitFrom h limit s w p) := by
  intro t t' stand
  have same : t.active.length = t'.active.length := by rw [stand.active, stand.active', length]
  have visits := visit_alike hg hh limit (limit.toNat - t'.active.length) s p length c t t' stand
  rwa [visitFrom, visitFrom, same]

end Graph

/-! ## Participants of copies -/

/-- The answers of a resolver are the same complaint, or they are copies. -/
inductive AnswersAlike (g h : Graph) : Except Complaint Value → Except Complaint Value → Prop
  | complaint (c : Complaint) : AnswersAlike g h (.error c) (.error c)
  | identifier {v w : Value} : g.Copies h v w → AnswersAlike g h (.ok v) (.ok w)

/-- The resolver answers copies alike: it looks at an identifier, and not at the identity of a node
in it. -/
def Resolver.LooksAtValues (r : Resolver) (g h : Graph) : Prop :=
  ∀ v w, g.Copies h v w → AnswersAlike g h (r.resolve g v) (r.resolve h w)

namespace Resolution

variable {α β γ δ : Type} {R : α → β → Prop} {S : γ → δ → Prop} {x : Resolution α}
  {y : Resolution β} {k : α → Resolution γ} {k' : β → Resolution δ} {g h : Graph} {v w : Value}

theorem bind_alike (first : ComesOutAlike R x.outcome y.outcome)
    (rest : ∀ a b, R a b → ComesOutAlike S (k a).outcome (k' b).outcome) :
    ComesOutAlike S (x.bind k).outcome (y.bind k').outcome := by
  unfold bind
  cases hx : x.outcome <;> cases hy : y.outcome <;> rw [hx, hy] at first <;> cases first
  · next alike => exact .error alike
  · next related => exact rest _ _ related

theorem participantJson_eq (c : g.Copies h v w) (printed : Text) :
    EncodingError.participantJson v printed = EncodingError.participantJson w printed := by
  have same := c.toJson
  unfold EncodingError.participantJson
  cases hv : v.toJson <;> cases hw : w.toJson <;> rw [hv, hw] at same <;> cases same
  rfl

theorem participant_outcome {r : Resolver} {opened : List Slot} {role : Role}
    (given : v ≠ .absent) :
    (participant g r opened role v).outcome = match r.resolve g v with
      | .ok identifier => .ok identifier
      | .error c => .error (match g.plainWithin opened v with
        | .ok printed => .encoding (.unresolved role v printed c)
        | .error flaw => .unprintable flaw .plain) := by
  unfold participant
  split
  · exact absurd rfl given
  · split
    · next answer => rw [answer]
    · next answer => rw [answer]
    · next answer => cases printed : g.plainWithin opened v <;> simp only [answer]

/-- The identifiers of participants that are copies are copies, or there is none for the same
reason. -/
theorem participant_alike {r : Resolver} (looks : r.LooksAtValues g h) (role : Role)
    (c : g.Copies h v w) {opened opened' : List Slot}
    (printed : g.plainWithin opened v = h.plainWithin opened' w) :
    ComesOutAlike (g.Copies h) (participant g r opened role v).outcome
      (participant h r opened' role w).outcome := by
  by_cases absent : v = .absent
  · subst absent
    cases c
    exact .ok .absent
  · have absent' : w ≠ .absent := by
      rintro rfl
      cases c
      exact absent rfl
    have answers := looks v w c
    rw [participant_outcome absent, participant_outcome absent', printed]
    cases hv : r.resolve g v <;> cases hw : r.resolve h w <;> rw [hv, hw] at answers <;> cases answers
    · dsimp only
      split
      · exact .error (.encoding ⟨rfl, rfl, by
          simp only [EncodingError.details, participantJson_eq c], rfl⟩)
      · exact .error (.same _)
    · next copy => exact .ok copy

theorem both_alike (hg : g.Closed) (hh : h.Closed) {r : Resolver} (looks : r.LooksAtValues g h)
    (c : g.Copies h v w) :
    ComesOutAlike (fun a b => g.Copies h a.1 b.1 ∧ g.Copies h a.2 b.2) (both g r v).outcome
      (both h r w).outcome := by
  have roles : ∀ role : Role, ComesOutAlike (g.Copies h) (Resolution.role g r v role).outcome
      (Resolution.role h r w role).outcome := by
    intro role
    have read := c.fieldOf role.field
    unfold Resolution.role
    cases hx : g.fieldOf v role.field <;> cases hy : h.fieldOf w role.field <;>
      rw [hx, hy] at read <;> cases read
    · next alike => exact .error alike
    · next copy => exact participant_alike looks role copy (c.plain_field hg hh hx hy copy)
  exact bind_alike (roles .assignee) fun _ _ assignee => bind_alike (roles .assigner)
    fun _ _ assigner => .ok ⟨assignee, assigner⟩

end Resolution

/-! ## Encodings of copies -/

/-- What two encodings come to is alike: apart from the identifier the documents are the same, or
copies if there are nodes in them, or else the failures are alike, and the walks went as deep. -/
structure Encoding.Alike (g h : Graph) (run run' : Encoding) : Prop where
  outcome : ComesOutAlike (g.Copies h) run.result.1 run'.result.1
  document : ∀ d, run.result.1 = .ok d → (∀ r, ¬ d.Holds (.node r)) → run'.result.1 = .ok d
  deepest : run.result.2 = run'.result.2

theorem Encoding.Alike.ofOutcome {g h : Graph} {run run' : Encoding}
    (outcome : ComesOutAlike (g.Copies h) run.result.1 run'.result.1)
    (deepest : run.result.2 = run'.result.2) : Encoding.Alike g h run run' where
  outcome := outcome
  document := by
    intro d ok plain
    rw [ok] at outcome
    generalize run'.result.1 = out at outcome
    cases outcome with
    | ok copy => rw [copy.eq_of_plain plain]
  deepest := deepest

namespace Graph

variable {g h : Graph} {v w : Value} {limit : Int} {r : Resolver} {id : Text}

theorem policyType_alike (hg : g.Closed) (hh : h.Closed) (c : g.Copies h v w) :
    ComesOutAlike Eq (Encoding.policyType g v) (Encoding.policyType h w) := by
  have read := c.fieldOf .type
  unfold Encoding.policyType
  cases hx : g.fieldOf v .type <;> cases hy : h.fieldOf w .type <;> rw [hx, hy] at read <;>
    cases read
  · next alike => exact .error alike
  · next x y copy =>
    have same : Outline.policyType? x = Outline.policyType? y :=
      congrArg (Option.bind · PolicyType.ofName?) copy.text?
    dsimp only
    rw [same, copy.unsupported hg hh]
    split
    · exact .ok rfl
    · exact .error (.same _)

theorem Copies.withoutId (c : g.Copies h v w) : g.Copies h v.withoutId w.withoutId := by
  have whole := c
  cases c with
  | dict length names each =>
    have entries := Entrywise.ofZip (R := g.Copies h) length names each
    exact .ofEntries (entries.filter (· != Term.id))
  | _ => exact whole

theorem result_rules_error {type : PolicyType} {t : Trail} {e : Failure}
    (resolved : (Resolution.both g r v).outcome = .error e) :
    (Encoding.rules g limit r id v type t).result = (.error e, t.deepest) := by
  simp only [Encoding.rules, Encoding.result, resolved, Except.map]

theorem result_rules_ok {type : PolicyType} {t : Trail} {a b : Value}
    (resolved : (Resolution.both g r v).outcome = .ok (a, b)) :
    (Encoding.rules g limit r id v type t).result =
      (((Outline.policy g v id type a b).fill (visitFrom g limit) t).1.map Value.withoutId,
        ((Outline.policy g v id type a b).fill (visitFrom g limit) t).2.deepest) := by
  simp only [Encoding.rules, Encoding.result, resolved]
  generalize (Outline.policy g v id type a b).fill (visitFrom g limit) t = walked
  obtain ⟨out, u⟩ := walked
  cases out <;> rfl

theorem rules_alike (hg : g.Closed) (hh : h.Closed) (limit : Int) (looks : r.LooksAtValues g h)
    (id : Text) (type : PolicyType) (c : g.Copies h v w) :
    Encoding.Alike g h (Encoding.rules g limit r id v type .start)
      (Encoding.rules h limit r id w type .start) := by
  have resolved := Resolution.both_alike hg hh looks c
  cases hx : (Resolution.both g r v).outcome <;> cases hy : (Resolution.both h r w).outcome <;>
    rw [hx, hy] at resolved <;> cases resolved
  · next alike =>
    apply Encoding.Alike.ofOutcome
    · rw [result_rules_error hx, result_rules_error hy]
      exact .error alike
    · rw [result_rules_error hx, result_rules_error hy]
  · next both both' copies =>
    have below : g.CopiesBeneath h [] [] v w := ⟨c, g.beneath_nil v, h.beneath_nil w⟩
    have tracks := tracks_copiesBeneath hg hh [] []
    have like := Outline.like_policy tracks (tracks.opens below) id type copies.1 copies.2
    have places : ∀ s p x y, g.CopiesBeneath h [] [] x y →
        Walk.Alike (g.Copies h) [] [] (visitFrom g limit s x p) (visitFrom h limit s y p) :=
      fun s p _ _ below => visitFrom_alike hg hh limit s p rfl below
    have filled := like.fill places
    obtain ⟨out, stand⟩ := filled .start .start ⟨rfl, rfl, rfl⟩
    apply Encoding.Alike.ofOutcome
    · rw [result_rules_ok hx, result_rules_ok hy]
      exact out.map fun _ _ => Copies.withoutId
    · rw [result_rules_ok hx, result_rules_ok hy]
      exact stand.deepest

theorem policyFrom_alike (hg : g.Closed) (hh : h.Closed) (limit : Int)
    (looks : r.LooksAtValues g h) (id : Text) (c : g.Copies h v w) :
    Encoding.Alike g h (Encoding.policyFrom g limit r id v .start)
      (Encoding.policyFrom h limit r id w .start) := by
  unfold Encoding.policyFrom
  rw [c.nodeClass?, c.typeName]
  split
  · have types := policyType_alike hg hh c
    cases hx : Encoding.policyType g v <;> cases hy : Encoding.policyType h w <;>
      rw [hx, hy] at types <;> cases types
    · next alike => exact .ofOutcome (.error alike) rfl
    · next type same =>
      subst same
      exact rules_alike hg hh limit looks id _ c
  · exact .ofOutcome (.error (.same _)) rfl

end Graph

end UsagePolicy
