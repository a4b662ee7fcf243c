import UsagePolicy.Proofs.Encoding.ActivePath
import UsagePolicy.Proofs.Encoding.Sequence
import UsagePolicy.Proofs.Encoding.Visitor

/-!
# Higher limits

The limit shows in an outcome only as the error that it is exceeded. Every other outcome is come to
before any path below the limit is used up, so it is the same with every higher limit, on whatever
graph.
-/

namespace UsagePolicy

/-- An error whose details name the limit. -/
def EncodingError.NamesLimit (e : EncodingError) : Prop :=
  ("max_depth" : Text) ∈ e.details.map Prod.fst

theorem EncodingError.namesLimit_iff {e : EncodingError} :
    e.NamesLimit ↔ ∃ p n, e = .tooDeep p n := by
  constructor
  · intro named
    cases e with
    | tooDeep p n => exact ⟨p, n, rfl⟩
    | notAPolicy _ | unsupported _ _ _ | unsupportedOperator _ _ | cyclic _ _
    | unresolved _ _ _ _ =>
      simp only [NamesLimit, details, List.map] at named
      exact absurd named (by decide)
  · rintro ⟨p, n, rfl⟩
    exact .tail _ (.head _)

/-- An outcome other than that the limit is exceeded. -/
def Settled {α : Type} (out : Except Failure α) : Prop :=
  ∀ e, out = .error (.encoding e) → ¬ e.NamesLimit

section

variable {α β : Type} {g : Graph} {f f' : Filler} {limit limit' : Int} {t : Trail} {e : Failure}

theorem settled_ok (a : α) : Settled (.ok a) := nofun

theorem settled_error : Settled (α := α) (.error e) ↔ Settled (α := β) (.error e) := by
  simp [Settled]

theorem not_settled_tooDeep (p : Path) (n : Int) :
    ¬ Settled (α := α) (.error (.encoding (.tooDeep p n))) :=
  fun settled => settled _ rfl (EncodingError.namesLimit_iff.mpr ⟨p, n, rfl⟩)

theorem Settled.of_map {out : Except Failure α} {k : α → β} (settled : Settled (out.map k)) :
    Settled out := by
  rintro e rfl
  exact settled e rfl

end

/-- The second step does what the first one does wherever that does not exceed the limit. -/
def Walk.Agrees {α : Type} (w w' : Walk α) : Prop := ∀ t, Settled (w t).1 → w' t = w t

theorem Walk.sequential_agrees : Walk.Sequential fun _ => Walk.Agrees where
  result _ := fun _ _ => rfl
  failure _ := fun _ _ => rfl
  andThen {_ _ w w' k k'} first rest := by
    intro t settled
    have same := first t
    unfold Walk.andThen at settled ⊢
    cases done : w t with
    | mk out u =>
      rw [done] at settled same
      cases out with
      | error e => rw [same (settled_error.mp settled)]
      | ok a =>
        rw [same (settled_ok a)]
        exact rest a u settled

/-- The second filler fills places as the first one does wherever that does not exceed the limit. -/
def Filler.Agrees (f f' : Filler) : Prop := ∀ s v p, Walk.Agrees (f s v p) (f' s v p)

theorem Outline.fill_agrees {f f' : Filler} (agrees : f.Agrees f') (o : Outline) :
    Walk.Agrees (o.fill f) (o.fill f') :=
  o.fill_related f f' Walk.sequential_agrees agrees

section

variable {g : Graph} {limit limit' : Int} {r : Resolver} {id : Text} {v : Value} {t : Trail}

/-! ## Walks with more room -/

theorem visit_agrees {room room' : Nat} (more : room ≤ room') :
    Filler.Agrees (visit g limit room) (visit g limit' room') := by
  -- by the room: only a walk that has none left looks at the limit
  induction room generalizing room' with
  | zero =>
    intro s v p t settled
    unfold visit at settled ⊢
    cases entered : refusal? g s v p t with
    | some e => rfl
    | none =>
      rw [entered] at settled
      exact absurd settled (not_settled_tooDeep p limit)
  | succ room ih =>
    intro s v p t settled
    obtain ⟨room', rfl⟩ : ∃ m, room' = m + 1 := ⟨room' - 1, by omega⟩
    unfold visit at settled ⊢
    cases entered : refusal? g s v p t with
    | some e => rfl
    | none =>
      rw [entered] at settled
      have filled := Outline.fill_agrees (ih (Nat.le_of_succ_le_succ more))
        (Outline.ofSpot g s v p) (t.push v) settled
      dsimp only
      rw [filled]

theorem visitFrom_agrees (higher : limit ≤ limit') :
    Filler.Agrees (visitFrom g limit) (visitFrom g limit') := by
  intro s v p t
  have more : limit.toNat - t.active.length ≤ limit'.toNat - t.active.length :=
    Nat.sub_le_sub_right (Int.toNat_le_toNat higher) _
  exact visit_agrees more s v p t

/-! ## Encodings with higher limits -/

namespace Graph

theorem rules_of_settled (higher : limit ≤ limit') {type : PolicyType}
    (settled : Settled (Encoding.rules g limit r id v type t).outcome) :
    Encoding.rules g limit' r id v type t = Encoding.rules g limit r id v type t := by
  unfold Encoding.rules at settled ⊢
  cases resolved : (Resolution.both g r v).outcome with
  | error e => simp only [resolved]
  | ok both =>
    simp only [resolved] at settled ⊢
    rw [Outline.fill_agrees (visitFrom_agrees higher) _ t settled.of_map]

/-- An encoding that does not exceed the limit is the same with every higher one. -/
theorem policyFrom_of_settled (higher : limit ≤ limit')
    (settled : Settled (Encoding.policyFrom g limit r id v t).outcome) :
    Encoding.policyFrom g limit' r id v t = Encoding.policyFrom g limit r id v t := by
  unfold Encoding.policyFrom at settled ⊢
  by_cases policy : g.nodeClass? v = some .policy
  · rw [if_pos policy] at settled
    rw [if_pos policy, if_pos policy]
    cases known : Encoding.policyType g v with
    | error e => rfl
    | ok type =>
      rw [known] at settled
      exact rules_of_settled higher settled
  · rw [if_neg policy, if_neg policy]

/-- An encoding that does not fail because the limit is exceeded comes to the same with every higher
limit: the same document apart from its identifier or the same failure, and as deep a walk. -/
theorem encode_of_settled (g : Graph) (limit limit' : Int) (asked asked' : Option Int)
    (hd : 1 ≤ asked.getD limit) (higher : asked.getD limit ≤ asked'.getD limit')
    (resolver : ResolverArgument) (id id' : Text) (v : Value)
    (settled : ∀ run, encode g limit asked resolver id v = .ok run → Settled run.outcome) :
    (encode g limit' asked' resolver id' v).map Encoding.result =
      (encode g limit asked resolver id v).map Encoding.result := by
  have hd' : 1 ≤ asked'.getD limit' := Int.le_trans hd higher
  cases hr : resolver.normalize with
  | error typeName => rw [encode_refused hd hr, encode_refused hd' hr]
  | ok r =>
    have same := policyFrom_of_settled higher (settled _ (encode_eq hd hr))
    rw [encode_eq hd hr, encode_eq hd' hr]
    show Except.ok _ = Except.ok _
    rw [result_policyFrom_identified g _ r id' id, same]

/-- With a limit of two the walk finds the cycle, and it finds the same one with a higher limit. -/
theorem mutualConsequence_settled :
    (∀ run, encode mutualConsequence 64 (some 2) (.resolver .identity) "one" (.node 0) = .ok run →
      Settled run.outcome) ∧
    (encode mutualConsequence 64 none (.resolver .identity) "two" (.node 0)).map Encoding.result =
      (encode mutualConsequence 64 (some 2) (.resolver .identity) "one" (.node 0)).map
        Encoding.result := by
  have settled : ∀ run,
      encode mutualConsequence 64 (some 2) (.resolver .identity) "one" (.node 0) = .ok run →
        Settled run.outcome := by
    rintro run encoded e failed named
    obtain ⟨p, n, rfl⟩ := EncodingError.namesLimit_iff.mp named
    obtain rfl := Except.ok.inj encoded
    obtain ⟨p', name, cyclic⟩ : ∃ p' name,
        (Encoding.policyFrom mutualConsequence 2 .identity "one" (.node 0) .start).outcome =
          .error (.encoding (.cyclic p' name)) := ⟨_, _, rfl⟩
    cases cyclic.symm.trans failed
  exact ⟨settled, encode_of_settled mutualConsequence 64 64 (some 2) none (by decide) (by decide)
    (.resolver .identity) "one" "two" (.node 0) settled⟩

end Graph

end

end UsagePolicy
