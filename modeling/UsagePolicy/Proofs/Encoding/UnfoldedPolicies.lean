import UsagePolicy.Proofs.Encoding.CopiedPolicies
import UsagePolicy.Proofs.Encoding.Nesting

/-!
# Encodings of unfolded policies

A policy without cycles and the tree that it is unfolded into are encoded alike, with whatever limit:
the guard against cycles never takes a node that is only shared for one that contains itself.
-/

namespace UsagePolicy

namespace Graph

open Relation

variable {g h : Graph} {v w x : Value} {q : Ref} {s : PathStep} {ss : List PathStep}

/-! ## Policies without cycles -/

theorem transGen_of_follow (hx : g.follow? v s = some x) (holds : x.Holds (.node q)) :
    ∃ r, v = .node r ∧ TransGen g.Refers r q := by
  cases hi : s.index? with
  | none =>
    obtain ⟨-, hx, -⟩ := (follow?_of_single hi).mp hx
    obtain ⟨r, rfl, step⟩ := refers_of_fieldOf hx holds
    exact ⟨r, rfl, .single step⟩
  | some i =>
    obtain ⟨-, y, ys, hy, hys, hx⟩ := (follow?_of_index hi).mp hx
    rcases holds_of_elements hys (List.mem_of_getElem? hx) holds with inside | ⟨p, rfl, last⟩
    · obtain ⟨r, rfl, step⟩ := refers_of_fieldOf hy inside
      exact ⟨r, rfl, .single step⟩
    · obtain ⟨r, rfl, step⟩ := refers_of_fieldOf hy (.self _)
      exact ⟨r, rfl, .tail (.single step) last⟩

/-- A way that steps take leads along references. -/
theorem transGen_of_reach (hx : g.reach? v ss = some x) (hss : ss ≠ []) (holds : x.Holds (.node q)) :
    ∃ r, v = .node r ∧ TransGen g.Refers r q := by
  induction ss generalizing v with
  | nil => exact absurd rfl hss
  | cons s ss ih =>
    obtain ⟨y, hy, hx⟩ := reach?_cons_eq_some.mp hx
    cases ss with
    | nil =>
      obtain rfl := Option.some.inj hx
      exact transGen_of_follow hy holds
    | cons s' ss =>
      obtain ⟨p, rfl, rest⟩ := ih hx (List.cons_ne_nil _ _)
      obtain ⟨r, rfl, first⟩ := transGen_of_follow hy (.self _)
      exact ⟨r, rfl, first.trans rest⟩

/-- No path leads from a node back to it. -/
theorem CycleFree.acyclic_paths (free : g.CycleFree v) : g.Acyclic v := by
  intro ss r ts hr hts back
  obtain ⟨_, ⟨⟩, cycle⟩ := transGen_of_reach back hts (.self _)
  by_cases hss : ss = []
  · subst hss
    obtain rfl := Option.some.inj hr
    exact free.acyclic r r (.self _) .refl cycle
  · obtain ⟨s, rfl, reached⟩ := transGen_of_reach hr hss (.self _)
    exact free.acyclic s r (.self _) reached.to_reflTransGen cycle

/-- The encoding of a policy without cycles does not fail because a node is cyclic. -/
theorem CycleFree.not_cyclic (free : g.CycleFree v) (limit : Int) (r : Resolver) (id : Text)
    (p : Path) (name : Text) :
    (Encoding.policyFrom g limit r id v .start).outcome ≠ .error (.encoding (.cyclic p name)) := by
  intro failed
  have report := policyFrom_reports g limit r id v rfl
  rw [ending, Walk.ending, failed] at report
  rcases report with ⟨-, participant⟩ | ⟨e, same, first⟩ | ⟨other, -⟩
  · cases participant _ rfl
  · cases same
    obtain ⟨ss, x, -, hx, ⟨r, member, rfl⟩, -⟩ := first
    rcases exists_of_mem_above member with none | ⟨front, back, rfl, hb, hr⟩
    · cases none
    · rw [reach?_append, hr] at hx
      exact free.acyclic_paths front r back hr hb hx
  · exact other _ rfl

end Graph

/-! ## Resolvers that look at values -/

namespace Resolver

variable {g h : Graph}

theorem identity_looksAtValues (g h : Graph) : Resolver.identity.LooksAtValues g h :=
  fun _ _ copy => .identifier copy

end Resolver

/-- Whatever resolver is given, it looks at values. -/
def ResolverArgument.LooksAtValues (resolver : ResolverArgument) (g h : Graph) : Prop :=
  ∀ r, resolver.normalize = .ok r → r.LooksAtValues g h

namespace Graph

open Relation

variable {g h : Graph} {v w : Value}

/-! ## Policies and trees -/

/-- Two encodings are refused for the same reason, or what they come to is alike. -/
inductive EncodesAlike (g h : Graph) :
    Except Refusal Encoding → Except Refusal Encoding → Prop
  | refused (why : Refusal) : EncodesAlike g h (.error why) (.error why)
  | encoded {run run' : Encoding} : Encoding.Alike g h run run' →
    EncodesAlike g h (.ok run) (.ok run')

theorem encode_alike (hg : g.Closed) (hh : h.Closed) (c : g.Copies h v w) (limit : Int)
    (asked : Option Int) {resolver : ResolverArgument} (looks : resolver.LooksAtValues g h)
    (id id' : Text) :
    EncodesAlike g h (encode g limit asked resolver id v)
      (encode h limit asked resolver id' w) := by
  unfold encode
  cases asked.filter (· < 1) with
  | some n => exact .refused (.limit n)
  | none =>
    cases hr : resolver.normalize with
    | error name => exact .refused (.resolver name)
    | ok r =>
      have alike := policyFrom_alike hg hh (asked.getD limit) (looks r hr) id c
      have identified := result_policyFrom_identified h (asked.getD limit) r id' id w .start
      refine .encoded (.ofOutcome ?_ ?_)
      · rw [identified]
        exact alike.outcome
      · rw [identified]
        exact alike.deepest

/-- A policy below which no node contains itself is unfolded into a tree, it is encoded like every
such tree with whatever limit, and the encoding never fails because a node is cyclic. -/
theorem encode_unfolded (g : Graph) (v : Value) (free : g.CycleFree v) :
    (∃ h w, g.Unfolds v h w) ∧
      ∀ (limit : Int) (asked : Option Int) (resolver : ResolverArgument) (id : Text),
        (∀ h w, g.Unfolds v h w → resolver.LooksAtValues g h → ∀ id',
          EncodesAlike g h (encode g limit asked resolver id v)
            (encode h limit asked resolver id' w)) ∧
        ∀ run, encode g limit asked resolver id v = .ok run →
          ∀ p name, run.outcome ≠ .error (.encoding (.cyclic p name)) := by
  refine ⟨⟨_, _, free.unfolds⟩, fun limit asked resolver id => ⟨?_, ?_⟩⟩
  · intro h w tree looks id'
    exact encode_alike free.closed tree.closed tree.copies limit asked looks id id'
  · intro run begins p name
    obtain ⟨r, -, rfl⟩ := exists_policyFrom_of_encode begins
    exact free.not_cyclic _ r id p name

/-- References between the nodes lead upwards, so there is no cycle. -/
theorem sharedConsequence_cycleFree : sharedConsequence.CycleFree (.node 0) where
  closed := closed_of_refs (by decide)
  has := has_node.mpr (by decide)
  acyclic := by
    have refs : ∀ r < 3, ∀ s ∈ ((sharedConsequence.node? r).map Node.refs).getD [], r < s := by
      decide
    have upwards : ∀ r s, TransGen sharedConsequence.Refers r s → r < s := by
      intro r s way
      refine TransGen.trans_induction_on way (fun {r s} step => ?_) fun _ _ => Nat.lt_trans
      obtain ⟨n, hn, member⟩ := step.mem_refs
      have inside : r < 3 := (Array.getElem?_eq_some_iff.mp hn).1
      exact refs r inside s (by rw [hn]; exact member)
    exact fun r s _ _ back => Nat.lt_irrefl s (upwards s s back)

/-- The shared duty becomes two duties, and the documents are the same. -/
theorem sharedConsequence_encoded_as_tree :
    sharedConsequence.CycleFree (.node 0) ∧
      (sharedConsequence.unfolded (.node 0)).2.nodes.size = 4 ∧
      EncodesAlike sharedConsequence (sharedConsequence.unfolded (.node 0)).2
        (encode sharedConsequence 64 (some 2) (.resolver .identity) "one" (.node 0))
        (encode (sharedConsequence.unfolded (.node 0)).2 64 (some 2) (.resolver .identity) "two"
          (sharedConsequence.unfolded (.node 0)).1) := by
  have free := sharedConsequence_cycleFree
  refine ⟨free, rfl, ?_⟩
  refine ((encode_unfolded sharedConsequence (.node 0) free).2 64 (some 2) (.resolver .identity)
    "one").1 _ _ free.unfolds ?_ "two"
  rintro r ⟨⟩
  exact Resolver.identity_looksAtValues _ _

end Graph

end UsagePolicy
