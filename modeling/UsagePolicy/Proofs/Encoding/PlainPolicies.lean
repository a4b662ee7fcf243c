import UsagePolicy.Proofs.Encoding.DepictedNesting
import UsagePolicy.Proofs.Encoding.EqualPolicies
import UsagePolicy.Proofs.Encoding.Nesting
import UsagePolicy.Proofs.Graph.TypedGrowth

/-!
# Encodings of plain policies

A plain policy that is put into a graph of its own is well-typed there. If no participant makes the
resolver complain, it is encoded exactly if its nesting keeps to the limit, and its document is then
a function of the policy, of the names of its participants and of the identifier alone.
-/

namespace UsagePolicy

/-- The resolver names participants by a function and never complains. -/
def Resolver.NamesBy (r : Resolver) (names : Text → Option Text) : Prop :=
  ∀ g t, r.resolve g (.text t) = .ok (.ofText? (names t))

/-- The document of a policy with an identifier, the participants being named by a function. -/
def Policy.namedDocument (p : Policy) (id : Text) (names : Text → Option Text) : Value :=
  .dict ((Term.id, .text id) :: p.documentEntries ((p.assignee.bind names).map .text)
    ((p.assigner.bind names).map .text))

namespace Graph

variable {p : Policy} {r : Resolver} {names : Text → Option Text}

theorem not_complains_grow (named : r.NamesBy names) (g : Graph) :
    ¬ r.Complains (p.grow g).2 (p.grow g).1 := by
  rintro ⟨role, x, c, hx, given, complaint⟩
  rw [fieldOf_participant] at hx
  obtain rfl := Except.ok.inj hx
  cases ht : p.participant role with
  | none =>
    rw [ht] at given
    exact given rfl
  | some t =>
    rw [ht, Value.ofText?, named _ t] at complaint
    cases complaint

theorem given?_answer_grow (named : r.NamesBy names) (g : Graph) (role : Role) :
    (r.answer (p.grow g).2 (p.grow g).1 role).normal.given? =
      ((p.participant role).bind names).map .text := by
  unfold Resolver.answer
  rw [fieldOf_participant]
  cases p.participant role with
  | none => rfl
  | some t =>
    simp only [Value.ofText?, named _ t, Option.bind_some]
    cases names t <;> rfl

theorem normal_document_grow (named : r.NamesBy names) (g : Graph) {limit : Int} {id : Text}
    {t : Trail} {encoded : Encoded}
    (ok : (Encoding.policyFrom (p.grow g).2 limit r id (p.grow g).1 t).outcome = .ok encoded) :
    encoded.document.normal = p.namedDocument id names := by
  rw [normal_document (gives_policy p g).holds ok, given?_answer_grow named,
    given?_answer_grow named]
  rfl

/-- A well-typed policy whose nesting is known is encoded if that keeps to the limit, and cannot be
encoded otherwise. -/
theorem WellTyped.outcome_of_isGreatest {g : Graph} {v : Value} (h : g.WellTyped v)
    (answers : ¬ r.Complains g v) {n : Nat} (greatest : IsGreatest (g.chains v) n) {limit : Int}
    (hd : 1 ≤ limit) {id : Text} {run : Encoding}
    (hrun : Encoding.policyFrom g limit r id v .start = run) :
    (∃ encoded, run.outcome = .ok encoded ∧ (n : Int) ≤ limit) ∨
      ∃ e, run.outcome = .error (.encoding e) ∧ limit < n := by
  have report := policyFrom_reports g limit r id v hrun
  cases hout : run.outcome with
  | ok encoded =>
    have ended : (ending run).1 = .ok () := by
      rw [ending, Walk.ending, hout]
      rfl
    obtain ⟨deepest, kept⟩ := policyFrom_isGreatest_deepest hrun ended
    have covered : n ≤ run.trail.deepest := deepest.2 greatest.1
    exact .inl ⟨encoded, rfl, by omega⟩
  | error e =>
    have ended : (ending run).1 = .error e := by
      rw [ending, Walk.ending, hout]
      rfl
    rw [ended] at report
    rcases report with ⟨complains, -⟩ | ⟨e, rfl, first⟩ | ⟨-, stall⟩
    · exact absurd complains answers
    · refine .inr ⟨e, rfl, Int.not_le.mp fun kept => ?_⟩
      -- a nesting within the limit bounds all chains, so there is no cycle either
      have bounded : ∀ k ∈ g.chains v, k ≤ limit.toNat := fun k hk => by
        have := greatest.2 hk
        omega
      exact (h.depthExceeded_of_firstFaultAt first).2 ⟨h.acyclic_of_bounded bounded, bounded⟩
    · exact absurd stall (h.not_stallsAt e)

/-- A plain policy with named participants is encoded exactly if its nesting keeps to the limit. -/
theorem outcome_of_plain (plain : p.Plain) (named : r.NamesBy names) {limit : Int}
    (hd : 1 ≤ limit) {id : Text} {run : Encoding}
    (hrun : Encoding.policyFrom (p.grow .empty).2 limit r id (p.grow .empty).1 .start = run) :
    (∃ encoded, run.outcome = .ok encoded ∧ (p.nesting : Int) ≤ limit ∧
      encoded.document.normal = p.namedDocument id names) ∨
    ∃ e, run.outcome = .error (.encoding e) ∧ limit < p.nesting := by
  have depicted : (p.grow .empty).2.Depicts (p.grow .empty).1 p := (gives_policy p .empty).holds
  rcases plain.wellTyped.outcome_of_isGreatest (not_complains_grow named .empty)
    depicted.isGreatest_nesting hd hrun with ⟨encoded, ok, kept⟩ | failed
  · refine .inl ⟨encoded, ok, kept, ?_⟩
    rw [← hrun] at ok
    exact normal_document_grow named .empty ok
  · exact .inr failed

end Graph

end UsagePolicy
