import UsagePolicy.Graph.Build
import UsagePolicy.Proofs.Encoding.Policies

/-!
# The path of an error

An encoding error that is due to the encoded values has a path in its details. Followed from the
policy, the path leads to the first position of the policy that is faulty, and the kind of the error
says in what way it is faulty.
-/

namespace UsagePolicy

namespace Graph

variable {g : Graph}

/-- The value at the end of a path from what is encoded is faulty in the way that an error says: a
cyclic node stands on its own path, a value that is too deep has as many different rules and
constraints above it as the limit allows and is none of them, and any other value is no variant that
is allowed where it stands. -/
def FaultySo (g : Graph) (limit : Int) (v : Value) (ss : List PathStep) (x : Value) :
    EncodingError → Prop
  | .cyclic _ _ => (∃ r, x = .node r) ∧
    ∃ front back, ss = front ++ back ∧ back ≠ [] ∧ g.reach? v front = some x
  | .tooDeep _ _ => ((g.above [] v ss).length : Int) = limit ∧ (g.above [] v ss).Nodup ∧
    ∀ r ∈ g.above [] v ss, x ≠ .node r
  | _ => ¬ g.AllowedAt ss x

/-- The path of an error, and no other one, leads to a value that is faulty in the way that the
error says, and no earlier position is faulty at all. -/
def NamesFirstFault (g : Graph) (limit : Int) (v : Value) (e : EncodingError) : Prop :=
  ∃ ss x, e.Locates ss ∧ (∀ ts, e.Locates ts → ts = ss) ∧ g.reach? v ss = some x ∧
    g.FaultySo limit v ss x e ∧ ∀ ts, Path.Earlier ts ss → ¬ g.FaultAt limit.toNat v ts

theorem FirstFaultAt.names {limit : Int} (hd : 1 ≤ limit) {v : Value} {e : EncodingError}
    (h : g.FirstFaultAt limit.toNat v e) : g.NamesFirstFault limit v e := by
  obtain ⟨ss, x, located, hx, explained, least⟩ := h
  refine ⟨ss, x, located, fun ts => located.unique, hx, ?_, least⟩
  cases e with
  | cyclic p t =>
    obtain ⟨r, member, rfl⟩ := explained
    rcases exists_of_mem_above member with none | above
    · cases none
    · exact ⟨⟨r, rfl⟩, above⟩
  | tooDeep p n =>
    obtain ⟨-, length, different⟩ := explained
    refine ⟨?_, different⟩
    rw [length]
    exact Int.toNat_of_nonneg (by omega)
  | unresolved role participant printed cause => exact absurd explained id
  | notAPolicy t => exact explained
  | unsupported p t shown => exact explained
  | unsupportedOperator p shown => exact explained

/-- An error that says that a value cannot be encoded names the first faulty position. -/
theorem encode_error_names_first_fault (g : Graph) (limit : Int) (asked : Option Int)
    (hd : 1 ≤ asked.getD limit) (resolver : ResolverArgument) (id : Text) (v : Value)
    {run : Encoding} (h : encode g limit asked resolver id v = .ok run) {e : EncodingError}
    (failed : run.outcome = .error (.encoding e))
    (unsupported : e.errorClass.isA .unsupportedVariant = true) :
    g.NamesFirstFault (asked.getD limit) v e := by
  obtain ⟨r, -, hr⟩ := exists_policyFrom_of_encode h
  have report := policyFrom_reports g (asked.getD limit) r id v hr
  have ended : (ending run).1 = .error (.encoding e) := by
    rw [ending, Walk.ending, failed]
    rfl
  rw [ended] at report
  rcases report with ⟨-, participant⟩ | ⟨e', same, first⟩ | ⟨other, -⟩
  · rw [participant e rfl] at unsupported
    cases unsupported
  · obtain rfl : e = e' := Failure.encoding.inj same
    exact first.names hd
  · exact absurd rfl (other e)

/-- A policy whose only obligation is its own consequence. -/
def endlessConsequence : Graph :=
  ⟨#[.make .policy [(.obligations, .tuple [.node 1])], .make .duty [(.consequence, .node 1)]]⟩

/-- The consequence is cyclic, and nothing is faulty before it. -/
theorem endlessConsequence_names_first_fault : endlessConsequence.NamesFirstFault 3 (.node 0)
    (.cyclic ⟨"$", [.obligation 0, .consequence]⟩ "Duty") :=
  encode_error_names_first_fault endlessConsequence 64 (some 3) (by decide) (.resolver .identity)
    "id" (.node 0) rfl rfl rfl

end Graph

end UsagePolicy
