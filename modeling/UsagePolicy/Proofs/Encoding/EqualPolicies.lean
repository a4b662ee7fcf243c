import UsagePolicy.Proofs.Encoding.DocumentFingerprint
import UsagePolicy.Proofs.Encoding.Faithful
import UsagePolicy.Proofs.Graph.Grown
import UsagePolicy.Proofs.Policy.EqualParts

/-!
# Documents of equal policies

Equality of policies looks at the values of literals and not at their types, while a document has
their texts. So the documents of equal policies agree, and with them the fingerprints, exactly if
the policies are the same down to the types of their literals and the signs of their zeros.
-/

namespace UsagePolicy

/-- What a resolver answers for a text does not depend on a graph. -/
theorem Resolver.resolve_text (r : Resolver) (g h : Graph) (t : Text) :
    r.resolve g (.text t) = r.resolve h (.text t) := by
  cases r <;> rfl

namespace Graph

variable {g h : Graph} {limit limit' : Int} {r : Resolver} {id id' : Text} {v w : Value}
  {t t' : Trail} {p q : Policy} {encoded encoded' : Encoded}

/-- The fingerprint covers the rest of the document. -/
theorem fingerprint_document (hv : g.Depicts v p)
    (ok : (Encoding.policyFrom g limit r id v t).outcome = .ok encoded) :
    encoded.document.fingerprint = encoded.document.withoutId.fingerprint := by
  rw [← Value.fingerprint_normal, normal_document hv ok, Value.fingerprint_identified,
    ← withoutId_document hv ok, Value.fingerprint_normal]

/-- Documents that are equal apart from their identifiers have one fingerprint. -/
theorem SameDocument.fingerprint (same : SameDocument encoded.document encoded'.document)
    (hv : g.Depicts v p) (hw : h.Depicts w q)
    (ok : (Encoding.policyFrom g limit r id v t).outcome = .ok encoded)
    (ok' : (Encoding.policyFrom h limit' r id' w t').outcome = .ok encoded') :
    encoded.document.fingerprint = encoded'.document.fingerprint := by
  rw [fingerprint_document hv ok, fingerprint_document hw ok', ← Value.fingerprint_normal, same,
    Value.fingerprint_normal]

/-- A resolver answers alike for the participants of equal policies. -/
theorem answer_grow {f : Literal → Literal → Bool} (equal : p.sameBy f q = true) (g h : Graph)
    (r : Resolver) (role : Role) :
    r.answer (p.grow g).2 (p.grow g).1 role = r.answer (q.grow h).2 (q.grow h).1 role := by
  have participants : p.participant role = q.participant role := by
    simp only [Policy.sameBy, Bool.and_eq_true, beq_iff_eq] at equal
    cases role with
    | assignee => exact equal.1.1.2
    | assigner => exact equal.1.2
  unfold Resolver.answer
  rw [fieldOf_participant, fieldOf_participant, participants]
  cases q.participant role with
  | none => rfl
  | some t =>
    simp only [Value.ofText?]
    rw [r.resolve_text (p.grow g).2 (q.grow h).2]

/-- Two equal policies that are encoded, by one resolver and with whatever limits, have one document
exactly if they are the same policy, and then they have one fingerprint. -/
theorem encode_equal_policies (p q : Policy) (equal : p.sameBy Literal.equal q = true)
    (g h : Graph) (resolver : ResolverArgument) {limit limit' : Int} {asked asked' : Option Int}
    {id id' : Text} {run run' : Encoding}
    (begins : encode (p.grow g).2 limit asked resolver id (p.grow g).1 = .ok run)
    (begins' : encode (q.grow h).2 limit' asked' resolver id' (q.grow h).1 = .ok run')
    {encoded encoded' : Encoded} (ok : run.outcome = .ok encoded)
    (ok' : run'.outcome = .ok encoded') :
    (SameDocument encoded.document encoded'.document ↔ p = q) ∧
      (p = q → encoded.document.fingerprint = encoded'.document.fingerprint) := by
  obtain ⟨r, hr, rfl⟩ := exists_policyFrom_of_encode begins
  obtain ⟨s, hs, rfl⟩ := exists_policyFrom_of_encode begins'
  obtain rfl := Except.ok.inj (hr.symm.trans hs)
  have hv := (gives_policy p g).holds
  have hw := (gives_policy q h).holds
  have answers : ∀ role, (r.answer (p.grow g).2 (p.grow g).1 role).normal =
      (r.answer (q.grow h).2 (q.grow h).1 role).normal :=
    fun role => congrArg Value.normal (answer_grow equal g h r role)
  have same : SameDocument encoded.document encoded'.document ↔ p = q := by
    rw [sameDocument_iff hv hw ok ok', Literal.sameText_tellsApart.policy p q equal]
    exact and_iff_left answers
  exact ⟨same, fun eq => (same.mpr eq).fingerprint hv hw ok ok'⟩

/-- An offer with one obligation, to count what is less than a limit. -/
def limitedTo (limit : Literal) : Policy :=
  ⟨.offer, [], [], [.mk ⟨none, [.atomic ⟨⟨.text "count"⟩, .lt, ⟨limit⟩⟩]⟩ none], none, none, none⟩

/-- One as an integer and as a double: the policies are equal and their documents are not. -/
theorem limitedTo_one_documents_differ : ∃ run run' encoded encoded',
    (limitedTo (.int 1)).sameBy Literal.eqv (limitedTo (.float (.ofInt 1))) = true ∧
      encode ((limitedTo (.int 1)).grow .empty).2 32 none (.resolver .identity) "one"
        ((limitedTo (.int 1)).grow .empty).1 = .ok run ∧
      encode ((limitedTo (.float (.ofInt 1))).grow .empty).2 32 none (.resolver .identity) "two"
        ((limitedTo (.float (.ofInt 1))).grow .empty).1 = .ok run' ∧
      run.outcome = .ok encoded ∧ run'.outcome = .ok encoded' ∧
      ¬ SameDocument encoded.document encoded'.document := by
  obtain ⟨run, begins, encoded, ok⟩ : ∃ run,
      encode ((limitedTo (.int 1)).grow .empty).2 32 none (.resolver .identity) "one"
        ((limitedTo (.int 1)).grow .empty).1 = .ok run ∧ ∃ encoded, run.outcome = .ok encoded :=
    ⟨_, rfl, _, rfl⟩
  obtain ⟨run', begins', encoded', ok'⟩ : ∃ run,
      encode ((limitedTo (.float (.ofInt 1))).grow .empty).2 32 none (.resolver .identity) "two"
        ((limitedTo (.float (.ofInt 1))).grow .empty).1 = .ok run ∧
        ∃ encoded, run.outcome = .ok encoded :=
    ⟨_, rfl, _, rfl⟩
  refine ⟨run, run', encoded, encoded', by decide, begins, begins', ok, ok', fun same => ?_⟩
  have eq := (encode_equal_policies (limitedTo (.int 1)) (limitedTo (.float (.ofInt 1)))
    (by decide) .empty .empty (.resolver .identity) begins begins' ok ok').1.mp same
  simp [limitedTo] at eq

end Graph

end UsagePolicy
