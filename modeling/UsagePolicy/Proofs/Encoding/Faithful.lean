import UsagePolicy.Encoding.Document
import UsagePolicy.Proofs.Encoding.DepictedDocument
import UsagePolicy.Proofs.Encoding.Unfolding

/-!
# What documents keep of policies

The document of a policy says everything about it but the types of its literals and the names of its
participants, of which it has the identifiers that the resolver answers with. So two policies have
one document, apart from the identifiers of the documents themselves, exactly if they agree in all
other respects.
-/

namespace UsagePolicy

namespace Value

/-- The document without its own identifier. -/
def withoutId : Value → Value
  | .dict es => .dict (es.filter fun e => e.1 != Term.id)
  | v => v

/-- The value, if it is not absent. -/
def given? : Value → Option Value
  | .absent => none
  | v => some v

theorem given?_injective : Function.Injective given? := by
  intro v w h
  cases v <;> cases w <;> simp_all [given?]

theorem normalEntries_filter (f : Text → Bool) (es : List (Text × Value)) :
    normalEntries (es.filter fun e => f e.1) = (normalEntries es).filter fun e => f e.1 := by
  induction es with
  | nil => rfl
  | cons e es ih =>
    obtain ⟨k, v⟩ := e
    by_cases keep : f k = true <;> simp [normalEntries, keep, ih]

theorem normal_withoutId (v : Value) : v.withoutId.normal = v.normal.withoutId := by
  cases v with
  | dict es =>
    rw [withoutId, normal, normal, withoutId, normalEntries_filter fun k => k != Term.id]
  | _ => rfl

end Value

/-- What the resolver answers for the participant of a policy, absent if there is none. -/
def Resolver.answer (r : Resolver) (g : Graph) (v : Value) (role : Role) : Value :=
  match g.fieldOf v role.field with
  | .ok .absent => .absent
  | .ok x => match r.resolve g x with
    | .ok y => y
    | .error _ => .absent
  | .error _ => .absent

namespace Resolution

variable {g : Graph} {r : Resolver} {v a b : Value}

theorem bind_ok {α β : Type} {x : Resolution α} {k : α → Resolution β} {b : β}
    (h : (x.bind k).outcome = .ok b) : ∃ a, x.outcome = .ok a ∧ (k a).outcome = .ok b := by
  unfold bind at h
  cases hx : x.outcome with
  | ok a => exact ⟨a, rfl, by simpa [hx] using h⟩
  | error e => simp [hx] at h

theorem role_ok {role : Role} (h : (Resolution.role g r v role).outcome = .ok a) :
    a = r.answer g v role := by
  obtain ⟨x, hx, h⟩ := bind_ok h
  have hx : g.fieldOf v role.field = .ok x := hx
  by_cases absent : x = .absent
  · subst absent
    simp only [Resolver.answer, hx]
    exact (Except.ok.inj h).symm
  · have answered : r.answer g v role = match r.resolve g x with
        | .ok y => y
        | .error _ => .absent := by
      unfold Resolver.answer
      rw [hx]
      cases x <;> first | rfl | exact absurd rfl absent
    rw [answered]
    unfold participant at h
    split at h
    · exact absurd rfl absent
    · split at h
      · next hy => rw [hy]; exact (Except.ok.inj h).symm
      · next y hy => rw [hy]; exact (Except.ok.inj h).symm
      · cases h

/-- The identifiers of both participants are the answers of the resolver. -/
theorem both_ok (h : (both g r v).outcome = .ok (a, b)) :
    a = r.answer g v .assignee ∧ b = r.answer g v .assigner := by
  obtain ⟨a', ha, h⟩ := bind_ok h
  obtain ⟨b', hb, h⟩ := bind_ok h
  obtain ⟨rfl, rfl⟩ := Prod.mk.inj (Except.ok.inj h)
  exact ⟨role_ok ha, role_ok hb⟩

end Resolution

theorem Policy.id_not_key (p : Policy) (assignee assigner : Option Value) :
    Term.id ∉ (p.documentEntries assignee assigner).map Prod.fst := by
  have apart : ∀ key ∈ [Term.type, Term.permission, Term.prohibition, Term.obligation,
      Term.assignee, Term.assigner, Term.target], Term.id ≠ key := by decide
  unfold Policy.documentEntries
  simp only [List.map_append, List.mem_append, not_or]
  refine ⟨?_, Document.not_mem_keys_entry (apart _ (by simp)) _,
    Document.not_mem_keys_entry (apart _ (by simp)) _,
    Document.not_mem_keys_entry (apart _ (by simp)) _⟩
  intro member
  exact apart _ (by simp at member ⊢; tauto) rfl

namespace Graph

open Outline
open Document (entry)
open Value (normal normalItems normalEntries normalEntries_append)

variable {g : Graph} {limit : Int} {r : Resolver} {id : Text} {v x : Value} {t : Trail}
  {P : Spot → Value → Path → Value → Prop}

/-! ## The document of a depicted policy -/

theorem normalEntries_identifierMember {key : Text} {es : List (Text × Value)}
    (h : YieldsMembers P (identifierMember key x) es) :
    normalEntries es = entry key (x.normal.given?.map Document.identifier) := by
  by_cases absent : x = .absent
  · subst absent
    obtain rfl : es = [] := h
    rfl
  · have present : identifierMember key x = [(key, identifier x)] := by
      cases x <;> first | rfl | exact absurd rfl absent
    have given : x.normal.given? = some x.normal := by
      cases x <;> first | rfl | exact absurd rfl absent
    rw [present] at h
    obtain ⟨_, _, rfl, ⟨_, rfl, _, _, rfl, ⟨_, rfl, _, _, rfl, rfl, rfl⟩, rfl⟩, rfl⟩ := h
    simp [normalEntries, normalItems, normal, entry, given, Document.identifier]

/-- The type of a policy that can be encoded is known, its participants are resolved, and its
document is what its outline yields. -/
theorem exists_yields_of_ok {encoded : Encoded}
    (h : (Encoding.policyFrom g limit r id v t).outcome = .ok encoded) :
    ∃ x type a b, g.fieldOf v .type = .ok x ∧ policyType? x = some type ∧
      (Resolution.both g r v).outcome = .ok (a, b) ∧
      Yields (g.Encodes limit) (Outline.policy g v id type a b) encoded.document := by
  unfold Encoding.policyFrom at h
  split at h
  · unfold Encoding.policyType at h
    cases hx : g.fieldOf v .type with
    | error e => simp [hx, Encoding.failed] at h
    | ok x =>
      cases htype : policyType? x with
      | none => simp [hx, htype, Encoding.failed] at h
      | some type =>
        simp only [hx, htype, Encoding.rules] at h
        cases hr : (Resolution.both g r v).outcome with
        | error e => simp [hr] at h
        | ok both =>
          obtain ⟨a, b⟩ := both
          refine ⟨x, type, a, b, rfl, htype, rfl, ?_⟩
          simp only [hr] at h
          cases hd : (Outline.policy g v id type a b).fill (visitFrom g limit) t with
          | mk out t' =>
            cases out with
            | error e => simp [hd, Except.map] at h
            | ok d =>
              simp only [hd, Except.map, Except.ok.injEq] at h
              subst h
              exact yields_of_fill (fills_visitFrom g limit) _ hd
  · simp [Encoding.failed] at h

theorem normal_policyRules {α : Type} {depicts : Value → α → Prop} {doc : α → Value}
    {f : Field} {kind : NodeClass} {step : Nat → PathStep} {as : List α} {d : Value}
    (h : Yields P (policyRules g v f kind step) d)
    (hv : g.FieldIs v f fun x => DepictsEach depicts x as)
    (place : ∀ y p d, y ∈ as → ∀ x, depicts x y → P (.rule kind) x p d → d.normal = doc y) :
    d.normal = .list (as.map doc) := by
  obtain ⟨x, hx, each⟩ := hv
  rw [policyRules, hx] at h
  exact normal_elements place each h

/-- What depicts a policy is encoded as its document, with the answers of the resolver for the
identifiers of its participants. -/
theorem normal_document {p : Policy} (hv : g.Depicts v p) {encoded : Encoded}
    (h : (Encoding.policyFrom g limit r id v t).outcome = .ok encoded) :
    encoded.document.normal = .dict ((Term.id, .text id) :: p.documentEntries
      (r.answer g v .assignee).normal.given? (r.answer g v .assigner).normal.given?) := by
  obtain ⟨x, type, a, b, hx, htype, hr, yields⟩ := exists_yields_of_ok h
  obtain ⟨rfl, rfl⟩ := Resolution.both_ok hr
  obtain rfl : p.type = type := by
    obtain ⟨y, hy, rfl⟩ := hv.type
    obtain rfl := Except.ok.inj (hx.symm.trans hy)
    refine Option.some.inj (Eq.trans ?_ htype)
    cases p.type <;> rfl
  obtain ⟨target, htarget, isTarget⟩ := hv.target
  unfold Outline.policy at yields
  rw [htarget] at yields
  obtain ⟨es, hes, yields⟩ := yields
  obtain ⟨es₁, es₂, rfl, yields, h₂⟩ := yieldsMembers_append.mp yields
  obtain ⟨es₁, es₃, rfl, yields, h₃⟩ := yieldsMembers_append.mp yields
  obtain ⟨es₁, es₄, rfl, yields, h₄⟩ := yieldsMembers_append.mp yields
  obtain ⟨_, _, rfl, rfl, _, _, rfl, rfl, ps, _, rfl, hps, qs, _, rfl, hqs, ds, _, rfl, hds, rfl⟩ :=
    yields
  -- the entries of the document one after the other
  have permissions := normal_policyRules hps hv.permissions
    fun _ _ _ _ _ depicted h => normal_permission depicted h
  have prohibitions := normal_policyRules hqs hv.prohibitions
    fun _ _ _ _ _ depicted h => normal_prohibition depicted h
  have obligations := normal_policyRules hds hv.obligations
    fun y _ _ _ _ depicted h => normal_duty y depicted h
  have targets := normalEntries_optionalText Document.identifier h₂ isTarget
    (fun v d h => by
      obtain ⟨_, rfl, _, _, rfl, ⟨_, rfl, _, _, rfl, rfl, rfl⟩, rfl⟩ := h
      rfl)
    (fun v t ht => by
      simp [Document.identifier, normal, normalItems, normalEntries, Value.normal_of_text? ht])
  rw [hes, normal]
  simp only [List.cons_append, List.nil_append, List.append_assoc, normalEntries,
    normalEntries_append, normalEntries_identifierMember h₄, normalEntries_identifierMember h₃,
    targets, permissions, prohibitions, obligations, normal, Policy.documentEntries]

theorem withoutId_document {p : Policy} (hv : g.Depicts v p) {encoded : Encoded}
    (h : (Encoding.policyFrom g limit r id v t).outcome = .ok encoded) :
    encoded.document.withoutId.normal = .dict (p.documentEntries
      (r.answer g v .assignee).normal.given? (r.answer g v .assigner).normal.given?) := by
  rw [Value.normal_withoutId, normal_document hv h, Value.withoutId,
    List.filter_cons_of_neg (by simp), List.filter_eq_self.mpr]
  intro e member
  rw [bne_iff_ne]
  intro same
  exact p.id_not_key _ _ (List.mem_map.mpr ⟨e, member, same⟩)

/-! ## Equal documents -/

/-- The documents are equal apart from their own identifiers, keys and items in the same order. The
members of name sets equal their texts. -/
def SameDocument (d e : Value) : Prop := d.withoutId.normal = e.withoutId.normal

/-- Policies that are depicted have one document exactly if they agree up to the texts of their
literals and the resolver answers alike for their participants. -/
theorem sameDocument_iff {h : Graph} {w : Value} {limit' : Int} {id' : Text} {t' : Trail}
    {p q : Policy} (hv : g.Depicts v p) (hw : h.Depicts w q) {encoded encoded' : Encoded}
    (ok : (Encoding.policyFrom g limit r id v t).outcome = .ok encoded)
    (ok' : (Encoding.policyFrom h limit' r id' w t').outcome = .ok encoded') :
    SameDocument encoded.document encoded'.document ↔
      p.sameRules Literal.sameText q = true ∧
        ∀ role, (r.answer g v role).normal = (r.answer h w role).normal := by
  have roles : (∀ role, (r.answer g v role).normal = (r.answer h w role).normal) ↔
      (r.answer g v .assignee).normal = (r.answer h w .assignee).normal ∧
        (r.answer g v .assigner).normal = (r.answer h w .assigner).normal :=
    ⟨fun all => ⟨all .assignee, all .assigner⟩, fun both role => by
      cases role
      · exact both.1
      · exact both.2⟩
  rw [SameDocument, withoutId_document hv ok, withoutId_document hw ok', Value.dict.injEq,
    Policy.documentEntries_inj, Value.given?_injective.eq_iff, Value.given?_injective.eq_iff, roles]

theorem exists_policy_of_ok (typed : g.WellTyped v) {encoded : Encoded}
    (ok : (Encoding.policyFrom g limit r id v .start).outcome = .ok encoded) :
    ∃ p, g.Depicts v p := by
  have ended : (ending (Encoding.policyFrom g limit r id v .start)).1 = .ok () := by
    rw [ending, Walk.ending, ok]
    rfl
  exact typed.exists_policy (policyFrom_isGreatest_deepest rfl ended).1.2

/-- Two well-typed policies that are encoded depict policies, and these have one document exactly if
they are of one type, about one target, have the same rules up to the texts of literals and the
resolver answers alike for their participants. -/
theorem encode_faithful (g h : Graph) (v w : Value) (typed : g.WellTyped v)
    (typed' : h.WellTyped w) (resolver : ResolverArgument) {r : Resolver}
    (hr : resolver.normalize = .ok r) {limit limit' : Int} {asked asked' : Option Int}
    {id id' : Text} {run run' : Encoding}
    (begins : encode g limit asked resolver id v = .ok run)
    (begins' : encode h limit' asked' resolver id' w = .ok run') {encoded encoded' : Encoded}
    (ok : run.outcome = .ok encoded) (ok' : run'.outcome = .ok encoded') :
    (∃ p, g.Depicts v p) ∧ (∃ q, h.Depicts w q) ∧ ∀ p q, g.Depicts v p → h.Depicts w q →
      (SameDocument encoded.document encoded'.document ↔
        p.sameRules Literal.sameText q = true ∧
          ∀ role, (r.answer g v role).normal = (r.answer h w role).normal) := by
  obtain ⟨s, hs, rfl⟩ := exists_policyFrom_of_encode begins
  obtain rfl := Except.ok.inj (hr.symm.trans hs)
  obtain ⟨s, hs, rfl⟩ := exists_policyFrom_of_encode begins'
  obtain rfl := Except.ok.inj (hr.symm.trans hs)
  exact ⟨exists_policy_of_ok typed ok, exists_policy_of_ok typed' ok',
    fun p q hv hw => sameDocument_iff hv hw ok ok'⟩

/-- The policy of `sharedConsequence` with a copy in the place of the shared duty. -/
def copiedConsequence : Graph :=
  ⟨#[obligingOffer, bareDuty (.node 3), bareDuty .absent, bareDuty .absent]⟩

theorem copiedConsequence_wellTyped : copiedConsequence.WellTyped (.node 0) := by
  apply wellTyped_of_nodes rfl
  intro n member
  simp only [copiedConsequence, List.mem_cons, List.not_mem_nil, or_false] at member
  rcases member with rfl | rfl | rfl | rfl
  all_goals
    apply typedNode_of_fields rfl
    simp [copiedConsequence, obligingOffer, bareDuty, NodeClass.fieldType, HasType, nodeClass?,
      node?, NodeClass.isA, Value.text?]

theorem copiedConsequence_faithful : ∃ run run' encoded encoded',
    encode sharedConsequence 64 (some 2) (.resolver .identity) "one" (.node 0) = .ok run ∧
      encode copiedConsequence 64 none (.resolver .identity) "two" (.node 0) = .ok run' ∧
      run.outcome = .ok encoded ∧ run'.outcome = .ok encoded' ∧
      (∃ p, sharedConsequence.Depicts (.node 0) p) ∧ (∃ q, copiedConsequence.Depicts (.node 0) q) ∧
      ∀ p q, sharedConsequence.Depicts (.node 0) p → copiedConsequence.Depicts (.node 0) q →
        (SameDocument encoded.document encoded'.document ↔
          p.sameRules Literal.sameText q = true ∧
            ∀ role, (Resolver.identity.answer sharedConsequence (.node 0) role).normal =
              (Resolver.identity.answer copiedConsequence (.node 0) role).normal) := by
  obtain ⟨run, begins, encoded, ok⟩ : ∃ run,
      encode sharedConsequence 64 (some 2) (.resolver .identity) "one" (.node 0) = .ok run ∧
        ∃ encoded, run.outcome = .ok encoded := ⟨_, rfl, _, rfl⟩
  obtain ⟨run', begins', encoded', ok'⟩ : ∃ run,
      encode copiedConsequence 64 none (.resolver .identity) "two" (.node 0) = .ok run ∧
        ∃ encoded, run.outcome = .ok encoded := ⟨_, rfl, _, rfl⟩
  exact ⟨run, run', encoded, encoded', begins, begins', ok, ok',
    encode_faithful sharedConsequence copiedConsequence (.node 0) (.node 0)
      sharedConsequence_wellTyped copiedConsequence_wellTyped (.resolver .identity) rfl
      begins begins' ok ok'⟩

end Graph

end UsagePolicy
