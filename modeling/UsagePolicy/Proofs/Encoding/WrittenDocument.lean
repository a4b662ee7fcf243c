import UsagePolicy.Policy.Equality
import UsagePolicy.Proofs.Encoding.DocumentFingerprint
import UsagePolicy.Proofs.Json.FingerprintBytes
import UsagePolicy.Proofs.Number.DoubleText
import UsagePolicy.Proofs.Payload.Plain

/-!
# Documents of plain policies

The document of a plain policy is made of texts without surrogates, arrays and dictionaries whose
keys are different terms. Such a document can be written in every form, and has a fingerprint.
-/

namespace UsagePolicy

/-! ## Plain values -/

namespace Value

/-- Texts without surrogates, lists of plain values, and dictionaries of plain values under keys
that are different and have no surrogates. -/
inductive Plain : Value → Prop
  | text {t : Text} : t.isScalar = true → Plain (.text t)
  | list {vs : List Value} : (∀ v ∈ vs, Plain v) → Plain (.list vs)
  | dict {es : List (Text × Value)} : (es.map Prod.fst).Nodup → (∀ e ∈ es, e.1.isScalar = true) →
    (∀ e ∈ es, Plain e.2) → Plain (.dict es)

variable {v : Value} {vs : List Value} {es : List (Text × Value)} {P : Json → Prop}

theorem toJsonItems_of_forall (h : ∀ v ∈ vs, ∃ j, v.toJson = .ok j ∧ P j) :
    ∃ js, toJsonItems vs = .ok js ∧ ∀ j ∈ js, P j := by
  induction vs with
  | nil => exact ⟨[], rfl, List.forall_mem_nil P⟩
  | cons v vs ih =>
    obtain ⟨first, rest⟩ := List.forall_mem_cons.mp h
    obtain ⟨j, hj, holds⟩ := first
    obtain ⟨js, hjs, all⟩ := ih rest
    refine ⟨j :: js, ?_, List.forall_mem_cons.mpr ⟨holds, all⟩⟩
    rw [toJsonItems, hj, hjs]
    rfl

theorem toJsonEntries_of_forall (h : ∀ e ∈ es, ∃ j, e.2.toJson = .ok j ∧ P j) :
    ∃ ms, toJsonEntries es = .ok ms ∧ ms.map Prod.fst = es.map Prod.fst ∧ ∀ m ∈ ms, P m.2 := by
  induction es with
  | nil => exact ⟨[], rfl, rfl, nofun⟩
  | cons e es ih =>
    obtain ⟨first, rest⟩ := List.forall_mem_cons.mp h
    obtain ⟨j, hj, holds⟩ := first
    obtain ⟨ms, hms, keys, all⟩ := ih rest
    refine ⟨(e.1, j) :: ms, ?_, ?_, List.forall_mem_cons.mpr ⟨holds, all⟩⟩
    · rw [toJsonEntries, hj, hms]
      rfl
    · rw [List.map_cons, List.map_cons, keys]

/-- A plain value has a plain JSON form. -/
theorem Plain.toJson (h : v.Plain) : ∃ j, v.toJson = .ok j ∧ j.Plain := by
  induction h with
  | text scalar => exact ⟨_, rfl, .text scalar⟩
  | list _ ih =>
    obtain ⟨js, hjs, plains⟩ := toJsonItems_of_forall ih
    exact ⟨.array js, by rw [Value.toJson, hjs]; rfl, .array plains⟩
  | @dict es distinct scalars _ ih =>
    obtain ⟨ms, hms, keys, plains⟩ := toJsonEntries_of_forall ih
    refine ⟨.object ms, by rw [Value.toJson, hms]; rfl, .object (keys ▸ distinct) ?_ plains⟩
    intro m member
    have key : m.1 ∈ es.map Prod.fst := keys ▸ List.mem_map_of_mem member
    obtain ⟨e, he, same⟩ := List.mem_map.mp key
    exact same ▸ scalars e he

theorem sortedItems_eq (inTuples : Bool) (vs : List Value) :
    sortedItems inTuples vs = vs.map (sorted inTuples) := by
  induction vs with
  | nil => rfl
  | cons v vs ih => rw [sortedItems, ih, List.map_cons]

theorem sortedEntries_eq (inTuples : Bool) (es : List (Text × Value)) :
    sortedEntries inTuples es = es.map fun e => (e.1, e.2.sorted inTuples) := by
  induction es with
  | nil => rfl
  | cons e es ih => rw [sortedEntries, ih, List.map_cons]

theorem Plain.sorted (h : v.Plain) : (v.sorted true).Plain := by
  induction h with
  | text scalar => exact .text scalar
  | @list vs _ ih =>
    apply Plain.list
    intro w member
    rw [sortedItems_eq] at member
    obtain ⟨v, old, rfl⟩ := List.mem_map.mp member
    exact ih v old
  | @dict es distinct scalars _ ih =>
    have perm := Json.perm_sortMembers (sortedEntries true es)
    have keys : (sortedEntries true es).map Prod.fst = es.map Prod.fst := by
      rw [sortedEntries_eq, List.map_map]
      rfl
    have old : ∀ e ∈ Json.sortMembers (sortedEntries true es),
        ∃ e' ∈ es, (e'.1, e'.2.sorted true) = e := by
      intro e member
      rw [perm.mem_iff, sortedEntries_eq] at member
      exact List.mem_map.mp member
    refine .dict ?_ (fun e member => ?_) (fun e member => ?_)
    · rw [(perm.map Prod.fst).nodup_iff, keys]
      exact distinct
    · obtain ⟨e', isOld, rfl⟩ := old e member
      exact scalars e' isOld
    · obtain ⟨e', isOld, rfl⟩ := old e member
      exact ih e' isOld

/-! ## What is written -/

theorem isScalar_hexDigest (bytes : List UInt8) : (Sha256.hexDigest bytes).isScalar = true := by
  simp only [Sha256.hexDigest, List.flatMap_cons, List.flatMap_nil, Text.isScalar_append,
    Text.isScalar_hex, Bool.true_and]
  rfl

theorem Plain.fingerprint (h : (Value.dict es).Plain) :
    ∃ t, (Value.dict es).fingerprint = .ok t ∧ t.isScalar = true := by
  obtain ⟨j, hj, plain⟩ := h.sorted.toJson
  obtain ⟨ms, rfl⟩ : ∃ ms, j = .object ms := by
    rw [Value.sorted, Value.toJson] at hj
    cases hms : toJsonEntries (Json.sortMembers (sortedEntries true es)) with
    | error r => rw [hms] at hj; cases hj
    | ok ms => rw [hms] at hj; exact ⟨ms, (Except.ok.inj hj).symm⟩
  refine ⟨_, ?_, isScalar_hexDigest (Json.fingerprintText ms).utf8⟩
  rw [Value.fingerprint, hj]
  simp only [(Json.digests_of_plain plain).2]

end Value

/-! ## Texts of literals -/

namespace Text

variable {s t : Text}

theorem isScalar_of_subset (h : t.isScalar = true) (sub : s ⊆ t) : s.isScalar = true :=
  List.all_eq_true.mpr fun c member => List.all_eq_true.mp h c (sub member)

theorem isScalar_zeros (n : Nat) : isScalar (List.replicate n 0x30) = true := by
  apply isScalar_iff.mpr
  intro c member
  rw [List.eq_of_mem_replicate member]
  rfl

theorem isScalar_decimalInt (i : Int) : isScalar (decimalInt i) = true :=
  isScalar_of_isPrintable fun _ => isPrintable_of_mem_decimalInt

end Text

namespace Double

open Text (isScalar isScalar_append isScalar_cons isScalar_zeros isScalar_decimal)

variable {digits : Text}

theorem isScalar_positional (h : isScalar digits = true) (point : Int) :
    isScalar (positional digits point) = true := by
  unfold positional
  split
  · rw [isScalar_append, h]
    rfl
  · split
    · rw [isScalar_append, isScalar_append, h, isScalar_zeros]
      rfl
    · next k _ _ =>
      rw [isScalar_append, isScalar_cons, Text.isScalar_of_subset h (List.take_subset k digits),
        Text.isScalar_of_subset h (List.drop_subset k digits)]
      rfl
  · rw [isScalar_append, isScalar_append, h, isScalar_zeros]
    rfl

theorem isScalar_exponentText (e : Int) : isScalar (exponentText e) = true := by
  unfold exponentText Text.padLeft
  rw [isScalar_cons, isScalar_append, isScalar_zeros, isScalar_decimal]
  split <;> rfl

theorem isScalar_scientific (h : isScalar digits = true) (point : Int) :
    isScalar (scientific digits point) = true := by
  unfold scientific
  split
  · rfl
  · rw [isScalar_cons, Bool.and_eq_true] at h
    rw [isScalar_cons, isScalar_cons, isScalar_exponentText, h.1]
    rfl
  · rw [isScalar_cons, Bool.and_eq_true] at h
    rw [isScalar_append, isScalar_cons, isScalar_cons, isScalar_cons, isScalar_exponentText, h.1,
      h.2]
    rfl

theorem isScalar_text (d : Double) : d.text.isScalar = true := by
  cases d with
  | nan => rfl
  | infinite s => cases s <;> rfl
  | finite s m e h =>
    have sign : isScalar (if s then ("-" : Text) else []) = true := by cases s <;> rfl
    rw [text_finite, isScalar_append, sign, Bool.true_and, unsignedText]
    split
    · rfl
    · have digits := isScalar_decimal (dropTrailingZeros 20 (shortest m e).1 (shortest m e).2).1
      rw [← shortestDigits_decimal] at digits
      dsimp only
      split
      · exact isScalar_positional digits _
      · exact isScalar_scientific digits _

end Double

theorem Literal.Plain.isScalar {l : Literal} (h : l.Plain) : l.rendered.isScalar = true := by
  cases l with
  | text t => exact h
  | int i => exact Text.isScalar_decimalInt i
  | float d => exact d.isScalar_text
  | bool b => cases b <;> rfl

/-! ## Documents of parts -/

namespace Value

variable {k : Text} {ks ls : List Text} {v : Value} {es fs : List (Text × Value)}

/-- The values are plain, and the keys are some of the given ones in their order. -/
structure PlainEntries (ks : List Text) (es : List (Text × Value)) : Prop where
  keys : (es.map Prod.fst).Sublist ks
  plain : ∀ e ∈ es, e.2.Plain

theorem PlainEntries.nil : PlainEntries [] [] := ⟨.slnil, nofun⟩

theorem PlainEntries.cons (hv : v.Plain) (h : PlainEntries ks es) :
    PlainEntries (k :: ks) ((k, v) :: es) :=
  ⟨h.keys.cons_cons k, List.forall_mem_cons.mpr ⟨hv, h.plain⟩⟩

theorem PlainEntries.entry {o : Option Value} (h : ∀ v ∈ o, v.Plain) :
    PlainEntries [k] (Document.entry k o) := by
  cases o with
  | none => exact ⟨List.nil_sublist _, nofun⟩
  | some v => exact .cons (h v rfl) .nil

theorem PlainEntries.append (h : PlainEntries ks es) (h' : PlainEntries ls fs) :
    PlainEntries (ks ++ ls) (es ++ fs) where
  keys := by
    rw [List.map_append]
    exact h.keys.append h'.keys
  plain := List.forall_mem_append.mpr ⟨h.plain, h'.plain⟩

theorem PlainEntries.dict (h : PlainEntries ks es) (distinct : ks.Nodup)
    (scalars : ks.all Text.isScalar = true) : (Value.dict es).Plain := by
  refine .dict (distinct.sublist h.keys) (fun e member => ?_) h.plain
  exact List.all_eq_true.mp scalars e.1 (h.keys.subset (List.mem_map_of_mem member))

theorem Plain.map {α : Type} {doc : α → Value} {as : List α} (h : ∀ a ∈ as, (doc a).Plain) :
    (Value.list (as.map doc)).Plain :=
  .list (List.forall_mem_map.mpr h)

theorem plain_nonempty {vs : List Value} (h : ∀ v ∈ vs, v.Plain) :
    ∀ v ∈ Document.nonempty vs, v.Plain := by
  cases vs with
  | nil => exact nofun
  | cons v vs =>
    intro w member
    obtain rfl := Option.some.inj member
    exact .list h

theorem plain_ofOption {α : Type} {doc : α → Value} {o : Option α}
    (h : ∀ a ∈ o, (doc a).Plain) : ∀ v ∈ o.map doc, v.Plain := by
  rintro _ hv
  obtain ⟨a, ha, rfl⟩ := Option.map_eq_some_iff.mp hv
  exact h a ha

theorem Plain.identifier (h : v.Plain) : (Document.identifier v).Plain := by
  have entries : PlainEntries [Term.id] [(Term.id, v)] := .cons h .nil
  exact .list (List.forall_mem_singleton.mpr (entries.dict (by decide) (by decide)))

end Value

open Value (PlainEntries plain_nonempty plain_ofOption)

theorem Expression.Plain.document {e : Expression} (plain : e.Plain) : e.document.Plain := by
  have entries : PlainEntries [Term.value] [(Term.value, .text e.value.rendered)] :=
    .cons (.text plain.isScalar) .nil
  exact entries.dict (by decide) (by decide)

theorem Operator.isScalar_iri (o : Operator) : o.iri.isScalar = true := by
  cases o <;> decide

theorem AtomicConstraint.Plain.document {a : AtomicConstraint} (plain : a.Plain) :
    a.document.Plain := by
  have operator : (Document.identifier (.text a.operator.iri)).Plain :=
    .identifier (.text a.operator.isScalar_iri)
  have entries : PlainEntries [Term.leftOperand, Term.operator, Term.rightOperand] _ :=
    .cons plain.1.document (.cons operator (.cons plain.2.document .nil))
  exact entries.dict (by decide) (by decide)

mutual

theorem Constraint.Plain.document : ∀ {c : Constraint}, c.Plain → c.document.Plain
  | .atomic a, plain => by
    rw [Constraint.Plain] at plain
    rw [Constraint.document]
    exact plain.document
  | .multiplicity k cs, plain => by
    rw [Constraint.Plain] at plain
    rw [Constraint.document]
    have entries : PlainEntries [Term.combinator k] _ :=
      .cons (.list (Constraint.AllPlain.documents plain)) .nil
    exact entries.dict (List.nodup_singleton _) (by cases k <;> decide)

theorem Constraint.AllPlain.documents : ∀ {cs : List Constraint}, AllPlain cs →
    ∀ v ∈ Constraint.documents cs, v.Plain
  | [], _ => nofun
  | c :: cs, plain => by
    rw [AllPlain] at plain
    rw [Constraint.documents]
    exact List.forall_mem_cons.mpr ⟨plain.1.document, Constraint.AllPlain.documents plain.2⟩

end

theorem Action.Plain.document {a : Action} (plain : a.Plain) : a.document.Plain := by
  have includedIn := plain_ofOption fun t ht => Value.Plain.text (plain.includedIn t ht)
  have refinement := plain_ofOption fun c hc => (plain.refinement c hc).document
  have entries : PlainEntries [Term.actionType, Term.includedIn, Term.refinement] _ :=
    .cons (.text plain.type) ((PlainEntries.entry includedIn).append (.entry refinement))
  exact entries.dict (by decide) (by decide)

theorem Rule.Plain.documentEntries {r : Rule} (plain : r.Plain) :
    PlainEntries [Term.action, Term.constraint] r.documentEntries := by
  have action : ((r.action.map Action.document).getD (.dict [])).Plain := by
    cases ha : r.action with
    | none => exact PlainEntries.nil.dict List.nodup_nil rfl
    | some a => exact (plain.1 a ha).document
  have constraints := Constraint.AllPlain.documents (Constraint.allPlain_iff.mpr plain.2)
  exact .cons action (.entry (plain_nonempty constraints))

theorem Duty.document_mk (r : Rule) (o : Option Duty) : (Duty.mk r o).document =
    .dict (r.documentEntries ++ Document.entry Term.consequence (o.map Duty.document)) := by
  cases o <;> rw [Duty.document] <;> rfl

theorem Duty.Plain.document : ∀ {d : Duty}, d.Plain → d.document.Plain
  | .mk r o, plain => by
    obtain ⟨rule, consequence⟩ := Duty.plain_iff.mp plain
    have entries := rule.documentEntries.append
      (.entry (k := Term.consequence) (plain_ofOption fun d hd => (consequence d hd).document))
    rw [Duty.document_mk]
    exact entries.dict (by decide) (by decide)

theorem Permission.Plain.document {p : Permission} (plain : p.Plain) : p.document.Plain := by
  have duties : ∀ v ∈ p.duties.map Duty.document, v.Plain :=
    List.forall_mem_map.mpr fun d hd => (plain.2 d hd).document
  have entries := plain.1.documentEntries.append
    (.entry (k := Term.duty) (plain_nonempty duties))
  exact entries.dict (by decide) (by decide)

theorem Prohibition.plain_document {p : Prohibition} (plain : p.rule.Plain) : p.document.Plain :=
  plain.documentEntries.dict (by decide) (by decide)

/-- The keys of the document of a policy besides its identifier. -/
def Policy.documentKeys : List Text :=
  [Term.type, Term.permission, Term.prohibition, Term.obligation, Term.assignee, Term.assigner,
    Term.target]

/-- The document of a plain policy is plain, if the identifiers of its participants are. -/
theorem Policy.Plain.documentEntries {p : Policy} (plain : p.Plain) {a b : Option Value}
    (ha : ∀ v ∈ a, v.Plain) (hb : ∀ v ∈ b, v.Plain) :
    PlainEntries Policy.documentKeys (p.documentEntries a b) := by
  have type : (Term.policyType p.type).isScalar = true := by cases p.type <;> decide
  have rules : PlainEntries [Term.type, Term.permission, Term.prohibition, Term.obligation] _ :=
    .cons (.text type) (.cons (.map fun q hq => (plain.permissions q hq).document)
      (.cons (.map fun q hq => Prohibition.plain_document (plain.prohibitions q hq))
        (.cons (.map fun d hd => (plain.obligations d hd).document) .nil)))
  have assignee := plain_ofOption fun v hv => (ha v hv).identifier
  have assigner := plain_ofOption fun v hv => (hb v hv).identifier
  have target := plain_ofOption fun t ht => (Value.Plain.text (plain.target t ht)).identifier
  exact rules.append ((PlainEntries.entry assignee).append
    ((PlainEntries.entry assigner).append (.entry target)))

/-- With an identifier of its own such a document has a JSON form, which is plain if the identifier
has no surrogates. -/
theorem Value.PlainEntries.identified {es : List (Text × Value)}
    (h : PlainEntries Policy.documentKeys es) (id : Text) :
    ∃ j, (Value.dict ((Term.id, .text id) :: es)).toJson = .ok j ∧
      (id.isScalar = true → j.Plain) := by
  obtain ⟨ms, hms, -⟩ := toJsonEntries_of_forall fun e member => (h.plain e member).toJson
  have written : (Value.dict ((Term.id, .text id) :: es)).toJson =
      .ok (.object ((Term.id, .text id) :: ms)) := by
    rw [Value.toJson, toJsonEntries, Value.toJson, hms]
    rfl
  refine ⟨_, written, fun scalar => ?_⟩
  have entries : PlainEntries (Term.id :: Policy.documentKeys) ((Term.id, .text id) :: es) :=
    .cons (.text scalar) h
  obtain ⟨j, hj, plain⟩ := (entries.dict (by decide) (by decide)).toJson
  obtain rfl := Except.ok.inj (written.symm.trans hj)
  exact plain

end UsagePolicy
