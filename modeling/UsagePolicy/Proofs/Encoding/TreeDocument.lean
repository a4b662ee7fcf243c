import UsagePolicy.Graph.Printer
import UsagePolicy.Policy.Equality

/-!
# Documents of policies

The document of a policy as a function of the policy itself. Literals stand in it as texts, so it
holds everything about the policy but the types of its literals: two parts of policies have one
document exactly if they agree up to the texts of their literals.
-/

namespace UsagePolicy

namespace Literal

/-- The text of a literal in a document. -/
def rendered : Literal → Text
  | .text t => t
  | .int i => Text.decimalInt i
  | .float d => d.text
  | .bool true => "true"
  | .bool false => "false"

/-- The literals have one text. -/
def sameText (a b : Literal) : Bool := a.rendered == b.rendered

end Literal

namespace Document

/-- The entry of a key, if there is a value for it. -/
def entry (key : Text) : Option Value → List (Text × Value)
  | none => []
  | some v => [(key, v)]

/-- An array, if it has items. -/
def nonempty : List Value → Option Value
  | [] => none
  | v :: vs => some (.list (v :: vs))

/-- An array with an identifier in it. -/
def identifier (v : Value) : Value := .list [.dict [(Term.id, v)]]

end Document

open Document

/-- The document of an operand. -/
def Expression.document (e : Expression) : Value := .dict [(Term.value, .text e.value.rendered)]

/-- The document of a comparison. -/
def AtomicConstraint.document (a : AtomicConstraint) : Value :=
  .dict [(Term.leftOperand, a.left.document), (Term.operator, identifier (.text a.operator.iri)),
    (Term.rightOperand, a.right.document)]

mutual

/-- The document of a constraint. -/
def Constraint.document : Constraint → Value
  | .atomic a => a.document
  | .multiplicity k cs => .dict [(Term.combinator k, .list (Constraint.documents cs))]

/-- The documents of constraints. -/
def Constraint.documents : List Constraint → List Value
  | [] => []
  | c :: cs => c.document :: Constraint.documents cs

end

/-- The document of an action. -/
def Action.document (a : Action) : Value :=
  .dict ((Term.actionType, .text a.type) :: (entry Term.includedIn (a.includedIn.map Value.text)
    ++ entry Term.refinement (a.refinement.map Constraint.document)))

/-- The entries that all rules share. -/
def Rule.documentEntries (r : Rule) : List (Text × Value) :=
  (Term.action, (r.action.map Action.document).getD (.dict []))
    :: entry Term.constraint (nonempty (Constraint.documents r.constraints))

/-- The document of a duty. -/
def Duty.document : Duty → Value
  | .mk r none => .dict (r.documentEntries ++ entry Term.consequence none)
  | .mk r (some d) => .dict (r.documentEntries ++ entry Term.consequence (some d.document))

/-- The document of a permission. -/
def Permission.document (p : Permission) : Value :=
  .dict (p.rule.documentEntries ++ entry Term.duty (nonempty (p.duties.map Duty.document)))

/-- The document of a prohibition. -/
def Prohibition.document (p : Prohibition) : Value := .dict p.rule.documentEntries

/-- The entries of the document of a policy besides its identifier, given the identifiers of its
participants. -/
def Policy.documentEntries (p : Policy) (assignee assigner : Option Value) : List (Text × Value) :=
  [(Term.type, .text (Term.policyType p.type)),
    (Term.permission, .list (p.permissions.map Permission.document)),
    (Term.prohibition, .list (p.prohibitions.map Prohibition.document)),
    (Term.obligation, .list (p.obligations.map Duty.document))]
    ++ (entry Term.assignee (assignee.map identifier)
    ++ (entry Term.assigner (assigner.map identifier)
    ++ entry Term.target (p.target.map fun t => identifier (.text t))))

/-! ## Entries -/

namespace Document

variable {key : Text} {o o' : Option Value} {es es' : List (Text × Value)}

theorem entry_append_inj (h : key ∉ es.map Prod.fst) (h' : key ∉ es'.map Prod.fst) :
    entry key o ++ es = entry key o' ++ es' ↔ o = o' ∧ es = es' := by
  constructor
  · intro same
    cases o <;> cases o'
    · exact ⟨rfl, same⟩
    · rw [show es = _ from same] at h
      exact absurd (List.mem_cons_self ..) h
    · rw [← show _ = es' from same] at h'
      exact absurd (List.mem_cons_self ..) h'
    · simpa [entry] using same
  · rintro ⟨rfl, rfl⟩
    rfl

theorem entry_inj : entry key o = entry key o' ↔ o = o' := by
  cases o <;> cases o' <;> simp [entry]

theorem nonempty_inj {vs ws : List Value} : nonempty vs = nonempty ws ↔ vs = ws := by
  cases vs <;> cases ws <;> simp [nonempty]

theorem identifier_injective : Function.Injective identifier := by
  intro v w h
  simpa [identifier] using h

theorem keys_entry (key : Text) (o : Option Value) : (entry key o).map Prod.fst ⊆ [key] := by
  cases o <;> simp [entry]

theorem not_mem_keys_entry {key key' : Text} (h : key' ≠ key) (o : Option Value) :
    key' ∉ (entry key o).map Prod.fst := fun member => h (by simpa using keys_entry key o member)

end Document

/-! ## Comparisons -/

theorem optionBy_iff {α β : Type} {f : α → α → Bool} {doc : α → β}
    (h : ∀ a b, doc a = doc b ↔ f a b = true) (a b : Option α) :
    a.map doc = b.map doc ↔ optionBy f a b = true := by
  cases a <;> cases b <;> simp [optionBy, h]

theorem listBy_iff {α β : Type} {f : α → α → Bool} {doc : α → β}
    (h : ∀ a b, doc a = doc b ↔ f a b = true) (as bs : List α) :
    as.map doc = bs.map doc ↔ listBy f as bs = true := by
  induction as generalizing bs with
  | nil => cases bs <;> simp [listBy]
  | cons a as ih => cases bs <;> simp [listBy, h, ih]

theorem Expression.document_inj (a b : Expression) :
    a.document = b.document ↔ a.sameBy Literal.sameText b = true := by
  simp [document, sameBy, Literal.sameText]

theorem Operator.iri_injective : Function.Injective Operator.iri := by
  intro a b h
  have same : a.term = b.term := List.append_cancel_left h
  revert same
  cases a <;> cases b <;> decide

theorem Term.combinator_injective : Function.Injective Term.combinator := by
  intro k l h
  have same : k.term = l.term := List.append_cancel_left h
  revert same
  cases k <;> cases l <;> decide

theorem Term.policyType_injective : Function.Injective Term.policyType := by
  intro s t h
  revert h
  cases s <;> cases t <;> decide

theorem AtomicConstraint.document_inj (a b : AtomicConstraint) :
    a.document = b.document ↔ a.sameBy Literal.sameText b = true := by
  simp [document, sameBy, identifier_injective.eq_iff, Operator.iri_injective.eq_iff,
    Expression.document_inj, and_assoc]

mutual

/-- Constraints of one document agree up to the texts of their literals. -/
theorem Constraint.document_inj : ∀ c d : Constraint,
    c.document = d.document ↔ c.sameBy Literal.sameText d = true
  | .atomic a, .atomic b => a.document_inj b
  | .atomic a, .multiplicity l ds => by
    simp [document, sameBy, AtomicConstraint.document]
  | .multiplicity k cs, .atomic b => by
    simp [document, sameBy, AtomicConstraint.document]
  | .multiplicity k cs, .multiplicity l ds => by
    simp [document, sameBy, Term.combinator_injective.eq_iff, Constraint.documents_inj cs ds]

theorem Constraint.documents_inj : ∀ cs ds : List Constraint,
    Constraint.documents cs = Constraint.documents ds ↔
      Constraint.listSameBy Literal.sameText cs ds = true
  | [], [] => by simp [documents, listSameBy]
  | [], d :: ds => by simp [documents, listSameBy]
  | c :: cs, [] => by simp [documents, listSameBy]
  | c :: cs, d :: ds => by
    simp [documents, listSameBy, c.document_inj d, Constraint.documents_inj cs ds]

end

theorem Action.document_inj (a b : Action) :
    a.document = b.document ↔ a.sameBy Literal.sameText b = true := by
  have keys : Term.includedIn ≠ Term.refinement := by decide
  simp only [document, Value.dict.injEq, List.cons.injEq, Prod.mk.injEq, true_and,
    Value.text.injEq, entry_append_inj (not_mem_keys_entry keys _) (not_mem_keys_entry keys _),
    entry_inj, optionBy_iff Constraint.document_inj, sameBy, Bool.and_eq_true, beq_iff_eq]
  rw [(Option.map_injective fun _ _ => Value.text.inj).eq_iff, and_assoc]

/-- The document of an action that is there has entries, so it is not that of an absent one. -/
theorem Action.document_ne (a : Action) : a.document ≠ .dict [] := by simp [document]

theorem Action.optional_document_inj (a b : Option Action) :
    (a.map Action.document).getD (.dict []) = (b.map Action.document).getD (.dict []) ↔
      optionBy (Action.sameBy Literal.sameText) a b = true := by
  cases a with
  | none => cases b <;> simp [optionBy, (Action.document_ne _).symm]
  | some a => cases b <;> simp [optionBy, Action.document_ne, Action.document_inj]

theorem Rule.documentEntries_inj (r s : Rule) :
    r.documentEntries = s.documentEntries ↔ r.sameBy Literal.sameText s = true := by
  simp only [documentEntries, List.cons.injEq, Prod.mk.injEq, true_and,
    Action.optional_document_inj, entry_inj, nonempty_inj, Constraint.documents_inj, sameBy,
    Bool.and_eq_true]

/-- The shared entries of rules can be told apart from those of a further key. -/
theorem Rule.documentEntries_append_inj (key : Text) (h : Term.constraint ≠ key) (r s : Rule)
    (o o' : Option Value) : r.documentEntries ++ entry key o = s.documentEntries ++ entry key o' ↔
      r.sameBy Literal.sameText s = true ∧ o = o' := by
  simp only [documentEntries, List.cons_append, List.cons.injEq, Prod.mk.injEq, true_and,
    Action.optional_document_inj, entry_inj, nonempty_inj, Constraint.documents_inj, sameBy,
    entry_append_inj (not_mem_keys_entry h o) (not_mem_keys_entry h o'), Bool.and_eq_true,
    and_assoc]

/-- Duties of one document agree up to the texts of their literals. -/
theorem Duty.document_inj : ∀ d e : Duty,
    d.document = e.document ↔ d.sameBy Literal.sameText e = true
  | .mk r none, .mk s none => by
    simp [document, sameBy, Rule.documentEntries_append_inj Term.consequence (by decide)]
  | .mk r none, .mk s (some e) => by
    simp [document, sameBy, Rule.documentEntries_append_inj Term.consequence (by decide)]
  | .mk r (some d), .mk s none => by
    simp [document, sameBy, Rule.documentEntries_append_inj Term.consequence (by decide)]
  | .mk r (some d), .mk s (some e) => by
    simp [document, sameBy, Rule.documentEntries_append_inj Term.consequence (by decide),
      Duty.document_inj d e]

theorem Permission.document_inj (p q : Permission) :
    p.document = q.document ↔ p.sameBy Literal.sameText q = true := by
  simp [document, sameBy, Rule.documentEntries_append_inj Term.duty (by decide), nonempty_inj,
    listBy_iff Duty.document_inj]

theorem Prohibition.document_inj (p q : Prohibition) :
    p.document = q.document ↔ p.sameBy Literal.sameText q = true := by
  simp [document, sameBy, Rule.documentEntries_inj]

/-- The policies are of one type, about one target and have the same rules, compared position by
position with a comparison of literals. Participants are left aside. -/
def Policy.sameRules (f : Literal → Literal → Bool) (p q : Policy) : Bool :=
  p.type == q.type && p.target == q.target
    && listBy (Permission.sameBy f) p.permissions q.permissions
    && listBy (Prohibition.sameBy f) p.prohibitions q.prohibitions
    && listBy (Duty.sameBy f) p.obligations q.obligations

/-- Policies of one document agree up to the texts of their literals and have the same identifiers
of participants. -/
theorem Policy.documentEntries_inj (p q : Policy)
    (assignee assigner assignee' assigner' : Option Value) :
    p.documentEntries assignee assigner = q.documentEntries assignee' assigner' ↔
      p.sameRules Literal.sameText q = true ∧ assignee = assignee' ∧ assigner = assigner' := by
  have assigneeKeys : ∀ (o o' : Option Value), Term.assignee ∉
      (entry Term.assigner o ++ entry Term.target o').map Prod.fst := by
    intro o o'
    rw [List.map_append, List.mem_append, not_or]
    exact ⟨not_mem_keys_entry (by decide) o, not_mem_keys_entry (by decide) o'⟩
  have assignerKeys : ∀ o : Option Value, Term.assigner ∉ (entry Term.target o).map Prod.fst :=
    not_mem_keys_entry (by decide)
  have mapped : ∀ o o' : Option Value, o.map identifier = o'.map identifier ↔ o = o' :=
    fun _ _ => (Option.map_injective identifier_injective).eq_iff
  have targets : ∀ o o' : Option Text, (o.map fun t => identifier (.text t)) =
      (o'.map fun t => identifier (.text t)) ↔ o = o' := by
    intro o o'
    refine (Option.map_injective ?_).eq_iff
    exact fun t u same => Value.text.inj (identifier_injective same)
  simp only [documentEntries, List.cons_append, List.nil_append, List.cons.injEq,
    Prod.mk.injEq, true_and, Value.text.injEq, Value.list.injEq, Term.policyType_injective.eq_iff,
    listBy_iff Permission.document_inj, listBy_iff Prohibition.document_inj,
    listBy_iff Duty.document_inj, entry_append_inj (assigneeKeys _ _) (assigneeKeys _ _),
    entry_append_inj (assignerKeys _) (assignerKeys _), entry_inj, mapped, targets, sameRules,
    Bool.and_eq_true, beq_iff_eq]
  constructor
  · rintro ⟨type, permissions, prohibitions, obligations, assignee, assigner, target⟩
    exact ⟨⟨⟨⟨⟨type, target⟩, permissions⟩, prohibitions⟩, obligations⟩, assignee, assigner⟩
  · rintro ⟨⟨⟨⟨⟨type, target⟩, permissions⟩, prohibitions⟩, obligations⟩, assignee, assigner⟩
    exact ⟨type, permissions, prohibitions, obligations, assignee, assigner, target⟩

end UsagePolicy
