import UsagePolicy.Proofs.Encoding.Depiction
import UsagePolicy.Proofs.Encoding.TreeDocument
import UsagePolicy.Proofs.Encoding.Yield

/-!
# Documents of depicted policies

What depicts a part of a policy is encoded as the document of that part. The induction is on the
part, so nothing has to be known about the graph but what it depicts.
-/

namespace UsagePolicy

namespace Value

mutual

/-- The value with texts in place of the members of name sets that equal them. -/
def normal : Value → Value
  | .member m => .text m.value
  | .tuple vs => .tuple (normalItems vs)
  | .list vs => .list (normalItems vs)
  | .dict es => .dict (normalEntries es)
  | v => v

/-- Items one by one. -/
def normalItems : List Value → List Value
  | [] => []
  | v :: vs => normal v :: normalItems vs

/-- Entries one by one. -/
def normalEntries : List (Text × Value) → List (Text × Value)
  | [] => []
  | (k, v) :: es => (k, normal v) :: normalEntries es

end

theorem normalItems_eq (vs : List Value) : normalItems vs = vs.map normal := by
  induction vs with
  | nil => rfl
  | cons v vs ih => rw [normalItems, ih, List.map_cons]

theorem normalEntries_append (es fs : List (Text × Value)) :
    normalEntries (es ++ fs) = normalEntries es ++ normalEntries fs := by
  induction es with
  | nil => rfl
  | cons e es ih => rw [List.cons_append, normalEntries, normalEntries, ih, List.cons_append]

theorem normal_of_text? {v : Value} {t : Text} (h : v.text? = some t) : v.normal = .text t := by
  cases v <;> simp [text?] at h <;> simp [normal, h]

end Value

namespace Graph

open Outline
open Document (entry nonempty)
open Value (normal normalItems normalEntries normalItems_eq normal_of_text? normalEntries_append)

variable {g : Graph} {limit : Int} {P : Spot → Value → Path → Value → Prop} {v x d : Value}
  {p : Path} {f : Field}

/-! ## Fields -/

theorem eq_rendered_of_yields {opened : List Slot} {l : Literal} (hx : x.literal? = some l)
    (h : Yields P (literal g opened x) d) : d = .text l.rendered := by
  cases x with
  | bool b => cases b <;> (obtain rfl := Option.some.inj hx; exact h)
  | text t => obtain rfl := Option.some.inj hx; exact h
  | member m => obtain rfl := Option.some.inj hx; exact h
  | int i =>
    obtain rfl := Option.some.inj hx
    by_cases long : Text.isOversized i = true
    · simp [literal, plainWithin, shownWithin, Value.shownWith, long, Yields] at h
    · simp only [literal, plainWithin, shownWithin, Value.shownWith, if_neg long, Yields] at h
      exact h
  | float d => obtain rfl := Option.some.inj hx; exact h
  | _ => cases hx

/-- The entry of a text that may be absent. -/
theorem normalEntries_optionalText (doc : Value → Value) {key : Text} {o : Option Text}
    {es : List (Text × Value)} {k : Value → Outline}
    (h : YieldsMembers P (ifPresent key (.ok x) k) es) (hx : x.optionalText? = some o)
    (hk : ∀ v d, Yields P (k v) d → d = doc v)
    (hdoc : ∀ v t, v.text? = some t → (doc v).normal = doc (.text t)) :
    normalEntries es = entry key (o.map fun t => doc (.text t)) := by
  by_cases absent : x = .absent
  · subst absent
    obtain rfl := Option.some.inj hx
    obtain rfl : es = [] := h
    rfl
  · have present : ifPresent key (.ok x) k = [(key, k x)] := by cases x <;> simp_all [ifPresent]
    have text : x.optionalText? = x.text?.map some := by
      cases x <;> simp_all [Value.optionalText?]
    rw [present] at h
    rw [text] at hx
    obtain ⟨t, ht, rfl⟩ := Option.map_eq_some_iff.mp hx
    obtain ⟨d, _, rfl, hd, rfl⟩ := h
    obtain rfl := hk x d hd
    simp [normalEntries, entry, hdoc x t ht]

/-- The entry of a part that may be absent. -/
theorem normalEntries_optional {α : Type} {depicts : Value → α → Prop} {doc : α → Value}
    {key : Text} {o : Option α} {es : List (Text × Value)} {k : Value → Outline}
    (h : YieldsMembers P (ifPresent key (.ok x) k) es) (hx : DepictsOptional depicts x o)
    (hk : ∀ a d, a ∈ o → depicts x a → Yields P (k x) d → d.normal = doc a) :
    normalEntries es = entry key (o.map doc) := by
  cases o with
  | none =>
    obtain rfl : x = .absent := hx
    obtain rfl : es = [] := h
    rfl
  | some a =>
    obtain ⟨given, depicted⟩ := hx
    have present : ifPresent key (.ok x) k = [(key, k x)] := by cases x <;> simp_all [ifPresent]
    rw [present] at h
    obtain ⟨d, _, rfl, hd, rfl⟩ := h
    simp [normalEntries, entry, hk a d rfl depicted hd]

/-- The array of parts. -/
theorem normal_elements {α : Type} {depicts : Value → α → Prop} {doc : α → Value} {s : Spot}
    {path : Nat → Path} {as : List α}
    (place : ∀ y p d, y ∈ as → ∀ x, depicts x y → P s x p d → d.normal = doc y)
    (hx : DepictsEach depicts x as)
    (h : Yields P (elements g x fun i y => .place s y (path i)) d) :
    d.normal = .list (as.map doc) := by
  obtain ⟨xs, rfl, each⟩ := hx
  obtain ⟨ds, rfl, h⟩ := h
  have filled := yieldsItems_places h
  rw [normal, normalItems_eq]
  congr 1
  clear h
  induction each generalizing ds with
  | nil =>
    cases filled
    rfl
  | cons depicted _ ih =>
    obtain _ | ⟨⟨p, hd⟩, rest⟩ := filled
    rw [List.map_cons, List.map_cons, place _ p _ (List.mem_cons_self ..) _ depicted hd,
      ih (fun y p d member => place y p d (List.mem_cons_of_mem _ member)) _ rest]

/-- The entry of an array that is left out if it has no items. -/
theorem normalEntries_ifTruthy {α : Type} {depicts : Value → α → Prop} {doc : α → Value}
    {s : Spot} {path : Nat → Path} {key : Text} {as : List α} {es : List (Text × Value)}
    (place : ∀ y p d, y ∈ as → ∀ x, depicts x y → P s x p d → d.normal = doc y)
    (hx : DepictsEach depicts x as)
    (h : YieldsMembers P (ifTruthy key (.ok x) fun y => elements g y fun i z =>
      .place s z (path i)) es) : normalEntries es = entry key (nonempty (as.map doc)) := by
  have hx' := hx
  obtain ⟨xs, rfl, each⟩ := hx
  cases each with
  | nil =>
    obtain rfl : es = [] := h
    rfl
  | cons =>
    obtain ⟨d, _, rfl, hd, rfl⟩ := h
    simp [normalEntries, entry, nonempty, normal_elements place hx' hd]

/-! ## Constraints -/

theorem normal_expression {e : Expression} (hv : g.DepictsExpression v e)
    (h : Yields P (expression g v p) d) : d.normal = e.document := by
  obtain ⟨hc, x, hf, hx⟩ := hv
  rw [expression, if_pos hc, hf, withValue] at h
  obtain ⟨_, rfl, _, _, rfl, h, rfl⟩ := h
  rw [eq_rendered_of_yields hx h]
  rfl

theorem normal_atomic {a : AtomicConstraint} (hv : g.DepictsAtomic v a)
    (h : Yields P (constraint g v p) d) : d.normal = a.document := by
  obtain ⟨hc, ⟨x, hx, left⟩, ⟨_, ho, rfl⟩, ⟨y, hy, right⟩⟩ := hv
  simp only [constraint, hc, atomic, hx, ho, hy, withValue] at h
  obtain ⟨_, rfl, l, _, rfl, hl, o, _, rfl, ho, r, _, rfl, hr, rfl⟩ := h
  obtain ⟨_, rfl, _, _, rfl, ⟨_, rfl, _, _, rfl, rfl, rfl⟩, rfl⟩ := ho
  simp [normal, normalEntries, normalItems, normal_expression left hl, normal_expression right hr,
    AtomicConstraint.document, Document.identifier]

theorem documents_eq_map (cs : List Constraint) :
    Constraint.documents cs = cs.map Constraint.document := by
  induction cs with
  | nil => rfl
  | cons c cs ih => rw [Constraint.documents, ih, List.map_cons]

/-- What depicts a constraint is encoded as its document. -/
theorem normal_constraint : ∀ (c : Constraint) {v : Value} {p : Path} {d : Value},
    g.DepictsConstraint v c → g.Encodes limit .constraint v p d → d.normal = c.document
  | .atomic a, v, p, d, hv, h => normal_atomic (by simpa [DepictsConstraint] using hv) h.yields
  | .multiplicity k cs, v, p, d, hv, h => by
    rw [DepictsConstraint] at hv
    obtain ⟨hc, ⟨_, hk, rfl⟩, ⟨x, hx, xs, rfl, each⟩⟩ := hv
    have known : kind? (.member (.multiplicityKind k)) = some k := by cases k <;> rfl
    have yields := h.yields
    simp only [ofSpot, constraint, hc, Outline.multiplicity, hk, hx, withValue, known] at yields
    obtain ⟨_, rfl, ds, _, rfl, hds, rfl⟩ := yields
    have members := normal_elements
      (fun c p d member x hx => normal_constraint c hx)
      ⟨xs, rfl, (g.depictsConstraints_iff).mp each⟩ hds
    simp [normal, normalEntries, members, Constraint.document, documents_eq_map]

/-! ## Rules -/

theorem normal_action {a : Action} (hv : g.DepictsAction v a)
    (h : Yields (g.Encodes limit) (action g v p) d) : d.normal = a.document := by
  obtain ⟨hc, ⟨t, ht, type⟩, ⟨i, hi, included⟩, ⟨c, hc', refinement⟩⟩ := hv
  cases v with
  | node r =>
    simp only [action, ht, hi, hc', withValue, List.cons_append] at h
    obtain ⟨_, rfl, _, _, rfl, rfl, h⟩ := h
    obtain ⟨es₁, es₂, rfl, h₁, h₂⟩ := yieldsMembers_append.mp h
    have second := normalEntries_optionalText id h₁ included (fun _ _ h => h)
      (fun _ _ => normal_of_text?)
    have third := normalEntries_optional h₂ refinement
      (fun b _ _ depicted h => normal_constraint b depicted h)
    rw [normal, normalEntries, normalEntries_append, normal_of_text? type, second, third]
    rfl
  | _ => simp [nodeClass?] at hc

/-- The action of a rule, which may be absent. -/
theorem normal_optional_action {o : Option Action}
    (hv : DepictsOptional g.DepictsAction v o)
    (h : Yields (g.Encodes limit) (action g v p) d) :
    d.normal = (o.map Action.document).getD (.dict []) := by
  cases o with
  | none =>
    obtain rfl : v = .absent := hv
    obtain ⟨_, rfl, rfl⟩ := h
    rfl
  | some a => exact normal_action hv.2 h

theorem normal_ruleMembers {r : Rule} {es : List (Text × Value)} (hv : g.DepictsRule v r)
    (h : YieldsMembers (g.Encodes limit) (ruleMembers g v p) es) :
    normalEntries es = r.documentEntries := by
  obtain ⟨⟨x, hx, optional⟩, ⟨cs, hcs, each⟩⟩ := hv
  simp only [ruleMembers, hx, hcs, withValue] at h
  obtain ⟨d, es, rfl, hd, h⟩ := h
  have constraints := normalEntries_ifTruthy
    (fun c p d _ x hx h => normal_constraint c hx h) each h
  rw [normalEntries, normal_optional_action optional hd, constraints, ← documents_eq_map]
  rfl

/-- What depicts a duty is encoded as its document. -/
theorem normal_duty : ∀ (e : Duty) {v : Value} {p : Path} {d : Value},
    g.DepictsDuty v e → g.Encodes limit (.rule .duty) v p d → d.normal = e.document
  | .mk r none, v, p, d, hv, h => by
    rw [DepictsDuty] at hv
    obtain ⟨hc, depicted, x, hx, rfl⟩ := hv
    have yields := h.yields
    simp only [ofSpot, rule, hc, hx, ifPresent, List.append_nil] at yields
    obtain ⟨es, rfl, hes⟩ := yields
    simp [normal, normal_ruleMembers depicted hes, Duty.document, entry]
  | .mk r (some e), v, p, d, hv, h => by
    rw [DepictsDuty] at hv
    obtain ⟨hc, depicted, x, hx, given⟩ := hv
    have yields := h.yields
    simp only [ofSpot, rule, hc, hx] at yields
    obtain ⟨es, rfl, hes⟩ := yields
    obtain ⟨es₁, es₂, rfl, h₁, h₂⟩ := yieldsMembers_append.mp hes
    have optional : DepictsOptional g.DepictsDuty x (some e) := given
    have consequence := normalEntries_optional h₂ optional fun _ _ same depicted h => by
      obtain rfl := Option.some.inj same
      exact normal_duty _ depicted h
    rw [normal, normalEntries_append, normal_ruleMembers depicted h₁, consequence]
    rfl

theorem normal_permission {q : Permission} (hv : g.DepictsPermission v q)
    (h : g.Encodes limit (.rule .permission) v p d) : d.normal = q.document := by
  obtain ⟨hc, depicted, x, hx, each⟩ := hv
  have yields := h.yields
  simp only [ofSpot, rule, hc, hx] at yields
  obtain ⟨es, rfl, hes⟩ := yields
  obtain ⟨es₁, es₂, rfl, h₁, h₂⟩ := yieldsMembers_append.mp hes
  have duties := normalEntries_ifTruthy (fun e p d _ x hx h => normal_duty e hx h) each h₂
  rw [normal, normalEntries_append, normal_ruleMembers depicted h₁, duties]
  rfl

theorem normal_prohibition {q : Prohibition} (hv : g.DepictsProhibition v q)
    (h : g.Encodes limit (.rule .prohibition) v p d) : d.normal = q.document := by
  obtain ⟨hc, depicted⟩ := hv
  have yields := h.yields
  simp only [ofSpot, rule, hc] at yields
  obtain ⟨es, rfl, hes⟩ := yields
  rw [normal, normal_ruleMembers depicted hes]
  rfl

end Graph

end UsagePolicy
