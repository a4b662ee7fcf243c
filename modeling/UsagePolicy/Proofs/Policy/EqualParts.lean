import UsagePolicy.Proofs.Encoding.TreeDocument
import UsagePolicy.Proofs.Number.DoubleText

/-!
# Equal policies

Equal literals may be of different types, and then their texts differ. So equal policies agree up to
the texts of their literals only if they are the same policy.
-/

namespace UsagePolicy

namespace Literal

/-- The literals are equal, or they are one object, which a comparison takes to be equal to itself
also if it is a NaN. -/
def equal (a b : Literal) : Bool := a.eqv b || a.same b

theorem same_iff (a b : Literal) : a.same b = true ↔ a = b := beq_iff_eq

/-- A text with a digit is none of a truth value. -/
theorem text_ne_rendered_bool {t : Text} (h : ∃ c ∈ t, c.isDigit = true) (b : Bool) :
    t ≠ (bool b).rendered := by
  rintro rfl
  obtain ⟨c, member, digit⟩ := h
  have letters : (bool b).rendered.all (fun c => !c.isDigit) = true := by
    cases b <;> decide
  have letter := List.all_eq_true.mp letters c member
  rw [digit] at letter
  cases letter

theorem rendered_ne_bool_of_eqInt {d : Double} {i : Int} (h : d.eqInt i = true) (b : Bool) :
    d.text ≠ (bool b).rendered := by
  cases d with
  | finite s m e proper => exact text_ne_rendered_bool (Double.exists_digit_text proper) b
  | _ => cases h

theorem rendered_ne_int_of_eqInt {d : Double} {i : Int} (h : d.eqInt i = true) :
    d.text ≠ Text.decimalInt i := by
  cases d with
  | finite s m e proper => exact Double.text_ne_decimalInt proper i
  | _ => cases h

/-- Equal literals of one text are the same: an integer, a double and a truth value of one value
have different texts. -/
theorem eq_of_eqv_of_sameText {a c : Literal} (h : a.eqv c = true) (text : a.sameText c = true) :
    a = c := by
  have text : a.rendered = c.rendered := beq_iff_eq.mp text
  cases a with
  | text t =>
    cases c with
    | text u => exact congrArg _ text
    | _ => cases h
  | float d =>
    cases c with
    | text u => cases h
    | float e => exact congrArg _ (Double.eq_of_numEq_of_text h text)
    | int i => exact absurd text (rendered_ne_int_of_eqInt h)
    | bool b => exact absurd text (rendered_ne_bool_of_eqInt h b)
  | int i =>
    cases c with
    | text u => cases h
    | float e => exact absurd text.symm (rendered_ne_int_of_eqInt h)
    | int j => exact congrArg _ (beq_iff_eq.mp h)
    | bool b => exact absurd text (text_ne_rendered_bool (Text.exists_digit_decimalInt i) b)
  | bool b =>
    cases c with
    | text u => cases h
    | float e => exact absurd text.symm (rendered_ne_bool_of_eqInt h b)
    | int j =>
      exact absurd text.symm (text_ne_rendered_bool (Text.exists_digit_decimalInt j) b)
    | bool c =>
      apply congrArg _
      revert h
      cases b <;> cases c <;> decide

end Literal

/-! ## Comparisons of parts -/

/-- Of what the first comparison takes for equal, the second one tells apart all that is not the
same. -/
def TellsApart {α : Type} (f g : α → α → Bool) : Prop :=
  ∀ a b, f a b = true → (g a b = true ↔ a = b)

theorem Literal.sameText_tellsApart : TellsApart Literal.equal Literal.sameText := by
  intro a b equal
  constructor
  · intro text
    rcases (Bool.or_eq_true ..).mp equal with h | h
    · exact eq_of_eqv_of_sameText h text
    · exact (same_iff a b).mp h
  · rintro rfl
    exact beq_self_eq_true _

namespace TellsApart

theorem option {α : Type} {f g : α → α → Bool} (h : TellsApart f g) :
    TellsApart (optionBy f) (optionBy g)
  | none, none, _ => by simp [optionBy]
  | some a, some b, equal => by simpa [optionBy] using h a b equal

theorem list {α : Type} {f g : α → α → Bool} (h : TellsApart f g) :
    TellsApart (listBy f) (listBy g)
  | [], [], _ => by simp [listBy]
  | a :: as, b :: bs, equal => by
    simp only [listBy, Bool.and_eq_true] at equal
    simp [listBy, h a b equal.1, list h as bs equal.2]

variable {f g : Literal → Literal → Bool}

theorem expression (h : TellsApart f g) : TellsApart (Expression.sameBy f) (Expression.sameBy g)
  | ⟨a⟩, ⟨b⟩, equal => by simpa [Expression.sameBy] using h a b equal

theorem atomic (h : TellsApart f g) :
    TellsApart (AtomicConstraint.sameBy f) (AtomicConstraint.sameBy g)
  | ⟨l, o, r⟩, ⟨l', o', r'⟩, equal => by
    simp only [AtomicConstraint.sameBy, Bool.and_eq_true] at equal
    simp [AtomicConstraint.sameBy, h.expression l l' equal.1.1, h.expression r r' equal.2,
      and_assoc]

mutual

theorem constraint (h : TellsApart f g) : TellsApart (Constraint.sameBy f) (Constraint.sameBy g)
  | .atomic a, .atomic b, equal => by
    rw [Constraint.sameBy] at equal
    simp [Constraint.sameBy, h.atomic a b equal]
  | .multiplicity k cs, .multiplicity l ds, equal => by
    simp only [Constraint.sameBy, Bool.and_eq_true] at equal
    simp [Constraint.sameBy, constraints h cs ds equal.2]
  | .atomic _, .multiplicity _ _, equal => by simp [Constraint.sameBy] at equal
  | .multiplicity _ _, .atomic _, equal => by simp [Constraint.sameBy] at equal

theorem constraints (h : TellsApart f g) :
    TellsApart (Constraint.listSameBy f) (Constraint.listSameBy g)
  | [], [], _ => by simp [Constraint.listSameBy]
  | c :: cs, d :: ds, equal => by
    simp only [Constraint.listSameBy, Bool.and_eq_true] at equal
    simp [Constraint.listSameBy, constraint h c d equal.1, constraints h cs ds equal.2]
  | [], _ :: _, equal => by simp [Constraint.listSameBy] at equal
  | _ :: _, [], equal => by simp [Constraint.listSameBy] at equal

end

theorem action (h : TellsApart f g) : TellsApart (Action.sameBy f) (Action.sameBy g)
  | ⟨t, i, r⟩, ⟨t', i', r'⟩, equal => by
    simp only [Action.sameBy, Bool.and_eq_true] at equal
    simp [Action.sameBy, h.constraint.option r r' equal.2, and_assoc]

theorem rule (h : TellsApart f g) : TellsApart (Rule.sameBy f) (Rule.sameBy g)
  | ⟨a, cs⟩, ⟨a', cs'⟩, equal => by
    simp only [Rule.sameBy, Bool.and_eq_true] at equal
    simp [Rule.sameBy, h.action.option a a' equal.1, h.constraints cs cs' equal.2]

theorem duty (h : TellsApart f g) : TellsApart (Duty.sameBy f) (Duty.sameBy g)
  | .mk r none, .mk s none, equal => by
    rw [Duty.sameBy] at equal
    simp [Duty.sameBy, h.rule r s equal]
  | .mk r (some c), .mk s (some d), equal => by
    simp only [Duty.sameBy, Bool.and_eq_true] at equal
    simp [Duty.sameBy, h.rule r s equal.1, duty h c d equal.2]
  | .mk _ none, .mk _ (some _), equal => by simp [Duty.sameBy] at equal
  | .mk _ (some _), .mk _ none, equal => by simp [Duty.sameBy] at equal

theorem permission (h : TellsApart f g) : TellsApart (Permission.sameBy f) (Permission.sameBy g)
  | ⟨r, ds⟩, ⟨s, es⟩, equal => by
    simp only [Permission.sameBy, Bool.and_eq_true] at equal
    simp [Permission.sameBy, h.rule r s equal.1, h.duty.list ds es equal.2]

theorem prohibition (h : TellsApart f g) :
    TellsApart (Prohibition.sameBy f) (Prohibition.sameBy g)
  | ⟨r⟩, ⟨s⟩, equal => by
    rw [Prohibition.sameBy] at equal
    simp [Prohibition.sameBy, h.rule r s equal]

/-- Equal policies have the same participants, so they are the same if their rules are. -/
theorem policy (h : TellsApart f g) : TellsApart (Policy.sameBy f) (Policy.sameRules g) := by
  intro p q equal
  simp only [Policy.sameBy, Bool.and_eq_true, beq_iff_eq] at equal
  obtain ⟨⟨⟨⟨⟨⟨type, permissions⟩, prohibitions⟩, obligations⟩, assignee⟩, assigner⟩, target⟩ :=
    equal
  obtain ⟨_, ps, qs, ds, _, _, _⟩ := p
  obtain ⟨_, ps', qs', ds', _, _, _⟩ := q
  obtain rfl := type
  obtain rfl := assignee
  obtain rfl := assigner
  obtain rfl := target
  simp [Policy.sameRules, h.permission.list ps ps' permissions,
    h.prohibition.list qs qs' prohibitions, h.duty.list ds ds' obligations, and_assoc]

end TellsApart

/-! ## Comparisons that take every literal for equal to itself -/

section

variable {α : Type} {g : α → α → Bool}

theorem optionBy_self {o : Option α} (h : ∀ a ∈ o, g a a = true) : optionBy g o o = true := by
  cases o with
  | none => rfl
  | some a => exact h a rfl

theorem listBy_self {as : List α} (h : ∀ a ∈ as, g a a = true) : listBy g as as = true := by
  induction as with
  | nil => rfl
  | cons a as ih =>
    rw [List.forall_mem_cons] at h
    rw [listBy, h.1, ih h.2]
    rfl

variable {f : Literal → Literal → Bool}

theorem Expression.sameBy_self (refl : ∀ l, f l l = true) (e : Expression) :
    e.sameBy f e = true := refl e.value

theorem AtomicConstraint.sameBy_self (refl : ∀ l, f l l = true) (a : AtomicConstraint) :
    a.sameBy f a = true := by
  simp [sameBy, Expression.sameBy_self refl]

mutual

theorem Constraint.sameBy_self (refl : ∀ l, f l l = true) : ∀ c : Constraint, c.sameBy f c = true
  | .atomic a => by rw [sameBy, a.sameBy_self refl]
  | .multiplicity k cs => by rw [sameBy, listSameBy_self refl cs, beq_self_eq_true, Bool.and_self]

theorem Constraint.listSameBy_self (refl : ∀ l, f l l = true) :
    ∀ cs : List Constraint, listSameBy f cs cs = true
  | [] => rfl
  | c :: cs => by rw [listSameBy, sameBy_self refl c, listSameBy_self refl cs, Bool.and_self]

end

theorem Action.sameBy_self (refl : ∀ l, f l l = true) (a : Action) : a.sameBy f a = true := by
  have refinement : optionBy (Constraint.sameBy f) a.refinement a.refinement = true :=
    optionBy_self fun c _ => c.sameBy_self refl
  simp [sameBy, refinement]

theorem Rule.sameBy_self (refl : ∀ l, f l l = true) (r : Rule) : r.sameBy f r = true := by
  have action : optionBy (Action.sameBy f) r.action r.action = true :=
    optionBy_self fun a _ => a.sameBy_self refl
  simp [sameBy, action, Constraint.listSameBy_self refl]

theorem Duty.sameBy_self (refl : ∀ l, f l l = true) : ∀ d : Duty, d.sameBy f d = true
  | .mk r none => by rw [sameBy, r.sameBy_self refl]
  | .mk r (some d) => by rw [sameBy, r.sameBy_self refl, sameBy_self refl d, Bool.and_self]

theorem Permission.sameBy_self (refl : ∀ l, f l l = true) (p : Permission) :
    p.sameBy f p = true := by
  have duties : listBy (Duty.sameBy f) p.duties p.duties = true :=
    listBy_self fun d _ => d.sameBy_self refl
  simp [sameBy, p.rule.sameBy_self refl, duties]

theorem Prohibition.sameBy_self (refl : ∀ l, f l l = true) (p : Prohibition) :
    p.sameBy f p = true := p.rule.sameBy_self refl

theorem Policy.sameBy_self (refl : ∀ l, f l l = true) (p : Policy) : p.sameBy f p = true := by
  have permissions : listBy (Permission.sameBy f) p.permissions p.permissions = true :=
    listBy_self fun q _ => q.sameBy_self refl
  have prohibitions : listBy (Prohibition.sameBy f) p.prohibitions p.prohibitions = true :=
    listBy_self fun q _ => q.sameBy_self refl
  have obligations : listBy (Duty.sameBy f) p.obligations p.obligations = true :=
    listBy_self fun d _ => d.sameBy_self refl
  simp [sameBy, permissions, prohibitions, obligations]

theorem Part.sameBy_self (refl : ∀ l, f l l = true) (p : Part) : p.sameBy f p = true := by
  cases p with
  | policy p => exact p.sameBy_self refl
  | rule r => exact r.sameBy_self refl
  | permission p => exact p.sameBy_self refl
  | prohibition p => exact p.sameBy_self refl
  | duty d => exact d.sameBy_self refl
  | action a => exact a.sameBy_self refl
  | constraint c => exact c.sameBy_self refl
  | expression e => exact e.sameBy_self refl

end

end UsagePolicy
