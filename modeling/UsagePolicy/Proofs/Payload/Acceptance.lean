import UsagePolicy.Proofs.Payload.Fields

/-!
# What checks accept

A check gives a part exactly for the values that render it. For values that are read already the
part must also fit into the room for references, which depends on the part alone.
-/

namespace UsagePolicy

variable {α β : Type}

/-! ## Results of checks -/

namespace Checked

variable {x : Checked α} {y : Checked β} {a : α} {b : β}

@[simp] theorem fail_ne_ok (k : IssueKind) (a : α) : (fail k : Checked α) ≠ .ok a := nofun

@[simp] theorem under_eq_ok {s : PlaceStep} : x.under s = .ok a ↔ x = .ok a := by
  cases x <;> simp [under]

theorem both_eq_ok : x.both y = .ok (a, b) ↔ x = .ok a ∧ y = .ok b := by
  cases x <;> cases y <;> simp [both]

theorem map_eq_ok {f : α → β} : x.map f = .ok b ↔ ∃ a, x = .ok a ∧ f a = b := by
  cases x <;> simp [Except.map]

theorem build_eq_ok {es : List Issue} {mk : α → β} :
    build es mk x = .ok b ↔ es = [] ∧ ∃ a, x = .ok a ∧ mk a = b := by
  cases x <;> cases es <;> simp [build]

end Checked

namespace Payload

open Checked (both_eq_ok map_eq_ok build_eq_ok)
open Json (Members GivenOr RendersOptional RendersEach RendersText)

variable {s : Source} {room : Nat} {c : NodeClass} {ms : Members} {f : Field}
  {given : Field → Option Json} {check : Json → Checked α} {a d : α} {R : Json → Prop} {F : Prop}

/-- The check gives the part for the values that render it, if it fits, and for no others. -/
def Accepts (check : Json → Checked α) (a : α) (renders : Json → Prop) (fits : Prop) : Prop :=
  ∀ v : Json, v.Distinct → (check v = .ok a ↔ renders v ∧ fits)

/-- The values are found in the members of an object without repeated keys. -/
structure Found (ms : Members) (c : NodeClass) (given : Field → Option Json) : Prop where
  value : ∀ f ∈ c.fields, (find? ms f).map Prod.snd = given f
  distinct : ∀ f ∈ c.fields, ∀ v, given f = some v → v.Distinct

/-! ## Fields -/

theorem Found.find? (h : Found ms c given) (hf : f ∈ c.fields) :
    (find? ms f = none ∧ given f = none) ∨
      ∃ k v, find? ms f = some (k, v) ∧ given f = some v ∧ v.Distinct := by
  have value := h.value f hf
  cases hx : Payload.find? ms f with
  | none => exact .inl ⟨rfl, by rw [← value, hx, Option.map_none]⟩
  | some e =>
    have there : given f = some e.2 := by rw [← value, hx, Option.map_some]
    exact .inr ⟨e.1, e.2, rfl, there, h.distinct f hf _ there⟩

theorem Found.required (h : Found ms c given) (hf : f ∈ c.fields) (accepts : Accepts check a R F) :
    required ms f check = .ok a ↔ GivenOr False R (given f) ∧ F := by
  unfold Payload.required
  rcases h.find? hf with ⟨hx, hg⟩ | ⟨k, v, hx, hg, hv⟩
  · simp [hx, hg, GivenOr]
  · simp [hx, hg, GivenOr, accepts v hv]

theorem Found.optional (h : Found ms c given) (hf : f ∈ c.fields) (fits : a = d → F)
    (accepts : Accepts check a R F) :
    optional ms f d check = .ok a ↔ GivenOr (a = d) R (given f) ∧ F := by
  unfold Payload.optional
  rcases h.find? hf with ⟨hx, hg⟩ | ⟨k, v, hx, hg, hv⟩
  · simp only [hx, hg, GivenOr, Except.ok.injEq]
    exact ⟨fun same => ⟨same.symm, fits same.symm⟩, fun both => both.1.symm⟩
  · simp [hx, hg, GivenOr, accepts v hv]

/-- The check of an object gives a part exactly if its members spell fields as the part has them,
given that the checks of the fields do so. -/
theorem record_iff (distinct : (Json.object ms).Distinct) {mk : α → β} {x : Checked α} {b : β}
    {P : (Field → Option Json) → Prop}
    (fields : ∀ given, Found ms c given → ((∃ a, x = .ok a ∧ mk a = b) ↔ P given ∧ F)) :
    record c ms mk x = .ok b ↔ (Json.object ms).IsNode c P ∧ F := by
  cases distinct with
  | object keys values =>
    have found : ∀ given, Json.Spell ms c given → Found ms c given := by
      refine fun given spell => ⟨fun f hf => spell.find?_map hf, fun f hf v hv => ?_⟩
      obtain ⟨e, he, rfl⟩ := Option.map_eq_some_iff.mp ((spell.find?_map hf).trans hv)
      exact values e (mem_of_find? he).2
    unfold record
    constructor
    · intro h
      split at h
      · obtain ⟨extras, built⟩ := build_eq_ok.mp h
        have spell := Json.spell_of_extras keys extras
        obtain ⟨fields, fits⟩ := (fields _ (found _ spell)).mp built
        exact ⟨⟨ms, _, rfl, spell, fields⟩, fits⟩
      · cases h
    · rintro ⟨⟨_, given, same, spell, holds⟩, fits⟩
      cases same
      rw [if_pos spell.isScalar]
      exact build_eq_ok.mpr ⟨spell.extras, (fields given (found given spell)).mpr ⟨holds, fits⟩⟩

theorem not_isNode {v : Json} {P : (Field → Option Json) → Prop} (h : ∀ ms, v ≠ .object ms) :
    ¬ v.IsNode c P := by
  rintro ⟨ms, given, rfl, -⟩
  exact h ms rfl

/-! ## Values without fields -/

theorem accepts_text (t : Text) : Accepts text t (RendersText t) True := by
  rintro v -
  cases v <;> simp [text, RendersText]

theorem accepts_constant (t : Text) : Accepts (constant t) () (RendersText t) True := by
  rintro v -
  cases v with
  | text u => by_cases same : u = t <;> simp [constant, RendersText, same, Checked.fail]
  | _ => simp [constant, RendersText]

theorem accepts_literal (l : Literal) : Accepts literal l (· = l.json) True := by
  rintro v -
  cases v <;> cases l <;> simp [literal, Literal.json]

theorem accepts_member {names : List Text} {ofName? : Text → Option α} {name : Text}
    (h : ∀ t, ofName? t = some a ↔ t = name) :
    Accepts (member names ofName?) a (RendersText name) True := by
  rintro v -
  cases v with
  | text t =>
    have exact := h t
    cases hn : ofName? t <;> simp_all [member, RendersText]
  | _ => simp [member, RendersText]

theorem accepts_policyType (t : PolicyType) :
    Accepts policyType t (RendersText t.name) True := by
  refine accepts_member fun u => ⟨fun h => ?_, ?_⟩
  · simpa [eq_comm] using List.find?_some h
  · rintro rfl
    cases t <;> rfl

theorem accepts_multiplicityKind (k : MultiplicityKind) :
    Accepts multiplicityKind k (RendersText k.name) True := by
  refine accepts_member fun u => ⟨fun h => ?_, ?_⟩
  · simpa [eq_comm] using List.find?_some h
  · rintro rfl
    cases k <;> rfl

theorem accepts_operator (o : Operator) : Accepts operator o (RendersText o.name) True := by
  refine accepts_member fun u => ⟨fun h => ?_, ?_⟩
  · simpa [eq_comm] using List.find?_some h
  · rintro rfl
    cases o <;> rfl

/-! ## Values that may be null, and arrays -/

section

variable {R : α → Json → Prop} {F : α → Prop}

theorem accepts_nullable (o : Option α) (accepts : ∀ a ∈ o, Accepts check a (R a) (F a))
    (never : ∀ a ∈ o, ¬ R a .null) :
    Accepts (nullable check) o (RendersOptional R o) (∀ a ∈ o, F a) := by
  intro v hv
  by_cases null : v = .null
  · subst null
    cases o with
    | none => simp [nullable, RendersOptional]
    | some a => simp [nullable, RendersOptional, never a rfl]
  · have same : nullable check v = (check v).map some := by
      cases v <;> first | rfl | exact absurd rfl null
    rw [same]
    cases o with
    | none => simp [RendersOptional, null, map_eq_ok]
    | some a => simp [RendersOptional, map_eq_ok, accepts a rfl v hv]

theorem items_cons_eq_ok {a : α} {as : List α} {v : Json} {vs : List Json} {i : Nat} :
    items check i (v :: vs) = .ok (a :: as) ↔
      check v = .ok a ∧ items check (i + 1) vs = .ok as := by
  rw [items, map_eq_ok]
  simp only [Prod.exists, both_eq_ok, Checked.under_eq_ok, List.cons.injEq]
  constructor
  · rintro ⟨_, _, both, rfl, rfl⟩
    exact both
  · intro both
    exact ⟨a, as, both, rfl, rfl⟩

theorem items_eq_ok {as : List α} (accepts : ∀ a ∈ as, Accepts check a (R a) (F a)) (i : Nat)
    {vs : List Json} (distinct : ∀ v ∈ vs, v.Distinct) :
    items check i vs = .ok as ↔ List.Forall₂ R as vs ∧ ∀ a ∈ as, F a := by
  induction vs generalizing i as with
  | nil => cases as <;> simp [items]
  | cons v vs ih =>
    cases as with
    | nil => simp [items, map_eq_ok]
    | cons a as =>
      rw [List.forall_mem_cons] at accepts distinct
      rw [items_cons_eq_ok, accepts.1 v distinct.1, ih accepts.2 (i + 1) distinct.2,
        List.forall₂_cons, List.forall_mem_cons]
      exact and_and_and_comm

theorem accepts_sequence (s : Source) (as : List α)
    (accepts : ∀ a ∈ as, Accepts check a (R a) (F a)) :
    Accepts (sequence s check) as (RendersEach R as) (∀ a ∈ as, F a) := by
  intro v hv
  cases hv with
  | array distinct => simp [sequence, RendersEach, items_eq_ok accepts 0 distinct]
  | _ => simp [sequence, RendersEach]

/-- A field that holds a part or null, and none if it is left out. -/
theorem Found.option (h : Found ms c given) (hf : f ∈ c.fields) (o : Option α)
    (accepts : ∀ a ∈ o, Accepts check a (R a) (F a)) (never : ∀ a ∈ o, ¬ R a .null) :
    Payload.optional ms f none (nullable check) = .ok o ↔
      GivenOr (o = none) (RendersOptional R o) (given f) ∧ ∀ a ∈ o, F a :=
  h.optional hf (by rintro rfl; simp) (accepts_nullable o accepts never)

/-- A field that holds an array of parts, and none if it is left out. -/
theorem Found.list (h : Found ms c given) (hf : f ∈ c.fields) (s : Source) (as : List α)
    (accepts : ∀ a ∈ as, Accepts check a (R a) (F a)) :
    Payload.optional ms f [] (sequence s check) = .ok as ↔
      GivenOr (as = []) (RendersEach R as) (given f) ∧ ∀ a ∈ as, F a :=
  h.optional hf (by rintro rfl; simp) (accepts_sequence s as accepts)

/-- A field that holds a text or null, and none if it is left out. -/
theorem Found.optionText (h : Found ms c given) (hf : f ∈ c.fields) (o : Option Text) :
    Payload.optional ms f none (nullable text) = .ok o ↔
      GivenOr (o = none) (RendersOptional RendersText o) (given f) := by
  rw [h.option hf o (fun t _ => accepts_text t) (by simp [RendersText])]
  exact and_iff_left fun _ _ => trivial

end

end Payload

end UsagePolicy
