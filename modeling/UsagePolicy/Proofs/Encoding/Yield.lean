import Mathlib.Data.List.Forall2
import UsagePolicy.Proofs.Encoding.Visit

/-!
# What outlines yield

A walk that comes to its end fills every place of an outline with what the filler gives for it.
`Outline.Yields` says so without the trail of the walk, and without the steps in between.
-/

namespace UsagePolicy

namespace Outline

variable (P : Spot → Value → Path → Value → Prop)

mutual

/-- The value is the outline with its places filled as described. -/
def Yields : Outline → Value → Prop
  | .leaf v, d => d = v
  | .fault _, _ => False
  | .place s v p, d => P s v p d
  | .items os, d => ∃ ds, d = .list ds ∧ YieldsItems os ds
  | .members ms, d => ∃ es, d = .dict es ∧ YieldsMembers ms es

/-- The values are the items filled as described. -/
def YieldsItems : List Outline → List Value → Prop
  | [], ds => ds = []
  | o :: os, ds => ∃ d ds', ds = d :: ds' ∧ Yields o d ∧ YieldsItems os ds'

/-- The entries are the members filled as described. -/
def YieldsMembers : List (Text × Outline) → List (Text × Value) → Prop
  | [], es => es = []
  | (k, o) :: ms, es => ∃ d es', es = (k, d) :: es' ∧ Yields o d ∧ YieldsMembers ms es'

end

variable {P}

theorem yieldsMembers_append {ms ns : List (Text × Outline)} {es : List (Text × Value)} :
    YieldsMembers P (ms ++ ns) es ↔
      ∃ es₁ es₂, es = es₁ ++ es₂ ∧ YieldsMembers P ms es₁ ∧ YieldsMembers P ns es₂ := by
  induction ms generalizing es with
  | nil =>
    constructor
    · intro rest
      exact ⟨[], es, rfl, rfl, rest⟩
    · rintro ⟨_, es₂, rfl, rfl, rest⟩
      exact rest
  | cons m ms ih =>
    obtain ⟨k, o⟩ := m
    simp only [List.cons_append, YieldsMembers, ih]
    constructor
    · rintro ⟨d, _, rfl, first, es₁, es₂, rfl, inner, rest⟩
      exact ⟨(k, d) :: es₁, es₂, rfl, ⟨d, es₁, rfl, first, inner⟩, rest⟩
    · rintro ⟨_, es₂, rfl, ⟨d, es₁, rfl, first, inner⟩, rest⟩
      exact ⟨d, es₁ ++ es₂, rfl, first, es₁, es₂, rfl, inner, rest⟩

/-- Places one after the other are filled one by one. -/
theorem yieldsItems_places {s : Spot} {path : Nat → Path} {vs ds : List Value}
    (h : YieldsItems P (vs.mapIdx fun i v => .place s v (path i)) ds) :
    List.Forall₂ (fun v d => ∃ p, P s v p d) vs ds := by
  induction vs generalizing path ds with
  | nil =>
    obtain rfl : ds = [] := h
    exact .nil
  | cons v vs ih =>
    rw [List.mapIdx_cons] at h
    obtain ⟨d, ds, rfl, first, rest⟩ := h
    exact .cons ⟨_, first⟩ (ih rest)

/-- What a filler gives for the places is as described. -/
def Fills (P : Spot → Value → Path → Value → Prop) (f : Filler) : Prop :=
  ∀ s v p t d t', f s v p t = (.ok d, t') → P s v p d

mutual

/-- A walk that comes to its end yields what the filler gives for the places. -/
theorem yields_of_fill {f : Filler} (hf : Fills P f) : ∀ (o : Outline) {t t' : Trail} {d : Value},
    o.fill f t = (.ok d, t') → Yields P o d
  | .leaf v, t, t', d, h => by
    simp only [fill, Prod.mk.injEq, Except.ok.injEq] at h
    exact h.1.symm
  | .fault e, t, t', d, h => by simp [fill] at h
  | .place s v p, t, t', d, h => hf s v p t d t' h
  | .items os, t, t', d, h => by
    rw [fill] at h
    split at h
    · next ds u hds =>
      obtain ⟨h, -⟩ := Prod.mk.inj h
      exact ⟨ds, (Except.ok.inj h).symm, yieldsItems_of_fill hf os hds⟩
    · simp at h
  | .members ms, t, t', d, h => by
    rw [fill] at h
    split at h
    · next es u hes =>
      obtain ⟨h, -⟩ := Prod.mk.inj h
      exact ⟨es, (Except.ok.inj h).symm, yieldsMembers_of_fill hf ms hes⟩
    · simp at h

theorem yieldsItems_of_fill {f : Filler} (hf : Fills P f) :
    ∀ (os : List Outline) {t t' : Trail} {ds : List Value},
      fillItems f os t = (.ok ds, t') → YieldsItems P os ds
  | [], t, t', ds, h => by
    simp only [fillItems, Prod.mk.injEq, Except.ok.injEq] at h
    exact h.1.symm
  | o :: os, t, t', ds, h => by
    rw [fillItems] at h
    split at h
    · simp at h
    · next d u hd =>
      split at h
      · next ds' u' hds =>
        obtain ⟨h, -⟩ := Prod.mk.inj h
        exact ⟨d, ds', (Except.ok.inj h).symm, yields_of_fill hf o hd,
          yieldsItems_of_fill hf os hds⟩
      · simp at h

theorem yieldsMembers_of_fill {f : Filler} (hf : Fills P f) :
    ∀ (ms : List (Text × Outline)) {t t' : Trail} {es : List (Text × Value)},
      fillMembers f ms t = (.ok es, t') → YieldsMembers P ms es
  | [], t, t', es, h => by
    simp only [fillMembers, Prod.mk.injEq, Except.ok.injEq] at h
    exact h.1.symm
  | (k, o) :: ms, t, t', es, h => by
    rw [fillMembers] at h
    split at h
    · simp at h
    · next d u hd =>
      split at h
      · next es' u' hes =>
        obtain ⟨h, -⟩ := Prod.mk.inj h
        exact ⟨d, es', (Except.ok.inj h).symm, yields_of_fill hf o hd,
          yieldsMembers_of_fill hf ms hes⟩
      · simp at h

end

end Outline

namespace Graph

open Outline

/-- Some visit encodes the value as the document. -/
def Encodes (g : Graph) (limit : Int) (s : Spot) (v : Value) (p : Path) (d : Value) : Prop :=
  ∃ room t t', visit g limit room s v p t = (.ok d, t')

theorem fills_visit (g : Graph) (limit : Int) (room : Nat) :
    Fills (g.Encodes limit) (visit g limit room) := fun _ _ _ t _ t' h => ⟨room, t, t', h⟩

theorem fills_visitFrom (g : Graph) (limit : Int) : Fills (g.Encodes limit) (visitFrom g limit) :=
  fun _ _ _ t _ t' h => ⟨limit.toNat - t.active.length, t, t', h⟩

/-- A value is encoded as what its outline yields. -/
theorem Encodes.yields {g : Graph} {limit : Int} {s : Spot} {v : Value} {p : Path} {d : Value}
    (h : g.Encodes limit s v p d) : Yields (g.Encodes limit) (ofSpot g s v p) d := by
  obtain ⟨room, t, t', h⟩ := h
  rcases visit_cases h with ⟨e, -, out, -⟩ | ⟨-, -, out, -⟩ | ⟨-, n, u, -, filled, -⟩
  · cases out
  · cases out
  · exact yields_of_fill (fills_visit g limit n) _ filled

end Graph

end UsagePolicy
