import Mathlib.Data.List.Nodup
import UsagePolicy.Payload.Check
import UsagePolicy.Proofs.Json.KeyOrder
import UsagePolicy.Proofs.Payload.Rendering

/-!
# Fields of payloads

The check of a payload finds a field under its wire name or else under its name, and calls a key
that no field is found under an extra one. So it accepts the keys of an object exactly if each field
stands under at most one of its keys and nothing else is there, and then the order of the members
does not matter to what it finds.
-/

namespace UsagePolicy

/-- A key belongs to one field. -/
theorem Field.eq_of_isKey {f f' : Field} {k : Text} (h : f.IsKey k) (h' : f'.IsKey k) : f = f' := by
  rcases h with rfl | rfl <;> rcases h' with h' | h' <;>
    (revert h'; cases f <;> cases f' <;> decide)

namespace Payload

open Json (Members get? mem_of_get? get?_eq_none_iff)

variable {ms : Members} {c : NodeClass} {f : Field} {v : Json} {k : Text}

theorem mem_of_find? (h : find? ms f = some (k, v)) : f.IsKey k ∧ (k, v) ∈ ms := by
  unfold find? at h
  split at h
  · next w hw =>
    cases h
    exact ⟨.inl rfl, mem_of_get? hw⟩
  · obtain ⟨w, hw, same⟩ := Option.map_eq_some_iff.mp h
    cases same
    exact ⟨.inr rfl, mem_of_get? hw⟩

theorem not_isKey_of_find? (h : find? ms f = none) (m : Text × Json) (hm : m ∈ ms) :
    ¬ f.IsKey m.1 := by
  unfold find? at h
  split at h
  · cases h
  · next hw =>
    have hn := get?_eq_none_iff.mp (Option.map_eq_none_iff.mp h)
    have hw := get?_eq_none_iff.mp hw
    rintro (same | same)
    · exact hw (same ▸ List.mem_map_of_mem hm)
    · exact hn (same ▸ List.mem_map_of_mem hm)

/-- The only member that stands under a key of a field is the one that the field is found under. -/
theorem find?_of_unique {m : Text × Json} (hm : m ∈ ms) (hk : f.IsKey m.1)
    (unique : ∀ m' ∈ ms, f.IsKey m'.1 → m' = m) : find? ms f = some m := by
  cases hf : find? ms f with
  | none => exact absurd hk (not_isKey_of_find? hf m hm)
  | some e =>
    obtain ⟨hk', he⟩ := mem_of_find? hf
    rw [unique e he hk']

theorem extras_eq_nil_iff : extras c ms = [] ↔ ∀ m ∈ ms, ∃ f ∈ c.fields, ∃ w,
    find? ms f = some (m.1, w) := by
  have taken : ∀ m : Text × Json, takes c ms m.1 = true ↔
      ∃ f ∈ c.fields, ∃ w, find? ms f = some (m.1, w) := by
    intro m
    simp only [takes, List.any_eq_true, Option.any_eq_true, beq_iff_eq, Prod.exists]
    constructor
    · rintro ⟨f, hf, k, w, h, rfl⟩
      exact ⟨f, hf, w, h⟩
    · rintro ⟨f, hf, w, h⟩
      exact ⟨f, hf, _, w, h, rfl⟩
  simp only [extras, List.filterMap_eq_nil_iff, ite_eq_left_iff, reduceCtorEq, imp_false, not_not,
    taken]

end Payload

/-! ## Members that spell fields -/

namespace Json

open Payload

variable {ms : Members} {c : NodeClass} {given : Field → Option Json} {f : Field}

theorem Spell.eq_of_isKey (h : Spell ms c given) {m m' : Text × Json} (hm : m ∈ ms) (hm' : m' ∈ ms)
    (hk : f.IsKey m.1) (hk' : f.IsKey m'.1) : m = m' := by
  obtain ⟨f', hf', key, value⟩ := h.known m hm
  obtain rfl := Field.eq_of_isKey hk key
  exact (h.spelled f hf' (by rw [value]; rfl)).unique ⟨hm, hk⟩ ⟨hm', hk'⟩

/-- A value that is given stands under some key. -/
theorem Spell.exists_member (h : Spell ms c given) (hf : f ∈ c.fields) {w : Json}
    (hw : given f = some w) : ∃ k, (k, w) ∈ ms := by
  obtain ⟨⟨k, w'⟩, ⟨member, key⟩, -⟩ := h.spelled f hf (by rw [hw]; rfl)
  obtain ⟨f', -, key', value⟩ := h.known _ member
  obtain rfl := Field.eq_of_isKey key key'
  obtain rfl : w' = w := Option.some.inj (value.symm.trans hw)
  exact ⟨k, member⟩

/-- What is found of a field is what is given. -/
theorem Spell.find?_map (h : Spell ms c given) (hf : f ∈ c.fields) :
    (find? ms f).map Prod.snd = given f := by
  cases hx : find? ms f with
  | none =>
    cases hg : given f with
    | none => rfl
    | some v =>
      obtain ⟨m, ⟨hm, hk⟩, -⟩ := h.spelled f hf (by rw [hg]; rfl)
      exact absurd hk (not_isKey_of_find? hx m hm)
  | some e =>
    obtain ⟨hk, he⟩ := mem_of_find? hx
    obtain ⟨f', -, key, value⟩ := h.known e he
    obtain rfl := Field.eq_of_isKey hk key
    exact value.symm

theorem Spell.extras (h : Spell ms c given) : Payload.extras c ms = [] := by
  rw [extras_eq_nil_iff]
  intro m hm
  obtain ⟨f, hf, key, -⟩ := h.known m hm
  exact ⟨f, hf, m.2, find?_of_unique hm key fun m' hm' key' => h.eq_of_isKey hm' hm key' key⟩

theorem Spell.isScalar (h : Spell ms c given) : (ms.all fun m => m.1.isScalar) = true := by
  have ascii : ∀ f : Field, f.wireName.isScalar = true ∧ f.name.isScalar = true := by
    intro f
    cases f <;> decide
  rw [List.all_eq_true]
  intro m hm
  obtain ⟨f, -, wire | plain, -⟩ := h.known m hm
  · exact wire ▸ (ascii f).1
  · exact plain ▸ (ascii f).2

/-- The tag of a constraint is found like any other field, though its keys are tried in the other
order. -/
theorem Spell.tag? (h : Spell ms c given) (hf : .constraintType ∈ c.fields) :
    Payload.tag? ms = given .constraintType := by
  have member : ∀ {k v}, Field.IsKey .constraintType k → get? ms k = some v →
      given .constraintType = some v := by
    intro k v hk hv
    obtain ⟨f, -, key, value⟩ := h.known _ (mem_of_get? hv)
    obtain rfl := Field.eq_of_isKey hk key
    exact value
  unfold Payload.tag?
  split
  · next v hv => exact (member (.inr rfl) hv).symm
  · next hn =>
    cases hw : get? ms Field.constraintType.wireName with
    | some v => exact (member (.inl rfl) hw).symm
    | none =>
      have none := h.find?_map hf
      simpa [find?, hn, hw] using none

/-- Members without an extra key spell what is found in them. -/
theorem spell_of_extras (distinct : (ms.map Prod.fst).Nodup) (h : extras c ms = []) :
    Spell ms c fun f => (find? ms f).map Prod.snd where
  distinct := distinct
  known := by
    intro m hm
    obtain ⟨f, hf, w, hw⟩ := extras_eq_nil_iff.mp h m hm
    obtain ⟨key, member⟩ := mem_of_find? hw
    have same := List.inj_on_of_nodup_map distinct member hm rfl
    exact ⟨f, hf, key, by rw [hw, ← same, Option.map_some]⟩
  spelled := by
    intro f hf there
    obtain ⟨w, hw⟩ := Option.isSome_iff_exists.mp there
    obtain ⟨e, he, -⟩ := Option.map_eq_some_iff.mp hw
    obtain ⟨key, member⟩ := mem_of_find? he
    refine ⟨e, ⟨member, key⟩, ?_⟩
    rintro m ⟨hm, key'⟩
    -- the field that takes the key of the other member is the same one
    obtain ⟨f', -, w', hw'⟩ := extras_eq_nil_iff.mp h m hm
    obtain rfl := Field.eq_of_isKey key' (mem_of_find? hw').1
    have same : e.1 = m.1 := by rw [Option.some.inj (he.symm.trans hw')]
    exact List.inj_on_of_nodup_map distinct hm member same.symm

end Json

end UsagePolicy
