import UsagePolicy.Proofs.Json.Readable
import UsagePolicy.Proofs.Payload.Parts

/-!
# Room for references

A part takes no more references at once than containers nest in any value that renders it, apart
from the one more that leads from another class into a combination or a duty. So what is read from
the text of a payload, which nests less deeply than there is room, finds room in every rendering;
and a payload itself is checked without a limit.
-/

namespace UsagePolicy

open Payload (openReferences?)
open Json (GivenOr RendersOptional)

variable {s : Source} {c : NodeClass} {given : Field → Option Json} {n room : Nat} {v : Json}

/-- The values that are given nest at least one level less than `n`. -/
def NestBelow (n : Nat) (c : NodeClass) (given : Field → Option Json) : Prop :=
  ∀ f ∈ c.fields, ∀ w, given f = some w → w.nesting + 1 ≤ n

theorem Json.IsNode.nestBelow {P : (Field → Option Json) → Prop} (h : v.IsNode c P)
    (hn : v.nesting ≤ n) : ∃ given, P given ∧ NestBelow n c given := by
  obtain ⟨ms, given, rfl, spell, fields⟩ := h
  refine ⟨given, fields, fun f hf w hw => ?_⟩
  obtain ⟨k, member⟩ := spell.exists_member hf hw
  exact Json.nesting_object_le.mp hn _ member

theorem NestBelow.option {α : Type} {R : α → Json → Prop} {f : Field} {o : Option α}
    (h : NestBelow n c given) (hf : f ∈ c.fields)
    (field : GivenOr (o = none) (RendersOptional R o) (given f)) {a : α} (ha : a ∈ o) :
    ∃ w, R a w ∧ w.nesting + 1 ≤ n := by
  obtain ⟨w, hw, renders⟩ := field.option ha
  exact ⟨w, renders, h f hf w hw⟩

theorem NestBelow.list {α : Type} {R : α → Json → Prop} {f : Field} {as : List α}
    (h : NestBelow n c given) (hf : f ∈ c.fields)
    (field : GivenOr (as = []) (Json.RendersEach R as) (given f)) {a : α} (ha : a ∈ as) :
    ∃ w, R a w ∧ w.nesting + 2 ≤ n := by
  obtain ⟨vs, w, hw, member, renders⟩ := field.list ha
  have array := h f hf _ hw
  have item : w.nesting + 1 ≤ (Json.array vs).nesting :=
    Json.nesting_array_le.mp (Nat.le_refl _) w member
  exact ⟨w, renders, by omega⟩

theorem NestBelow.required {P : Json → Prop} {f : Field} (h : NestBelow n c given)
    (hf : f ∈ c.fields) (field : GivenOr False P (given f)) : 0 < n := by
  cases hw : given f with
  | none =>
    rw [hw] at field
    cases field
  | some w => exact Nat.lt_of_lt_of_le (Nat.succ_pos _) (h f hf w hw)

theorem exists_openReferences? (s : Source) {count room : Nat} (h : count ≤ room) :
    ∃ rest, openReferences? s count room = some rest ∧ room ≤ rest + count := by
  cases s with
  | payload => exact ⟨room, rfl, Nat.le_add_right _ _⟩
  | objects => exact ⟨room - count, if_pos h, by omega⟩

theorem Source.fitsOperand (s : Source) (h : 0 < room) : s.FitsOperand room := by
  obtain ⟨rest, hr, -⟩ := exists_openReferences? s (Nat.succ_le_of_lt h)
  rw [Source.FitsOperand, hr]
  rfl

/-! ## Renderings that do not nest too deeply -/

theorem Constraint.Renders.fitsIn : ∀ {c : Constraint} {untagged : Prop} {v : Json}
    {n count room : Nat}, c.Renders untagged v → v.nesting ≤ n → 0 < count →
      n + count ≤ room + 1 → Constraint.FitsIn s count room c
  | .atomic a, untagged, v, n, count, room, h, hn, positive, enough => by
    rw [Constraint.Renders] at h
    obtain ⟨given, ⟨-, left, -⟩, below⟩ := h.nestBelow hn
    have nested := below.required (by decide) left
    exact s.fitsOperand (by omega)
  | .multiplicity k cs, untagged, v, n, count, room, h, hn, positive, enough => by
    obtain ⟨given, ⟨-, kind, members⟩, below⟩ := (renders_multiplicity.mp h).nestBelow hn
    have nested := below.required (by decide) kind
    have opens : count ≤ room := by omega
    obtain ⟨rest, hr, left⟩ := exists_openReferences? s opens
    rw [FitsIn]
    refine ⟨rest, hr, allFitIn_iff.mpr fun c hc => ?_⟩
    obtain ⟨w, renders, shallow⟩ := below.list (by decide) members hc
    exact Constraint.Renders.fitsIn (n := n - 2) renders (by omega) Nat.one_pos (by omega)

theorem Constraint.Renders.allFitIn {k : MultiplicityKind} {cs : List Constraint} {untagged : Prop}
    (h : (Constraint.multiplicity k cs).Renders untagged v) (hn : v.nesting ≤ n)
    (enough : n ≤ room + 2) : Constraint.AllFitIn s room cs := by
  obtain ⟨given, ⟨-, kind, members⟩, below⟩ := (renders_multiplicity.mp h).nestBelow hn
  refine allFitIn_iff.mpr fun c hc => ?_
  obtain ⟨w, renders, shallow⟩ := below.list (by decide) members hc
  exact Constraint.Renders.fitsIn (n := n - 2) renders (by omega) Nat.one_pos (by omega)

theorem Action.Renders.fitsIn {a : Action} (h : a.Renders v) (hn : v.nesting ≤ n)
    (enough : n ≤ room) : a.FitsIn s room := by
  intro c hc
  obtain ⟨given, ⟨-, -, refinement⟩, below⟩ := h.nestBelow hn
  obtain ⟨w, renders, shallow⟩ := below.option (by decide) refinement hc
  exact Constraint.Renders.fitsIn (n := n - 1) renders (by omega) Nat.two_pos (by omega)

theorem Rule.RendersFields.fitsIn {r : Rule} (h : r.RendersFields given)
    (below : NestBelow n c given) (ha : .action ∈ c.fields) (hc : .constraints ∈ c.fields)
    (enough : n ≤ room + 1) : r.FitsIn s room := by
  obtain ⟨action, constraints⟩ := h
  constructor
  · intro a member
    obtain ⟨w, renders, shallow⟩ := below.option ha action member
    exact renders.fitsIn (n := n - 1) (by omega) (by omega)
  · intro c member
    obtain ⟨w, renders, shallow⟩ := below.list hc constraints member
    exact Constraint.Renders.fitsIn (n := n - 2) renders (by omega) Nat.two_pos (by omega)

theorem Duty.Renders.fitsIn : ∀ {d : Duty} {v : Json} {n count room : Nat}, d.Renders v →
    v.nesting ≤ n → n + count ≤ room → Duty.FitsIn s count room d
  | .mk r o, v, n, count, room, h, hn, enough => by
    obtain ⟨given, ⟨fields, consequence⟩, below⟩ := (Duty.renders_iff.mp h).nestBelow hn
    have opens : count ≤ room := by omega
    obtain ⟨rest, hr, left⟩ := exists_openReferences? s opens
    rw [Duty.fitsIn_iff]
    refine ⟨rest, hr, fields.fitsIn below (by decide) (by decide) (by omega), fun d hd => ?_⟩
    obtain ⟨w, renders, shallow⟩ := below.option (by decide) consequence hd
    exact Duty.Renders.fitsIn (n := n - 1) renders (by omega) (by omega)

theorem Permission.Renders.fitsIn {p : Permission} (h : p.Renders v) (hn : v.nesting ≤ n)
    (enough : n ≤ room) : p.FitsIn s room := by
  obtain ⟨given, ⟨fields, duties⟩, below⟩ := h.nestBelow hn
  refine ⟨fields.fitsIn below (by decide) (by decide) (by omega), fun d hd => ?_⟩
  obtain ⟨w, renders, shallow⟩ := below.list (by decide) duties hd
  exact Duty.Renders.fitsIn (n := n - 2) renders (by omega) (by omega)

theorem Prohibition.Renders.fitsIn {p : Prohibition} (h : p.Renders v) (hn : v.nesting ≤ n)
    (enough : n ≤ room) : p.rule.FitsIn s room := by
  obtain ⟨given, fields, below⟩ := h.nestBelow hn
  exact fields.fitsIn below (by decide) (by decide) (by omega)

theorem Policy.Renders.fitsIn {p : Policy} (h : p.Renders v) (hn : v.nesting ≤ n)
    (enough : n ≤ room) : p.FitsIn s room := by
  obtain ⟨given, fields, below⟩ := h.nestBelow hn
  refine ⟨fun q hq => ?_, fun q hq => ?_, fun d hd => ?_⟩
  · obtain ⟨w, renders, shallow⟩ := below.list (by decide) fields.permissions hq
    exact renders.fitsIn (n := n - 2) (by omega) (by omega)
  · obtain ⟨w, renders, shallow⟩ := below.list (by decide) fields.prohibitions hq
    exact renders.fitsIn (n := n - 2) (by omega) (by omega)
  · obtain ⟨w, renders, shallow⟩ := below.list (by decide) fields.obligations hd
    exact Duty.Renders.fitsIn (n := n - 2) renders (by omega) (by omega)

/-! ## Payloads -/

theorem Constraint.fitsIn_payload : ∀ (c : Constraint) (count room : Nat),
    Constraint.FitsIn .payload count room c
  | .atomic _, _, _ => rfl
  | .multiplicity _ _, _, room =>
    ⟨room, rfl, Constraint.allFitIn_iff.mpr fun c _ => Constraint.fitsIn_payload c 1 room⟩

theorem Rule.fitsIn_payload (r : Rule) (room : Nat) : r.FitsIn .payload room :=
  ⟨fun _ _ c _ => c.fitsIn_payload 2 room, fun c _ => c.fitsIn_payload 2 room⟩

theorem Duty.fitsIn_payload : ∀ (d : Duty) (count room : Nat), Duty.FitsIn .payload count room d
  | .mk r _, _, room =>
    Duty.fitsIn_iff.mpr ⟨room, rfl, r.fitsIn_payload room, fun d _ => Duty.fitsIn_payload d 1 room⟩

/-- No payload is too deep for its check. -/
theorem Policy.fitsIn_payload (p : Policy) (room : Nat) : p.FitsIn .payload room :=
  ⟨fun q _ => ⟨q.rule.fitsIn_payload room, fun d _ => d.fitsIn_payload 2 room⟩,
    fun q _ => q.rule.fitsIn_payload room, fun d _ => d.fitsIn_payload 2 room⟩

end UsagePolicy
