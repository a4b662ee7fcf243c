import UsagePolicy.Proofs.Json.KeyOrder

/-!
# Canonical forms as normal forms

A value is in normal form if the keys of every object in it increase. The canonical form of a value
is the one value in normal form that agrees with it up to the order of keys, so a value that is in
normal form is its own canonical form.
-/

namespace UsagePolicy

namespace Json

/-- The keys of every object in the value strictly increase by code point. -/
inductive Increasing : Json → Prop
  | null : Increasing .null
  | bool (b : Bool) : Increasing (.bool b)
  | int (i : Int) : Increasing (.int i)
  | float (d : Double) : Increasing (.float d)
  | text (t : Text) : Increasing (.text t)
  | array {vs : List Json} : (∀ v ∈ vs, Increasing v) → Increasing (.array vs)
  | object {ms : Members} : (ms.map Prod.fst).Pairwise (· < ·) → (∀ m ∈ ms, Increasing m.2) →
    Increasing (.object ms)

variable {v w : Json}

theorem Increasing.distinct (h : v.Increasing) : v.Distinct := by
  induction h with
  | null => exact .null
  | bool b => exact .bool b
  | int i => exact .int i
  | float d => exact .float d
  | text t => exact .text t
  | array _ ih => exact .array ih
  | object sorted _ ih =>
    refine .object (sorted.imp fun lower => ?_) ih
    rintro rfl
    exact List.lt_irrefl _ lower

/-- Members whose keys increase are not moved. -/
theorem sortMembers_of_increasing {α : Type} {ms : List (Text × α)}
    (sorted : (ms.map Prod.fst).Pairwise (· < ·)) : sortMembers ms = ms := by
  induction ms with
  | nil => rfl
  | cons m ms ih =>
    rw [List.map_cons, List.pairwise_cons] at sorted
    rw [sortMembers, ih sorted.2]
    cases ms with
    | nil => rfl
    | cons n ns =>
      have lower : m.1 < n.1 := sorted.1 n.1 List.mem_cons_self
      have notHigher : ¬ n.1 < m.1 := fun higher =>
        List.lt_irrefl m.1 (List.lt_trans lower higher)
      rw [sortMembers.insertBefore, if_neg notHigher]

theorem increasing_canonical (h : v.Distinct) : v.canonical.Increasing := by
  induction h with
  | null => exact .null
  | bool b => exact .bool b
  | int i => exact .int i
  | float d => exact .float d
  | text t => exact .text t
  | @array vs _ ih =>
    apply Increasing.array
    intro w member
    rw [canonicalItems_eq] at member
    obtain ⟨v, old, rfl⟩ := List.mem_map.mp member
    exact ih v old
  | @object ms distinct _ ih =>
    refine .object ?_ fun m member => ?_
    · rw [List.pairwise_map]
      exact pairwise_sortMembers (by rwa [keys_canonicalMembers])
    · rw [(perm_sortMembers _).mem_iff, canonicalMembers_eq] at member
      obtain ⟨n, old, rfl⟩ := List.mem_map.mp member
      exact ih n old

theorem canonical_of_increasing (h : v.Increasing) : v.canonical = v := by
  induction h with
  | null | bool _ | int _ | float _ | text _ => rfl
  | @array vs _ ih =>
    have items : vs.map canonical = vs.map id := List.map_congr_left ih
    rw [canonical, canonicalItems_eq, items, List.map_id]
  | @object ms sorted _ ih =>
    have members : ms.map (fun m => (m.1, m.2.canonical)) = ms.map id :=
      List.map_congr_left fun m member => Prod.ext rfl (ih m member)
    rw [canonical, canonicalMembers_eq, members, List.map_id, sortMembers_of_increasing sorted]

theorem sameUpToOrder_canonical (h : v.Distinct) : SameUpToOrder v.canonical v := by
  have increasing := increasing_canonical h
  exact (canonical_eq_iff _ increasing.distinct h).mp (canonical_of_increasing increasing)

/-- The canonical form of a value is in normal form, agrees with the value up to the order of keys,
is shared by exactly the values that do so, and is its own canonical form. -/
theorem canonical_isNormalForm (h : v.Distinct) :
    v.canonical.Increasing ∧ SameUpToOrder v.canonical v ∧
      (∀ w : Json, w.Distinct → (v.canonical = w.canonical ↔ SameUpToOrder v w)) ∧
      v.canonical.canonical = v.canonical :=
  ⟨increasing_canonical h, sameUpToOrder_canonical h, fun _ hw => canonical_eq_iff v h hw,
    canonical_of_increasing (increasing_canonical h)⟩

/-- An object in an array in an object, none of them in normal form. -/
def disordered : Json :=
  .object [("b", .array [.object [("d", .null), ("c", .float .nan)], .int 1]), ("a", .bool true)]

theorem disordered_distinct : disordered.Distinct := by
  have inner : (object [("d", .null), ("c", .float .nan)]).Distinct := by
    refine .object (by decide) ?_
    simp only [List.forall_mem_cons]
    exact ⟨.null, .float .nan, nofun⟩
  refine .object (by decide) ?_
  simp only [List.forall_mem_cons]
  refine ⟨.array ?_, .bool true, nofun⟩
  simp only [List.forall_mem_cons]
  exact ⟨inner, .int 1, nofun⟩

theorem disordered_has_normalForm :
    disordered.Distinct ∧ disordered.canonical.Increasing ∧
      SameUpToOrder disordered.canonical disordered ∧
      disordered.canonical = .object
        [("a", .bool true), ("b", .array [.object [("c", .float .nan), ("d", .null)], .int 1])] := by
  obtain ⟨increasing, same, -, -⟩ := canonical_isNormalForm disordered_distinct
  exact ⟨disordered_distinct, increasing, same, by rfl⟩

end Json

end UsagePolicy
