import Mathlib.Data.List.Perm.Basic
import UsagePolicy.Json.Canonical

/-!
# The order of keys

Two values are the same up to the order of keys if the objects in them can be brought to agree by
reordering members, at every level. The canonical form sorts the members of every object, so it is
the same for exactly those values, as long as no object has a key twice.
-/

namespace UsagePolicy

namespace Json

/-- No object in the value has a key twice. -/
inductive Distinct : Json → Prop
  | null : Distinct .null
  | bool (b : Bool) : Distinct (.bool b)
  | int (i : Int) : Distinct (.int i)
  | float (d : Double) : Distinct (.float d)
  | text (t : Text) : Distinct (.text t)
  | array {vs : List Json} : (∀ v ∈ vs, Distinct v) → Distinct (.array vs)
  | object {ms : Members} : (ms.map Prod.fst).Nodup → (∀ m ∈ ms, Distinct m.2) →
    Distinct (.object ms)

mutual

/-- The values agree up to the order of keys in the objects at every level. Array items keep their
order, and scalars are of one type and equal. -/
def SameUpToOrder : Json → Json → Prop
  | .null, .null => True
  | .bool a, .bool b => a = b
  | .int i, .int j => i = j
  | .float d, .float e => d = e
  | .text s, .text t => s = t
  | .array vs, .array ws => SameItems vs ws
  | .object ms, .object ns => ∃ ns', ns'.Perm ns ∧ SameMembers ms ns'
  | _, _ => False

/-- The items agree one by one. -/
def SameItems : List Json → List Json → Prop
  | [], [] => True
  | v :: vs, w :: ws => SameUpToOrder v w ∧ SameItems vs ws
  | _, _ => False

/-- The members agree one by one. -/
def SameMembers : Members → Members → Prop
  | [], [] => True
  | (k, v) :: ms, (l, w) :: ns => k = l ∧ SameUpToOrder v w ∧ SameMembers ms ns
  | _, _ => False

end

/-! ## Looking a key up -/

section

variable {ms : Members} {k : Text} {v : Json}

theorem mem_of_get? (h : get? ms k = some v) : (k, v) ∈ ms := by
  induction ms with
  | nil => simp [get?] at h
  | cons m ms ih =>
    obtain ⟨l, w⟩ := m
    rw [get?] at h
    split at h
    · next u hu => exact List.mem_cons_of_mem _ (ih (hu.trans h))
    · split at h
      · next same =>
        obtain rfl := Option.some.inj h
        exact same ▸ List.mem_cons_self
      · cases h

theorem get?_eq_none_iff : get? ms k = none ↔ k ∉ ms.map Prod.fst := by
  induction ms with
  | nil => simp [get?]
  | cons m ms ih =>
    obtain ⟨l, w⟩ := m
    rw [get?]
    cases hu : get? ms k with
    | some u =>
      have present : k ∈ ms.map Prod.fst := List.mem_map_of_mem (mem_of_get? hu)
      simp [present]
    | none =>
      have absent := ih.mp hu
      rw [List.map_cons, List.mem_cons, not_or]
      by_cases same : l = k
      · simp [same]
      · simp [same, Ne.symm same, ih.mp hu]

end

/-! ## Sorted members -/

section

variable {α : Type} {m : Text × α} {ms ns : List (Text × α)}

theorem perm_insertBefore (m : Text × α) (ms : List (Text × α)) :
    (sortMembers.insertBefore m ms).Perm (m :: ms) := by
  induction ms with
  | nil => exact .refl _
  | cons n ns ih =>
    rw [sortMembers.insertBefore]
    split
    · exact (ih.cons n).trans (.swap m n ns)
    · exact .refl _

theorem perm_sortMembers (ms : List (Text × α)) : (sortMembers ms).Perm ms := by
  induction ms with
  | nil => exact .refl _
  | cons m ms ih => exact (perm_insertBefore m _).trans (ih.cons m)

theorem pairwise_insertBefore (sorted : ms.Pairwise fun a b => a.1 < b.1)
    (fresh : m.1 ∉ ms.map Prod.fst) :
    (sortMembers.insertBefore m ms).Pairwise fun a b => a.1 < b.1 := by
  induction ms with
  | nil => exact List.pairwise_singleton _ m
  | cons n ns ih =>
    obtain ⟨first, rest⟩ := List.pairwise_cons.mp sorted
    rw [List.map_cons, List.mem_cons, not_or] at fresh
    rw [sortMembers.insertBefore]
    split
    · next lower =>
      refine List.pairwise_cons.mpr ⟨fun a member => ?_, ih rest fresh.2⟩
      rcases List.mem_cons.mp ((perm_insertBefore m ns).mem_iff.mp member) with rfl | member
      · exact lower
      · exact first a member
    · next notLower =>
      have higher : m.1 < n.1 := by
        by_cases higher : m.1 < n.1
        · exact higher
        · exact absurd (List.le_antisymm notLower higher) fresh.1
      refine List.pairwise_cons.mpr ⟨fun a member => ?_, sorted⟩
      rcases List.mem_cons.mp member with rfl | member
      · exact higher
      · exact List.lt_trans higher (first a member)

/-- The keys of sorted members increase, if none of them occurs twice. -/
theorem pairwise_sortMembers (distinct : (ms.map Prod.fst).Nodup) :
    (sortMembers ms).Pairwise fun a b => a.1 < b.1 := by
  induction ms with
  | nil => exact .nil
  | cons m ms ih =>
    rw [List.map_cons, List.nodup_cons] at distinct
    apply pairwise_insertBefore (ih distinct.2)
    rw [((perm_sortMembers ms).map Prod.fst).mem_iff]
    exact distinct.1

/-- Members are sorted alike exactly if they are the same in another order. -/
theorem sortMembers_eq_iff (distinct : (ns.map Prod.fst).Nodup) :
    sortMembers ms = sortMembers ns ↔ ms.Perm ns := by
  constructor
  · intro same
    exact (perm_sortMembers ms).symm.trans (same ▸ perm_sortMembers ns)
  · intro perm
    have distinct' : (ms.map Prod.fst).Nodup := (perm.map Prod.fst).nodup_iff.mpr distinct
    refine List.Perm.eq_of_pairwise (fun a b _ _ lower higher => ?_)
      (pairwise_sortMembers distinct') (pairwise_sortMembers distinct)
      ((perm_sortMembers ms).trans (perm.trans (perm_sortMembers ns).symm))
    exact absurd (List.lt_trans lower higher) (List.lt_irrefl a.1)

end

/-! ## Canonical forms -/

theorem canonicalItems_eq (vs : List Json) : canonicalItems vs = vs.map canonical := by
  induction vs with
  | nil => rfl
  | cons v vs ih => rw [canonicalItems, ih, List.map_cons]

theorem canonicalMembers_eq (ms : Members) :
    canonicalMembers ms = ms.map fun m => (m.1, m.2.canonical) := by
  induction ms with
  | nil => rfl
  | cons m ms ih => rw [canonicalMembers, ih, List.map_cons]

theorem keys_canonicalMembers (ms : Members) :
    (canonicalMembers ms).map Prod.fst = ms.map Prod.fst := by
  simp [canonicalMembers_eq]

theorem Distinct.of_perm {ms ns : Members} (perm : ms.Perm ns)
    (h : ∀ m ∈ ns, m.2.Distinct) : ∀ m ∈ ms, m.2.Distinct :=
  fun m member => h m (perm.mem_iff.mp member)

/-- What has the canonical members of an object in some order is the canonical form of the members
in that order. -/
theorem exists_perm_canonicalMembers {es ns : Members} (perm : es.Perm (canonicalMembers ns)) :
    ∃ ns', ns'.Perm ns ∧ es = canonicalMembers ns' := by
  rw [canonicalMembers_eq] at perm
  obtain ⟨ns', same, perm⟩ := (congrFun₂ (List.eq_map_comp_perm _) es ns).mpr perm
  exact ⟨ns', perm, by rw [canonicalMembers_eq, same]⟩

mutual

/-- Values without repeated keys have one canonical form exactly if they are the same up to the
order of keys. -/
theorem canonical_eq_iff : ∀ (v : Json) {w : Json}, v.Distinct → w.Distinct →
    (v.canonical = w.canonical ↔ SameUpToOrder v w)
  | .array vs, w, hv, hw => by
    cases hv with
    | array hvs =>
      cases hw with
      | array hws =>
        simp only [canonical, Json.array.injEq, SameUpToOrder]
        exact canonicalItems_eq_iff vs hvs hws
      | _ => simp [canonical, SameUpToOrder]
  | .object ms, w, hv, hw => by
    cases hv with
    | object distinct hms =>
      cases hw with
      | @object ns distinct' hns =>
        simp only [canonical, Json.object.injEq, SameUpToOrder]
        rw [sortMembers_eq_iff (by rwa [keys_canonicalMembers])]
        constructor
        · intro perm
          obtain ⟨ns', perm', same⟩ := exists_perm_canonicalMembers perm
          refine ⟨ns', perm', ?_⟩
          exact (canonicalMembers_eq_iff ms hms (Distinct.of_perm perm' hns)).mp same
        · rintro ⟨ns', perm', same⟩
          rw [(canonicalMembers_eq_iff ms hms (Distinct.of_perm perm' hns)).mpr same,
            canonicalMembers_eq, canonicalMembers_eq]
          exact perm'.map _
      | _ => simp [canonical, SameUpToOrder]
  | .null, w, _, _ | .bool _, w, _, _ | .int _, w, _, _ | .float _, w, _, _
  | .text _, w, _, _ => by
    cases w <;> simp [canonical, SameUpToOrder]

theorem canonicalItems_eq_iff : ∀ (vs : List Json) {ws : List Json}, (∀ v ∈ vs, v.Distinct) →
    (∀ w ∈ ws, w.Distinct) → (canonicalItems vs = canonicalItems ws ↔ SameItems vs ws)
  | [], ws, _, _ => by cases ws <;> simp [canonicalItems, SameItems]
  | v :: vs, ws, hvs, hws => by
    rw [List.forall_mem_cons] at hvs
    cases ws with
    | nil => simp [canonicalItems, SameItems]
    | cons w ws =>
      rw [List.forall_mem_cons] at hws
      simp only [canonicalItems, SameItems, List.cons.injEq, canonical_eq_iff v hvs.1 hws.1,
        canonicalItems_eq_iff vs hvs.2 hws.2]

theorem canonicalMembers_eq_iff : ∀ (ms : Members) {ns : Members}, (∀ m ∈ ms, m.2.Distinct) →
    (∀ n ∈ ns, n.2.Distinct) → (canonicalMembers ms = canonicalMembers ns ↔ SameMembers ms ns)
  | [], ns, _, _ => by cases ns <;> simp [canonicalMembers, SameMembers]
  | (k, v) :: ms, ns, hms, hns => by
    rw [List.forall_mem_cons] at hms
    cases ns with
    | nil => simp [canonicalMembers, SameMembers]
    | cons n ns =>
      obtain ⟨l, w⟩ := n
      rw [List.forall_mem_cons] at hns
      simp only [canonicalMembers, SameMembers, List.cons.injEq, Prod.mk.injEq, and_assoc,
        canonical_eq_iff v hms.1 hns.1, canonicalMembers_eq_iff ms hms.2 hns.2]

end

end Json

end UsagePolicy
