import UsagePolicy.Encoding.Document
import UsagePolicy.Proofs.Encoding.DepictedDocument

/-!
# Fingerprints of documents

A document is written by way of its JSON form, in which a member of a name set is its text, and its
fingerprint leaves its own identifier out. So the fingerprint does not change if texts take the
place of members of name sets and if the document gets another identifier.
-/

namespace UsagePolicy

namespace Value

/-! ## Members of name sets -/

mutual

/-- A value and its normal form are written alike. -/
theorem toJson_normal : ∀ v : Value, v.normal.toJson = v.toJson
  | .tuple vs => by simp only [normal, toJson, toJsonItems_normal vs]
  | .list vs => by simp only [normal, toJson, toJsonItems_normal vs]
  | .dict es => by simp only [normal, toJson, toJsonEntries_normal es]
  | .absent | .bool _ | .int _ | .float _ | .text _ | .member _ | .node _ => rfl

theorem toJsonItems_normal : ∀ vs : List Value, toJsonItems (normalItems vs) = toJsonItems vs
  | [] => rfl
  | v :: vs => by simp only [normalItems, toJsonItems, toJson_normal v, toJsonItems_normal vs]

theorem toJsonEntries_normal : ∀ es : List (Text × Value),
    toJsonEntries (normalEntries es) = toJsonEntries es
  | [] => rfl
  | (k, v) :: es => by
    simp only [normalEntries, toJsonEntries, toJson_normal v, toJsonEntries_normal es]

end

theorem normalEntries_insertBefore (k : Text) (v : Value) (es : List (Text × Value)) :
    normalEntries (Json.sortMembers.insertBefore (k, v) es) =
      Json.sortMembers.insertBefore (k, v.normal) (normalEntries es) := by
  induction es with
  | nil => rfl
  | cons e es ih =>
    obtain ⟨k', v'⟩ := e
    simp only [Json.sortMembers.insertBefore, normalEntries]
    split
    · rw [normalEntries, ih]
    · rfl

theorem normalEntries_sortMembers (es : List (Text × Value)) :
    normalEntries (Json.sortMembers es) = Json.sortMembers (normalEntries es) := by
  induction es with
  | nil => rfl
  | cons e es ih =>
    rw [Json.sortMembers, normalEntries_insertBefore, ih]
    rfl

mutual

/-- Entries are sorted by their keys, whatever their values. -/
theorem sorted_normal (inTuples : Bool) : ∀ v : Value,
    v.normal.sorted inTuples = (v.sorted inTuples).normal
  | .tuple vs => by
    cases inTuples with
    | false => rfl
    | true => exact congrArg Value.tuple (sortedItems_normal true vs)
  | .list vs => by simp only [normal, sorted, sortedItems_normal inTuples vs]
  | .dict es => by
    simp only [normal, sorted, sortedEntries_normal inTuples es, normalEntries_sortMembers]
  | .absent | .bool _ | .int _ | .float _ | .text _ | .member _ | .node _ => rfl

theorem sortedItems_normal (inTuples : Bool) : ∀ vs : List Value,
    sortedItems inTuples (normalItems vs) = normalItems (sortedItems inTuples vs)
  | [] => rfl
  | v :: vs => by
    simp only [normalItems, sortedItems, sorted_normal inTuples v, sortedItems_normal inTuples vs]

theorem sortedEntries_normal (inTuples : Bool) : ∀ es : List (Text × Value),
    sortedEntries inTuples (normalEntries es) = normalEntries (sortedEntries inTuples es)
  | [] => rfl
  | (k, v) :: es => by
    simp only [normalEntries, sortedEntries, sorted_normal inTuples v,
      sortedEntries_normal inTuples es]

end

/-- A document and its normal form have one fingerprint. -/
theorem fingerprint_normal (v : Value) : v.normal.fingerprint = v.fingerprint := by
  rw [fingerprint, sorted_normal, toJson_normal]
  rfl

/-! ## The identifier -/

theorem toJsonEntries_insertBefore (k t : Text) (es : List (Text × Value)) :
    toJsonEntries (Json.sortMembers.insertBefore (k, .text t) es) =
      (toJsonEntries es).map (Json.sortMembers.insertBefore (k, .text t)) := by
  induction es with
  | nil => rfl
  | cons e es ih =>
    obtain ⟨k', v⟩ := e
    simp only [Json.sortMembers.insertBefore]
    split
    · next lower =>
      rw [toJsonEntries, toJsonEntries, ih]
      cases v.toJson with
      | error r => rfl
      | ok j =>
        cases toJsonEntries es with
        | error r => rfl
        | ok ms => simp [Except.map, Json.sortMembers.insertBefore, lower]
    · next higher =>
      rw [toJsonEntries, toJson]
      dsimp only
      rw [toJsonEntries]
      cases v.toJson with
      | error r => rfl
      | ok j =>
        cases toJsonEntries es with
        | error r => rfl
        | ok ms => simp [Except.map, Json.sortMembers.insertBefore, higher]

end Value

theorem Json.fingerprinted_insertBefore (v : Json) (ms : Members) :
    fingerprinted (sortMembers.insertBefore (idKey, v) ms) = fingerprinted ms := by
  induction ms with
  | nil => simp [sortMembers.insertBefore, fingerprinted]
  | cons m ms ih =>
    rw [sortMembers.insertBefore]
    split
    · rw [fingerprinted, fingerprinted, List.filter_cons, List.filter_cons]
      rw [fingerprinted, fingerprinted] at ih
      rw [ih]
    · simp [fingerprinted]

/-- The fingerprint of a document does not depend on its identifier. -/
theorem Value.fingerprint_identified (t : Text) (es : List (Text × Value)) :
    (Value.dict ((Term.id, .text t) :: es)).fingerprint = (Value.dict es).fingerprint := by
  have written : ((Value.dict ((Term.id, .text t) :: es)).sorted true).toJson =
      ((toJsonEntries (Json.sortMembers (sortedEntries true es))).map
        (Json.sortMembers.insertBefore (Json.idKey, .text t))).map Json.object :=
    congrArg (Except.map Json.object) (toJsonEntries_insertBefore Term.id t _)
  rw [fingerprint, written, fingerprint, sorted, toJson]
  cases toJsonEntries (Json.sortMembers (sortedEntries true es)) with
  | error r => rfl
  | ok ms =>
    simp only [Except.map, Json.fingerprint, Json.fingerprintText, Json.fingerprinted_insertBefore]

end UsagePolicy
