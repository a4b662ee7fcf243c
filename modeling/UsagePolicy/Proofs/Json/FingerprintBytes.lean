import UsagePolicy.Json.Fingerprint
import UsagePolicy.Proofs.Json.Characters
import UsagePolicy.Proofs.Text.Bytes

/-!
# What a fingerprint digests

The bytes of a fingerprint are those of a text without surrogates, so they always exist and tell the
text; the text tells the canonical form, which it can be read back to; and the canonical form tells
the document up to the order of keys. So two documents have the same bytes exactly if they are the
same up to the order of keys and their own identifiers.
-/

namespace UsagePolicy

theorem CodePoint.IsPrintable.isSurrogate {c : CodePoint} (h : c.IsPrintable) :
    c.isSurrogate = false := by
  obtain ⟨-, within⟩ := h
  simp only [CodePoint.isSurrogate, Bool.and_eq_false_iff, decide_eq_false_iff_not]
  omega

namespace Text

variable {t : Text}

theorem isScalar_of_isPrintable (h : ∀ c ∈ t, c.IsPrintable) : isScalar t = true :=
  isScalar_iff.mpr fun c member => (h c member).isSurrogate

theorem isScalar_hex (w n : Nat) : isScalar (hex w n) = true :=
  isScalar_of_isPrintable fun _ => isPrintable_of_mem_hex

theorem isScalar_decimal (n : Nat) : isScalar (decimal n) = true :=
  isScalar_of_isPrintable fun _ => isPrintable_of_mem_decimal

end Text

namespace Json

/-! ## Texts without surrogates -/

section

variable {l : Layout} {t : Text} {c : CodePoint}

theorem isScalar_blank (blank : ∀ c ∈ t, isSpace c = true) : Text.isScalar t = true := by
  apply Text.isScalar_iff.mpr
  intro c member
  have space := blank c member
  simp only [isSpace, Bool.or_eq_true, beq_iff_eq] at space
  rcases space with ((rfl | rfl) | rfl) | rfl <;> rfl

theorem isScalar_escape (asciiOnly : Bool) (h : c.isSurrogate = false) :
    Text.isScalar (escape asciiOnly c) = true := by
  rcases escape_cases asciiOnly c with ⟨e, letter, -, spelled⟩ | spelled | ⟨-, -, -, spelled⟩
  · have scalar : e.isSurrogate = false := by
      unfold unescape? at letter
      split at letter
      case h_9 => cases letter
      all_goals rfl
    rw [spelled, Text.isScalar_cons, Text.isScalar_cons, scalar]
    rfl
  · rw [spelled]
    exact Text.isScalar_of_isPrintable fun _ => isPrintable_of_mem_unicodeEscape
  · rw [spelled, Text.isScalar_cons, h]
    rfl

theorem isScalar_writeText (asciiOnly : Bool) (h : t.isScalar = true) :
    Text.isScalar (writeText asciiOnly t) = true := by
  have inside : Text.isScalar (t.flatMap (escape asciiOnly)) = true := by
    induction t with
    | nil => rfl
    | cons c t ih =>
      obtain ⟨here, rest⟩ : c.isSurrogate = false ∧ Text.isScalar t = true := by simpa using h
      rw [List.flatMap_cons, Text.isScalar_append, isScalar_escape asciiOnly here, ih rest]
      rfl
  rw [writeText, List.cons_append, Text.isScalar_cons, Text.isScalar_append, inside]
  rfl

theorem Layout.Spaced.isScalar (hl : l.Spaced) :
    l.itemSeparator.isScalar = true ∧ l.keySeparator.isScalar = true := by
  obtain ⟨⟨s, item, itemBlank⟩, ⟨t, key, keyBlank⟩⟩ := hl
  rw [item, key, Text.isScalar_cons, Text.isScalar_cons, isScalar_blank itemBlank,
    isScalar_blank keyBlank]
  exact ⟨rfl, rfl⟩

theorem Layout.Spaced.keeps_scalar (hl : l.Spaced) :
    l.Keeps (fun t => t.isScalar = true) fun c => c.isSurrogate = false where
  printable := fun _ => CodePoint.IsPrintable.isSurrogate
  item := Text.isScalar_iff.mp hl.isScalar.1
  key := Text.isScalar_iff.mp hl.isScalar.2
  newline := fun _ => Text.isScalar_iff.mp (isScalar_blank fun _ => isSpace_of_mem_newline)
  text := fun _ scalar => Text.isScalar_iff.mp (isScalar_writeText _ scalar)

end

/-- No surrogate is written unless the value has one. -/
theorem isScalar_write {l : Layout} (hl : l.Spaced) (v : Json) (plain : v.Plain) (depth : Nat) :
    Text.isScalar (write l depth v) = true :=
  Text.isScalar_iff.mpr (hl.keeps_scalar.write v plain.plainWith depth)

/-! ## Plain documents -/

theorem Plain.distinct {v : Json} (h : v.Plain) : v.Distinct := by
  induction h with
  | null => exact .null
  | bool b => exact .bool b
  | @int i _ => exact .int i
  | @text t _ => exact .text t
  | array _ ih => exact .array ih
  | object distinct _ _ ih => exact .object distinct ih

theorem Plain.canonical {v : Json} (h : v.Plain) : v.canonical.Plain := by
  induction h with
  | null => exact .null
  | bool b => exact .bool b
  | int digits => exact .int digits
  | text scalar => exact .text scalar
  | @array vs _ ih =>
    apply Plain.array
    intro w member
    rw [canonicalItems_eq] at member
    obtain ⟨v, old, rfl⟩ := List.mem_map.mp member
    exact ih v old
  | @object ms distinct scalars _ ih =>
    have keys : (sortMembers (canonicalMembers ms)).map Prod.fst |>.Perm (ms.map Prod.fst) := by
      rw [← keys_canonicalMembers ms]
      exact (perm_sortMembers _).map Prod.fst
    have old : ∀ m ∈ sortMembers (canonicalMembers ms), ∃ n ∈ ms, (n.1, n.2.canonical) = m := by
      intro m member
      rw [(perm_sortMembers _).mem_iff, canonicalMembers_eq] at member
      exact List.mem_map.mp member
    refine .object (keys.nodup_iff.mpr distinct) (fun m member => ?_) (fun m member => ?_)
    · obtain ⟨n, isOld, rfl⟩ := old m member
      exact scalars n isOld
    · obtain ⟨n, isOld, rfl⟩ := old m member
      exact ih n isOld

theorem plain_fingerprinted {ms : Members} (h : (object ms).Plain) :
    (object (fingerprinted ms)).Plain := by
  cases h with
  | object distinct scalars plains =>
    have kept : (fingerprinted ms).Sublist ms := List.filter_sublist
    exact .object (distinct.sublist (kept.map Prod.fst))
      (fun m member => scalars m (kept.mem member)) (fun m member => plains m (kept.mem member))

/-! ## The bytes -/

/-- The fingerprint of the document with these members is the digest of these bytes. -/
def Digests (ms : Members) (bs : List UInt8) : Prop :=
  (fingerprintText ms).utf8? = .ok bs ∧ fingerprint (.object ms) = .ok (Sha256.hexDigest bs)

theorem digests_of_plain {ms : Members} (h : (object ms).Plain) :
    Digests ms (fingerprintText ms).utf8 := by
  have canonical := (plain_fingerprinted h).canonical
  have bytes : (fingerprintText ms).utf8? = .ok (fingerprintText ms).utf8 :=
    Text.utf8?_of_isScalar (isScalar_write spaced_compactLayout _ canonical 0)
  refine ⟨bytes, ?_⟩
  rw [fingerprint, bytes]

/-- Two documents have the same bytes digested exactly if they are the same up to the order of keys
at every level, without regard to their own identifiers. -/
theorem digested_eq_iff {ms ns : Members} (hm : (object ms).Plain) (hn : (object ns).Plain) :
    ∃ bs cs, Digests ms bs ∧ Digests ns cs ∧
      (bs = cs ↔ SameUpToOrder (.object (fingerprinted ms)) (.object (fingerprinted ns))) := by
  refine ⟨_, _, digests_of_plain hm, digests_of_plain hn, ?_⟩
  have hm := plain_fingerprinted hm
  have hn := plain_fingerprinted hn
  calc (fingerprintText ms).utf8 = (fingerprintText ns).utf8
      ↔ fingerprintText ms = fingerprintText ns := Text.utf8_injective.eq_iff
    _ ↔ canonical (.object (fingerprinted ms)) = canonical (.object (fingerprinted ns)) :=
        ⟨compact_inj hm.canonical hn.canonical, congrArg compact⟩
    _ ↔ SameUpToOrder (.object (fingerprinted ms)) (.object (fingerprinted ns)) :=
        canonical_eq_iff _ hm.distinct hn.distinct

/-- A document with objects inside an array. -/
def nestedDocument : Members :=
  [("@id", .text "a"), ("x", .array [.bool true, .object [("@id", .text "é"), ("p", .null)]]),
    ("y", .int (-5))]

/-- The same document with its keys in another order and another identifier of its own. -/
def reorderedDocument : Members :=
  [("y", .int (-5)), ("x", .array [.bool true, .object [("p", .null), ("@id", .text "é")]]),
    ("@id", .text "b")]

theorem plain_minusFive : (int (-5)).Plain := by
  apply Plain.int
  have digits : Text.decimal (Int.natAbs (-5)) = [CodePoint.ofDigit 5] := by
    rw [Text.decimal, if_pos (by decide)]
    rfl
  rw [digits]
  decide

theorem nestedDocument_plain : (object nestedDocument).Plain := by
  refine .object (by decide) (by decide) ?_
  have inner : (object [("@id", .text "é"), ("p", .null)]).Plain := by
    refine .object (by decide) (by decide) ?_
    simp only [List.forall_mem_cons]
    exact ⟨.text rfl, .null, nofun⟩
  simp only [nestedDocument, List.forall_mem_cons]
  refine ⟨.text rfl, .array ?_, plain_minusFive, nofun⟩
  simp only [List.forall_mem_cons]
  exact ⟨.bool true, inner, nofun⟩

theorem reorderedDocument_plain : (object reorderedDocument).Plain := by
  refine .object (by decide) (by decide) ?_
  have inner : (object [("p", .null), ("@id", .text "é")]).Plain := by
    refine .object (by decide) (by decide) ?_
    simp only [List.forall_mem_cons]
    exact ⟨.null, .text rfl, nofun⟩
  simp only [reorderedDocument, List.forall_mem_cons]
  refine ⟨plain_minusFive, .array ?_, .text rfl, nofun⟩
  simp only [List.forall_mem_cons]
  exact ⟨.bool true, inner, nofun⟩

theorem nestedDocument_digests_as_reordered :
    (object nestedDocument).Plain ∧ (object reorderedDocument).Plain ∧
      ∃ bs, Digests nestedDocument bs ∧ Digests reorderedDocument bs := by
  refine ⟨nestedDocument_plain, reorderedDocument_plain, ?_⟩
  have same : SameUpToOrder (.object (fingerprinted nestedDocument))
      (.object (fingerprinted reorderedDocument)) :=
    ⟨_, .swap _ _ _, rfl, ⟨rfl, ⟨_, .swap _ _ _, rfl, rfl, rfl, trivial, trivial⟩, trivial⟩, rfl,
      rfl, trivial⟩
  obtain ⟨bs, cs, first, second, equal⟩ :=
    digested_eq_iff nestedDocument_plain reorderedDocument_plain
  obtain rfl := equal.mpr same
  exact ⟨bs, first, second⟩

end Json

end UsagePolicy
