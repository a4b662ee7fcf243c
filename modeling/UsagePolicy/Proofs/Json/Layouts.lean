import UsagePolicy.Proofs.Json.ReadBack

/-!
# Layouts of one value

The compact and the indented text of a value are read as that value, and they are one text but for
the blanks between tokens. A blank inside a string is a part of the value, so deleting blanks needs
to know where strings begin and end: a quote after a backslash does not end one.
-/

namespace UsagePolicy

namespace Json

mutual

/-- The text without the blanks that stand outside of its strings. -/
def unblanked : Text → Text
  | [] => []
  | c :: r =>
    if isSpace c then unblanked r
    else if c = 0x22 then c :: unblankedString r
    else c :: unblanked r

/-- The text that goes on inside a string, without the blanks that stand outside of its strings. -/
def unblankedString : Text → Text
  | [] => []
  | 0x5C :: c :: r => 0x5C :: c :: unblankedString r
  | c :: r => if c = 0x22 then c :: unblanked r else c :: unblankedString r

end

/-- The layout without any blanks, with the escapes of the given one. -/
def Layout.bare (l : Layout) : Layout := ⟨",", ":", none, l.asciiOnly⟩

section

variable {l : Layout} {t r : Text} {c : CodePoint}

/-! ## Pieces of a text -/

theorem unblanked_blank (blank : ∀ c ∈ t, isSpace c = true) :
    unblanked (t ++ r) = unblanked r := by
  induction t with
  | nil => rfl
  | cons c t ih =>
    rw [List.forall_mem_cons] at blank
    rw [List.cons_append, unblanked, if_pos blank.1, ih blank.2]

theorem unblanked_cons (space : isSpace c = false) (quote : c ≠ 0x22) :
    unblanked (c :: r) = c :: unblanked r := by
  rw [unblanked, if_neg (by simp [space]), if_neg quote]

theorem unblanked_append (solid : ∀ c ∈ t, isSpace c = false ∧ c ≠ 0x22) :
    unblanked (t ++ r) = t ++ unblanked r := by
  induction t with
  | nil => rfl
  | cons c t ih =>
    rw [List.forall_mem_cons] at solid
    rw [List.cons_append, unblanked_cons solid.1.1 solid.1.2, ih solid.2, List.cons_append]

theorem unblankedString_cons (quote : c ≠ 0x22) (backslash : c ≠ 0x5C) :
    unblankedString (c :: r) = c :: unblankedString r := by
  rw [unblankedString, if_neg quote]
  rintro _ _ rfl
  exact absurd rfl backslash

theorem unblankedString_append (inner : ∀ c ∈ t, c ≠ 0x22 ∧ c ≠ 0x5C) :
    unblankedString (t ++ r) = t ++ unblankedString r := by
  induction t with
  | nil => rfl
  | cons c t ih =>
    rw [List.forall_mem_cons] at inner
    rw [List.cons_append, unblankedString_cons inner.1.1 inner.1.2, ih inner.2, List.cons_append]

/-! ## Strings -/

theorem not_special_of_mem_hex {w n : Nat} (h : c ∈ Text.hex w n) : c ≠ 0x22 ∧ c ≠ 0x5C := by
  induction w generalizing n with
  | zero => cases h
  | succ w ih =>
    rcases List.mem_append.mp h with front | last
    · exact ih front
    · obtain rfl := List.mem_singleton.mp last
      have val := CodePoint.val_ofHexDigit n
      constructor
      · intro same
        rw [same] at val
        have : (0x22 : CodePoint).val = 0x22 := rfl
        split at val <;> omega
      · intro same
        rw [same] at val
        have : (0x5C : CodePoint).val = 0x5C := rfl
        split at val <;> omega

theorem unblankedString_hex (n : Nat) :
    unblankedString (0x5C :: 0x75 :: Text.hex 4 n ++ r) =
      0x5C :: 0x75 :: Text.hex 4 n ++ unblankedString r := by
  rw [List.cons_append, List.cons_append, unblankedString,
    unblankedString_append fun _ => not_special_of_mem_hex]
  rfl

/-- The escape of a code point neither ends a string nor loses anything. -/
theorem unblankedString_escape (asciiOnly : Bool) (c : CodePoint) :
    unblankedString (escape asciiOnly c ++ r) = escape asciiOnly c ++ unblankedString r := by
  rcases escape_cases asciiOnly c with ⟨e, -, -, spelled⟩ | spelled | ⟨quote, backslash, -, spelled⟩
  · rw [spelled]
    rfl
  · rw [spelled, unicodeEscape]
    split
    · exact unblankedString_hex _
    · rw [List.append_assoc, unblankedString_hex, unblankedString_hex, ← List.append_assoc]
  · rw [spelled]
    exact unblankedString_cons quote backslash

theorem unblankedString_escapes (asciiOnly : Bool) (t : Text) :
    unblankedString (t.flatMap (escape asciiOnly) ++ 0x22 :: r) =
      t.flatMap (escape asciiOnly) ++ 0x22 :: unblanked r := by
  induction t with
  | nil => rfl
  | cons c t ih =>
    rw [List.flatMap_cons, List.append_assoc, unblankedString_escape, ih, List.append_assoc]

theorem unblanked_writeText (asciiOnly : Bool) (t : Text) :
    unblanked (writeText asciiOnly t ++ r) = writeText asciiOnly t ++ unblanked r := by
  have inside := unblankedString_escapes (r := r) asciiOnly t
  simp only [writeText, List.cons_append, List.append_assoc, List.nil_append]
  rw [← inside]
  rfl

/-! ## Punctuation and integers -/

theorem unblanked_newline (depth : Nat) : unblanked (l.newline depth ++ r) = unblanked r :=
  unblanked_blank fun _ => isSpace_of_mem_newline

theorem Layout.Spaced.unblanked_item (hl : l.Spaced) :
    unblanked (l.itemSeparator ++ r) = l.bare.itemSeparator ++ unblanked r := by
  obtain ⟨t, separator, blank⟩ := hl.item
  rw [separator, List.cons_append, unblanked_cons rfl (by decide), unblanked_blank blank]
  rfl

theorem Layout.Spaced.unblanked_key (hl : l.Spaced) :
    unblanked (l.keySeparator ++ r) = l.bare.keySeparator ++ unblanked r := by
  obtain ⟨t, separator, blank⟩ := hl.key
  rw [separator, List.cons_append, unblanked_cons rfl (by decide), unblanked_blank blank]
  rfl

theorem unblanked_decimalInt (i : Int) :
    unblanked (Text.decimalInt i ++ r) = Text.decimalInt i ++ unblanked r := by
  apply unblanked_append
  intro c member
  constructor
  · rw [Bool.eq_false_iff]
    intro space
    simp only [isSpace, Bool.or_eq_true, beq_iff_eq] at space
    rcases space with ((rfl | rfl) | rfl) | rfl <;>
      exact Text.not_mem_decimalInt rfl (by decide) member
  · rintro rfl
    exact Text.not_mem_decimalInt rfl (by decide) member

end

/-! ## Whole values -/

mutual

/-- Without its blanks the text of a value is that of the layout without blanks. -/
theorem unblanked_write {l : Layout} (hl : l.Spaced) : ∀ (v : Json), v.Plain →
    ∀ {depth : Nat} {r : Text},
      unblanked (write l depth v ++ r) = write l.bare depth v ++ unblanked r
  | .null, _, _, _ => rfl
  | .bool true, _, _, _ => rfl
  | .bool false, _, _, _ => rfl
  | .int i, _, _, _ => unblanked_decimalInt i
  | .float _, plain, _, _ => nomatch plain
  | .text t, _, _, _ => unblanked_writeText l.asciiOnly t
  | .array [], _, _, _ => rfl
  | .array (v :: vs), .array plains, _, _ => by
    rw [List.forall_mem_cons] at plains
    simp only [write, List.cons_append, List.append_assoc, List.nil_append]
    rw [unblanked_cons rfl (by decide), unblanked_newline, unblanked_write hl v plains.1,
      unblanked_writeItems hl vs plains.2, unblanked_newline, unblanked_cons rfl (by decide)]
    rfl
  | .object [], _, _, _ => rfl
  | .object ((k, v) :: ms), .object _ _ plains, _, _ => by
    rw [List.forall_mem_cons] at plains
    simp only [write, List.cons_append, List.append_assoc, List.nil_append]
    rw [unblanked_cons rfl (by decide), unblanked_newline, unblanked_writeText, hl.unblanked_key,
      unblanked_write hl v plains.1, unblanked_writeMembers hl ms plains.2, unblanked_newline,
      unblanked_cons rfl (by decide)]
    rfl

theorem unblanked_writeItems {l : Layout} (hl : l.Spaced) : ∀ (vs : List Json),
    (∀ v ∈ vs, v.Plain) → ∀ {depth : Nat} {r : Text},
      unblanked (writeItems l depth vs ++ r) = writeItems l.bare depth vs ++ unblanked r
  | [], _, _, _ => rfl
  | v :: vs, plains, _, _ => by
    rw [List.forall_mem_cons] at plains
    simp only [writeItems, List.append_assoc]
    rw [hl.unblanked_item, unblanked_newline, unblanked_write hl v plains.1,
      unblanked_writeItems hl vs plains.2]
    rfl

theorem unblanked_writeMembers {l : Layout} (hl : l.Spaced) : ∀ (ms : Members),
    (∀ m ∈ ms, m.2.Plain) → ∀ {depth : Nat} {r : Text},
      unblanked (writeMembers l depth ms ++ r) = writeMembers l.bare depth ms ++ unblanked r
  | [], _, _, _ => rfl
  | (k, v) :: ms, plains, _, _ => by
    rw [List.forall_mem_cons] at plains
    simp only [writeMembers, List.append_assoc]
    rw [hl.unblanked_item, unblanked_newline, unblanked_writeText, hl.unblanked_key,
      unblanked_write hl v plains.1, unblanked_writeMembers hl ms plains.2]
    rfl

end

theorem unblanked_pretty {v : Json} (plain : v.Plain) : unblanked v.pretty = v.compact := by
  have whole : unblanked (write prettyLayout 0 v ++ []) =
      write prettyLayout.bare 0 v ++ unblanked [] := unblanked_write spaced_prettyLayout v plain
  rw [List.append_nil] at whole
  rw [pretty, whole, unblanked, List.append_nil]
  rfl

/-- Both texts of a value are read as the value, with the keys of its objects in their order, and
without its blanks the indented text is the compact one. -/
theorem texts_read_back {v : Json} (plain : v.Plain) :
    read lenient v.compact = .ok v ∧ read lenient v.pretty = .ok v ∧
      unblanked v.pretty = v.compact :=
  ⟨read_write spaced_compactLayout rfl plain, read_write spaced_prettyLayout rfl plain,
    unblanked_pretty plain⟩

/-- A document with a string that looks like JSON, holds a line break and ends with a backslash. -/
def quotingDocument : Json :=
  .object [("z", .text "\"[ 1, 2 ]\" \n\\"), ("é", .array [.object [], .array [], .int (-40)])]

theorem quotingDocument_plain : quotingDocument.Plain := by
  refine .object (by decide) (by decide) ?_
  simp only [List.forall_mem_cons]
  refine ⟨.text rfl, .array ?_, nofun⟩
  simp only [List.forall_mem_cons]
  refine ⟨.object .nil nofun nofun, .array nofun, .int ?_, nofun⟩
  have short : (Text.decimal (Int.natAbs (-40))).length ≤ 2 :=
    Text.length_decimal_le (by decide) (by decide)
  exact Nat.le_trans short (by decide)

theorem quotingDocument_reads_back :
    quotingDocument.Plain ∧ read lenient quotingDocument.compact = .ok quotingDocument ∧
      read lenient quotingDocument.pretty = .ok quotingDocument ∧
      unblanked quotingDocument.pretty = quotingDocument.compact :=
  ⟨quotingDocument_plain, texts_read_back quotingDocument_plain⟩

end Json

end UsagePolicy
