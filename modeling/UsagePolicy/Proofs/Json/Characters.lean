import UsagePolicy.Proofs.Json.ReadBack

/-!
# The code points of written values

Outside of its strings a value is written with printable ASCII characters and with what the layout
puts between tokens. So a property that these and all written strings have is one of the whole text.
-/

namespace UsagePolicy

/-- An ASCII character that is no control character. -/
def CodePoint.IsPrintable (c : CodePoint) : Prop := 0x20 ≤ c.val ∧ c.val ≤ 0x7E

instance (c : CodePoint) : Decidable c.IsPrintable := by
  unfold CodePoint.IsPrintable
  infer_instance

namespace Text

variable {c : CodePoint}

theorem isPrintable_of_all {t : Text} (h : t.all (fun c => c.IsPrintable) = true) :
    ∀ c ∈ t, c.IsPrintable :=
  fun c member => of_decide_eq_true (List.all_eq_true.mp h c member)

theorem isPrintable_of_mem_decimal {n : Nat} (h : c ∈ decimal n) : c.IsPrintable := by
  have digit := isDigit_of_mem_decimal h
  simp only [CodePoint.isDigit, Bool.and_eq_true, decide_eq_true_eq] at digit
  exact ⟨by omega, by omega⟩

theorem isPrintable_of_mem_decimalInt {i : Int} (h : c ∈ decimalInt i) : c.IsPrintable := by
  cases i with
  | ofNat n => exact isPrintable_of_mem_decimal h
  | negSucc n =>
    rcases List.mem_cons.mp h with rfl | digit
    · decide
    · exact isPrintable_of_mem_decimal digit

theorem isPrintable_of_mem_hex {w n : Nat} (h : c ∈ hex w n) : c.IsPrintable := by
  induction w generalizing n with
  | zero => cases h
  | succ w ih =>
    rcases List.mem_append.mp h with front | last
    · exact ih front
    · obtain rfl := List.mem_singleton.mp last
      have val := CodePoint.val_ofHexDigit n
      unfold CodePoint.IsPrintable
      split at val <;> omega

end Text

namespace Json

/-- What the layout puts between tokens and what is written for texts of a kind has a property that
all printable characters have. -/
structure Layout.Keeps (l : Layout) (kind : Text → Prop) (p : CodePoint → Prop) : Prop where
  printable : ∀ c : CodePoint, c.IsPrintable → p c
  item : ∀ c ∈ l.itemSeparator, p c
  key : ∀ c ∈ l.keySeparator, p c
  newline : ∀ depth, ∀ c ∈ l.newline depth, p c
  text : ∀ t, kind t → ∀ c ∈ writeText l.asciiOnly t, p c

namespace Layout.Keeps

variable {l : Layout} {kind : Text → Prop} {p : CodePoint → Prop}

theorem word (h : l.Keeps kind p) {t : Text} (ht : t.all (fun c => c.IsPrintable) = true) :
    ∀ c ∈ t, p c :=
  fun c member => h.printable c (Text.isPrintable_of_all ht c member)

/-! ### Containers -/

section

variable {v : Json} {vs : List Json} {ms : Members} {k : Text} {depth : Nat}

theorem write_array (h : l.Keeps kind p) (first : ∀ c ∈ Json.write l (depth + 1) v, p c)
    (others : ∀ c ∈ Json.writeItems l (depth + 1) vs, p c) :
    ∀ c ∈ Json.write l depth (.array (v :: vs)), p c := by
  simp only [Json.write, List.cons_append, List.forall_mem_cons, List.forall_mem_append]
  exact ⟨h.printable _ (by decide), ⟨⟨⟨h.newline _, first⟩, others⟩, h.newline _⟩,
    h.printable _ (by decide), List.forall_mem_nil _⟩

theorem writeItems_cons (h : l.Keeps kind p) (first : ∀ c ∈ Json.write l depth v, p c)
    (others : ∀ c ∈ Json.writeItems l depth vs, p c) :
    ∀ c ∈ Json.writeItems l depth (v :: vs), p c := by
  simp only [Json.writeItems, List.forall_mem_append]
  exact ⟨⟨⟨h.item, h.newline _⟩, first⟩, others⟩

theorem write_object (h : l.Keeps kind p) (hk : kind k)
    (first : ∀ c ∈ Json.write l (depth + 1) v, p c)
    (others : ∀ c ∈ Json.writeMembers l (depth + 1) ms, p c) :
    ∀ c ∈ Json.write l depth (.object ((k, v) :: ms)), p c := by
  simp only [Json.write, List.cons_append, List.forall_mem_cons, List.forall_mem_append]
  exact ⟨h.printable _ (by decide), ⟨⟨⟨⟨⟨h.newline _, h.text k hk⟩, h.key⟩, first⟩, others⟩,
    h.newline _⟩, h.printable _ (by decide), List.forall_mem_nil _⟩

theorem writeMembers_cons (h : l.Keeps kind p) (hk : kind k)
    (first : ∀ c ∈ Json.write l depth v, p c)
    (others : ∀ c ∈ Json.writeMembers l depth ms, p c) :
    ∀ c ∈ Json.writeMembers l depth ((k, v) :: ms), p c := by
  simp only [Json.writeMembers, List.forall_mem_append]
  exact ⟨⟨⟨⟨⟨h.item, h.newline _⟩, h.text k hk⟩, h.key⟩, first⟩, others⟩

end

mutual

theorem write (h : l.Keeps kind p) : ∀ (v : Json), v.PlainWith kind → ∀ depth : Nat,
    ∀ c ∈ write l depth v, p c
  | .null, _, _ => h.word rfl
  | .bool true, _, _ => h.word rfl
  | .bool false, _, _ => h.word rfl
  | .int _, _, _ => fun c member => h.printable c (Text.isPrintable_of_mem_decimalInt member)
  | .float _, plain, _ => nomatch plain
  | .text t, .text legal, _ => h.text t legal
  | .array [], _, _ => h.word rfl
  | .array (v :: vs), .array plains, _ => by
    rw [List.forall_mem_cons] at plains
    exact h.write_array (h.write v plains.1 _) (h.writeItems vs plains.2 _)
  | .object [], _, _ => h.word rfl
  | .object ((k, v) :: ms), .object _ kinds plains, _ => by
    rw [List.forall_mem_cons] at kinds plains
    exact h.write_object kinds.1 (h.write v plains.1 _) (h.writeMembers ms kinds.2 plains.2 _)

theorem writeItems (h : l.Keeps kind p) : ∀ (vs : List Json), (∀ v ∈ vs, v.PlainWith kind) →
    ∀ depth : Nat, ∀ c ∈ writeItems l depth vs, p c
  | [], _, _ => List.forall_mem_nil _
  | v :: vs, plains, _ => by
    rw [List.forall_mem_cons] at plains
    exact h.writeItems_cons (h.write v plains.1 _) (h.writeItems vs plains.2 _)

theorem writeMembers (h : l.Keeps kind p) : ∀ (ms : Members), (∀ m ∈ ms, kind m.1) →
    (∀ m ∈ ms, m.2.PlainWith kind) → ∀ depth : Nat, ∀ c ∈ writeMembers l depth ms, p c
  | [], _, _, _ => List.forall_mem_nil _
  | (k, v) :: ms, kinds, plains, _ => by
    rw [List.forall_mem_cons] at kinds plains
    exact h.writeMembers_cons kinds.1 (h.write v plains.1 _) (h.writeMembers ms kinds.2 plains.2 _)

end

end Layout.Keeps

/-! ## Lines -/

section

variable {c : CodePoint}

theorem isPrintable_of_mem_unicodeEscape {x : CodePoint} (h : x ∈ unicodeEscape c) :
    x.IsPrintable := by
  have escaped : ∀ n : Nat, ∀ x ∈ (0x5C :: 0x75 :: Text.hex 4 n : Text), x.IsPrintable := by
    intro n
    simp only [List.forall_mem_cons]
    exact ⟨by decide, by decide, fun _ => Text.isPrintable_of_mem_hex⟩
  unfold unicodeEscape at h
  split at h
  · exact escaped _ x h
  · rcases List.mem_append.mp h with first | second
    · exact escaped _ x first
    · exact escaped _ x second

/-- Where code points outside ASCII are escaped, nothing but printable characters is written. -/
theorem isPrintable_of_mem_escape {x : CodePoint} (h : x ∈ escape true c) : x.IsPrintable := by
  unfold escape at h
  split at h
  case h_8 =>
    split at h
    · exact isPrintable_of_mem_unicodeEscape h
    · next within =>
      obtain rfl := List.mem_singleton.mp h
      simp only [true_and, not_or, Nat.not_lt] at within
      exact within
  all_goals
    simp only [List.mem_cons, List.not_mem_nil, or_false] at h
    rcases h with rfl | rfl <;> decide

theorem isPrintable_of_mem_writeText {t : Text} {x : CodePoint} (h : x ∈ writeText true t) :
    x.IsPrintable := by
  unfold writeText at h
  rcases List.mem_append.mp h with front | last
  · rcases List.mem_cons.mp front with rfl | inside
    · decide
    · obtain ⟨c, -, member⟩ := List.mem_flatMap.mp inside
      exact isPrintable_of_mem_escape member
  · obtain rfl := List.mem_singleton.mp last
    decide

end

theorem spaced_lineLayout : lineLayout.Spaced :=
  ⟨⟨[0x20], rfl, List.forall_mem_singleton.mpr rfl⟩,
    ⟨[0x20], rfl, List.forall_mem_singleton.mpr rfl⟩⟩

theorem keeps_lineLayout (kind : Text → Prop) : lineLayout.Keeps kind CodePoint.IsPrintable where
  printable := fun _ => id
  item := Text.isPrintable_of_all rfl
  key := Text.isPrintable_of_all rfl
  newline := fun _ => List.forall_mem_nil _
  text := fun _ _ _ => isPrintable_of_mem_writeText

/-- A line has no line breaks, no other control characters and nothing outside ASCII. -/
theorem isPrintable_of_mem_line {kind : Text → Prop} {v : Json} (plain : v.PlainWith kind)
    {c : CodePoint} (h : c ∈ v.line) : c.IsPrintable :=
  (keeps_lineLayout kind).write v plain 0 c h

end Json

end UsagePolicy
