import UsagePolicy.Proofs.Json.KeyOrder
import UsagePolicy.Proofs.Json.ReadToken

/-!
# Reading values that have been written

The text of a value brings the reader from where it awaits a value to where it has this value, and
leaves what follows. The reader keeps the containers under way on a stack, so the items after the
first one and the members after the first one have statements of their own, about the container on
top of the stack. A value whose text is read back is told by its text.
-/

namespace UsagePolicy

namespace Json

/-- A value that the reader gives back as it was written: without doubles, without surrogates in
its texts and keys, without integers beyond the limit on digits and without repeated keys. -/
inductive Plain : Json → Prop
  | null : Plain .null
  | bool (b : Bool) : Plain (.bool b)
  | int {i : Int} : (Text.decimal i.natAbs).length ≤ digitLimit → Plain (.int i)
  | text {t : Text} : t.isScalar = true → Plain (.text t)
  | array {vs : List Json} : (∀ v ∈ vs, Plain v) → Plain (.array vs)
  | object {ms : Members} : (ms.map Prod.fst).Nodup → (∀ m ∈ ms, m.1.isScalar = true) →
    (∀ m ∈ ms, Plain m.2) → Plain (.object ms)

/-- A value without doubles, without integers beyond the limit on digits and without repeated keys,
whose texts and keys are all of one kind. -/
inductive PlainWith (kind : Text → Prop) : Json → Prop
  | null : PlainWith kind .null
  | bool (b : Bool) : PlainWith kind (.bool b)
  | int {i : Int} : (Text.decimal i.natAbs).length ≤ digitLimit → PlainWith kind (.int i)
  | text {t : Text} : kind t → PlainWith kind (.text t)
  | array {vs : List Json} : (∀ v ∈ vs, PlainWith kind v) → PlainWith kind (.array vs)
  | object {ms : Members} : (ms.map Prod.fst).Nodup → (∀ m ∈ ms, kind m.1) →
    (∀ m ∈ ms, PlainWith kind m.2) → PlainWith kind (.object ms)

theorem Plain.plainWith {v : Json} (h : v.Plain) : v.PlainWith fun t => t.isScalar = true := by
  induction h with
  | null => exact .null
  | bool b => exact .bool b
  | int digits => exact .int digits
  | text scalar => exact .text scalar
  | array _ ih => exact .array ih
  | object distinct scalars _ ih => exact .object distinct scalars ih

theorem itemsHaveOversized_eq_false {vs : List Json} :
    itemsHaveOversized vs = false ↔ ∀ v ∈ vs, v.hasOversized = false := by
  induction vs with
  | nil => simp [itemsHaveOversized]
  | cons v vs ih => simp [itemsHaveOversized, ih]

theorem membersHaveOversized_eq_false {ms : Members} :
    membersHaveOversized ms = false ↔ ∀ m ∈ ms, m.2.hasOversized = false := by
  induction ms with
  | nil => simp [membersHaveOversized]
  | cons m ms ih =>
    rw [membersHaveOversized, Bool.or_eq_false_iff, ih, List.forall_mem_cons]

/-- Without integers beyond the limit on digits a value can be written. -/
theorem PlainWith.hasOversized {kind : Text → Prop} {v : Json} (h : v.PlainWith kind) :
    v.hasOversized = false := by
  induction h with
  | null => rfl
  | bool b => rfl
  | int digits => exact Text.isOversized_eq_false.mpr digits
  | text _ => rfl
  | array _ ih => exact itemsHaveOversized_eq_false.mpr ih
  | object _ _ _ ih => exact membersHaveOversized_eq_false.mpr ih

/-- The separators of the layout are a comma and a colon, each before nothing but blanks. -/
structure Layout.Spaced (l : Layout) : Prop where
  item : ∃ t, l.itemSeparator = 0x2C :: t ∧ ∀ c ∈ t, isSpace c = true
  key : ∃ t, l.keySeparator = 0x3A :: t ∧ ∀ c ∈ t, isSpace c = true

theorem spaced_compactLayout : compactLayout.Spaced :=
  ⟨⟨[], rfl, List.forall_mem_nil _⟩, ⟨[], rfl, List.forall_mem_nil _⟩⟩

theorem spaced_prettyLayout : prettyLayout.Spaced :=
  ⟨⟨[], rfl, List.forall_mem_nil _⟩, ⟨[0x20], rfl, List.forall_mem_singleton.mpr rfl⟩⟩

section

variable {d : Dialect} {l : Layout} {v : Json} {vs : List Json} {ms : Members} {k r t : Text}
  {p q : Progress} {st : List Frame} {x : Lexeme} {xs : List Lexeme} {depth : Nat}
  {kind : Text → Prop}

theorem isSpace_of_mem_newline {c : CodePoint} (h : c ∈ l.newline depth) : isSpace c = true := by
  unfold Layout.newline at h
  split at h
  · cases h
  · rcases List.mem_cons.mp h with rfl | blank
    · rfl
    · rw [List.eq_of_mem_replicate blank]
      rfl

theorem ends_blank (blank : ∀ c ∈ t, isSpace c = true) (h : Ends r) : Ends (t ++ r) := by
  cases t with
  | nil => exact h
  | cons c t =>
    have space := blank c List.mem_cons_self
    simp only [isSpace, Bool.or_eq_true, beq_iff_eq] at space
    apply ends_cons
    rcases space with ((rfl | rfl) | rfl) | rfl <;> decide

/-! ## Members with distinct keys -/

theorem insert_of_not_mem (h : k ∉ ms.map Prod.fst) : insert ms k v = ms ++ [(k, v)] := by
  induction ms with
  | nil => rfl
  | cons m ms ih =>
    rw [List.map_cons, List.mem_cons, not_or] at h
    rw [insert, if_neg (Ne.symm h.1), ih h.2]
    rfl

/-- What has been gathered stays in front, since none of its keys comes again. -/
theorem foldl_insert_of_nodup {ns : Members} (h : ((ns ++ ms).map Prod.fst).Nodup) :
    ms.foldl (fun ms m => insert ms m.1 m.2) ns = ns ++ ms := by
  induction ms generalizing ns with
  | nil => rw [List.foldl_nil, List.append_nil]
  | cons m ms ih =>
    have fresh : m.1 ∉ ns.map Prod.fst := by
      rw [List.map_append, List.map_cons, List.nodup_append] at h
      exact fun old => h.2.2 m.1 old m.1 List.mem_cons_self rfl
    rw [List.foldl_cons, insert_of_not_mem fresh, ih (by simpa using h), List.append_assoc,
      List.singleton_append]

theorem mergeRepeated_of_nodup (h : (ms.map Prod.fst).Nodup) : mergeRepeated ms = ms :=
  @foldl_insert_of_nodup ms [] h

/-! ## Single steps of the reader -/

namespace Progress

/-- The reader takes a value next, for the container on top of the stack. -/
def Awaits (d : Dialect) (p : Progress) (st : List Frame) : Prop :=
  ∀ x : Lexeme, x.token ≠ .closeArray → p.step d x = startValue st x

theorem awaits_value : (value st).Awaits d st := fun _ _ => rfl

theorem awaits_arrayStart (unbounded : d.nesting = none) :
    (arrayStart st).Awaits d (.array [] :: st) := by
  intro x opens
  rw [step]
  split
  · next closes => exact absurd closes opens
  · rw [Dialect.admits, unbounded]
    rfl

theorem Awaits.run_cons (h : p.Awaits d st) (opens : x.token ≠ .closeArray)
    (started : startValue st x = .ok q) : run d p (x :: xs) = run d q xs := by
  rw [run, h x opens, started]

theorem Awaits.run_openArray (h : p.Awaits d st) :
    run d p (⟨.openArray, t⟩ :: xs) = run d (.arrayStart st) xs :=
  h.run_cons nofun rfl

theorem Awaits.run_openObject (h : p.Awaits d st) :
    run d p (⟨.openObject, t⟩ :: xs) = run d (.objectStart st) xs :=
  h.run_cons nofun rfl

theorem run_cons (step : p.step d x = .ok q) : run d p (x :: xs) = run d q xs := by
  rw [run, step]

/-- A key and its colon are read. -/
theorem run_key (hl : l.Spaced) (legible : Legible d l.asciiOnly kind) (hk : kind k)
    (step : ∀ place, p.step d ⟨.text k, place⟩ = .ok (.colon ms k st)) :
    run d p (tokens d (writeText l.asciiOnly k ++ (l.keySeparator ++ r))) =
      run d (.value (.object ms k :: st)) (tokens d r) := by
  obtain ⟨t, separator, blank⟩ := hl.key
  rw [legible k hk, run_cons (step _), separator, List.cons_append, tokens_colon,
    run_cons rfl, tokens_blank blank]

/-- A comma and the blanks after it are read. -/
theorem run_separator (hl : l.Spaced) (step : ∀ place, p.step d ⟨.comma, place⟩ = .ok q) :
    run d p (tokens d (l.itemSeparator ++ (l.newline depth ++ r))) = run d q (tokens d r) := by
  obtain ⟨t, separator, blank⟩ := hl.item
  rw [separator, List.cons_append, tokens_comma, run_cons (step _), tokens_blank blank,
    tokens_blank fun _ => isSpace_of_mem_newline]

end Progress

/-! ## Whole values -/

theorem ends_writeItems (hl : l.Spaced) (h : Ends r) : Ends (writeItems l depth vs ++ r) := by
  cases vs with
  | nil => exact h
  | cons v vs =>
    obtain ⟨t, separator, -⟩ := hl.item
    rw [writeItems, separator]
    exact ends_cons (by decide)

theorem ends_writeMembers (hl : l.Spaced) (h : Ends r) : Ends (writeMembers l depth ms ++ r) := by
  cases ms with
  | nil => exact h
  | cons m ms =>
    obtain ⟨t, separator, -⟩ := hl.item
    rw [writeMembers, separator]
    exact ends_cons (by decide)

theorem ends_close {c : CodePoint} (h : c = 0x5D ∨ c = 0x7D) :
    Ends (l.newline depth ++ c :: r) := by
  apply ends_blank fun _ => isSpace_of_mem_newline
  rcases h with rfl | rfl <;> exact ends_cons (by decide)

end

variable {d : Dialect} {l : Layout} {kind : Text → Prop}

mutual

/-- The text of a value, where the reader awaits one, is read as this value. -/
theorem run_write (hl : l.Spaced) (unbounded : d.nesting = none)
    (legible : Legible d l.asciiOnly kind) : ∀ (v : Json), v.PlainWith kind →
    ∀ {depth : Nat} {p : Progress} {st : List Frame} {r : Text}, p.Awaits d st → Ends r →
      p.run d (tokens d (write l depth v ++ r)) = Progress.run d (.after v st) (tokens d r)
  | .null, _, _, _, _, _, awaits, _ => by
    rw [write, tokens_null]
    exact awaits.run_cons nofun rfl
  | .bool true, _, _, _, _, _, awaits, _ => by
    rw [write, tokens_true]
    exact awaits.run_cons nofun rfl
  | .bool false, _, _, _, _, _, awaits, _ => by
    rw [write, tokens_false]
    exact awaits.run_cons nofun rfl
  | .int i, plain, _, _, _, _, awaits, ends => by
    cases plain with
    | int digits =>
      rw [write, tokens_decimalInt digits ends]
      exact awaits.run_cons nofun rfl
  | .float _, plain, _, _, _, _, _, _ => nomatch plain
  | .text t, plain, _, _, _, _, awaits, _ => by
    cases plain with
    | text legal =>
      rw [write, legible t legal]
      exact awaits.run_cons nofun rfl
  | .array [], _, depth, _, _, r, awaits, _ => by
    have split : write l depth (.array []) ++ r = 0x5B :: 0x5D :: r := rfl
    rw [split, tokens_openArray, awaits.run_openArray, tokens_closeArray, Progress.run_cons rfl]
  | .array (v :: vs), plain, depth, _, st, r, awaits, _ => by
    cases plain with
    | array plains =>
      rw [List.forall_mem_cons] at plains
      simp only [write, List.cons_append, List.append_assoc, List.nil_append]
      -- the first item is read where the end of the array could come instead
      rw [tokens_openArray, awaits.run_openArray, tokens_blank fun _ => isSpace_of_mem_newline,
        run_write hl unbounded legible v plains.1 (Progress.awaits_arrayStart unbounded)
          (ends_writeItems hl (ends_close (.inl rfl))),
        run_writeItems hl unbounded legible vs plains.2]
      rfl
  | .object [], _, depth, _, _, r, awaits, _ => by
    have split : write l depth (.object []) ++ r = 0x7B :: 0x7D :: r := rfl
    rw [split, tokens_openObject, awaits.run_openObject, tokens_closeObject,
      Progress.run_cons rfl]
  | .object ((k, v) :: ms), plain, depth, _, st, r, awaits, _ => by
    cases plain with
    | object distinct kinds plains =>
      rw [List.forall_mem_cons] at kinds plains
      have first (place : Text) : (Progress.objectStart st).step d ⟨.text k, place⟩ =
          .ok (.colon [] k st) := by
        simp [Progress.step, Dialect.admits, unbounded, Progress.startKey]
      simp only [write, List.cons_append, List.append_assoc, List.nil_append]
      rw [tokens_openObject, awaits.run_openObject, tokens_blank fun _ => isSpace_of_mem_newline,
        Progress.run_key hl legible kinds.1 first,
        run_write hl unbounded legible v plains.1 Progress.awaits_value
          (ends_writeMembers hl (ends_close (.inr rfl))),
        run_writeMembers hl unbounded legible ms kinds.2 plains.2, List.reverse_nil, List.nil_append,
        mergeRepeated_of_nodup distinct]

/-- Further items of an array and its end are read. -/
theorem run_writeItems (hl : l.Spaced) (unbounded : d.nesting = none)
    (legible : Legible d l.asciiOnly kind) : ∀ (vs : List Json),
    (∀ v ∈ vs, v.PlainWith kind) →
    ∀ {depth below : Nat} {v : Json} {items : List Json} {st : List Frame} {r : Text},
      Progress.run d (.after v (.array items :: st))
          (tokens d (writeItems l depth vs ++ (l.newline below ++ 0x5D :: r))) =
        Progress.run d (.after (.array (items.reverse ++ v :: vs)) st) (tokens d r)
  | [], _, _, _, v, items, _, _ => by
    rw [writeItems, List.nil_append, tokens_blank fun _ => isSpace_of_mem_newline,
      tokens_closeArray, Progress.run_cons rfl, List.reverse_cons]
  | w :: vs, plains, _, _, v, items, _, _ => by
    rw [List.forall_mem_cons] at plains
    simp only [writeItems, List.append_assoc]
    rw [Progress.run_separator hl fun _ => rfl,
      run_write hl unbounded legible w plains.1 Progress.awaits_value
        (ends_writeItems hl (ends_close (.inl rfl))),
      run_writeItems hl unbounded legible vs plains.2, List.reverse_cons, List.append_assoc,
      List.singleton_append]

/-- Further members of an object and its end are read. -/
theorem run_writeMembers (hl : l.Spaced) (unbounded : d.nesting = none)
    (legible : Legible d l.asciiOnly kind) : ∀ (ms : Members),
    (∀ m ∈ ms, kind m.1) → (∀ m ∈ ms, m.2.PlainWith kind) →
    ∀ {depth below : Nat} {k : Text} {v : Json} {before : Members} {st : List Frame} {r : Text},
      Progress.run d (.after v (.object before k :: st))
          (tokens d (writeMembers l depth ms ++ (l.newline below ++ 0x7D :: r))) =
        Progress.run d (.after (.object (mergeRepeated (before.reverse ++ (k, v) :: ms))) st)
          (tokens d r)
  | [], _, _, _, _, k, v, before, _, _ => by
    rw [writeMembers, List.nil_append, tokens_blank fun _ => isSpace_of_mem_newline,
      tokens_closeObject, Progress.run_cons rfl, closeMembers, List.reverse_cons]
  | (n, w) :: ms, kinds, plains, _, _, k, v, before, _, _ => by
    rw [List.forall_mem_cons] at kinds plains
    simp only [writeMembers, List.append_assoc]
    rw [Progress.run_separator hl fun _ => rfl, Progress.run_key hl legible kinds.1 fun _ => rfl,
      run_write hl unbounded legible w plains.1 Progress.awaits_value
        (ends_writeMembers hl (ends_close (.inr rfl))),
      run_writeMembers hl unbounded legible ms kinds.2 plains.2, List.reverse_cons, List.append_assoc,
      List.singleton_append]

end

theorem head?_write_ne {v : Json} (plain : v.PlainWith kind) (depth : Nat) :
    (write l depth v).head? ≠ some 0xFEFF := by
  cases plain with
  | null => rw [write]; decide
  | bool b => cases b <;> rw [write] <;> decide
  | @int i _ =>
    rw [write]
    cases i with
    | ofNat n =>
      obtain ⟨c, cs, spelled, digit⟩ := exists_decimal_eq_cons n
      rw [Text.decimalInt, spelled, List.head?_cons]
      rintro ⟨⟩
      exact absurd digit (by decide)
    | negSucc n => rw [Text.decimalInt, List.head?_cons]; decide
  | text _ => rw [write, writeText, List.cons_append, List.head?_cons]; decide
  | @array vs _ =>
    cases vs with
    | nil => rw [write]; decide
    | cons v vs => simp only [write, List.cons_append, List.head?_cons]; decide
  | @object ms _ _ _ =>
    cases ms with
    | nil => rw [write]; decide
    | cons m ms => simp only [write, List.cons_append, List.head?_cons]; decide

/-- A value with texts that are read back is read back, by a reader that does not limit nesting. -/
theorem read_write_of_legible (hl : l.Spaced) (unbounded : d.nesting = none)
    (legible : Legible d l.asciiOnly kind) {v : Json} (plain : v.PlainWith kind) :
    read d (write l 0 v) = .ok v := by
  have whole : Progress.run d (.value []) (tokens d (write l 0 v ++ [])) = .ok v := by
    rw [run_write hl unbounded legible v plain Progress.awaits_value ends_nil, tokens]
    rfl
  rw [read, if_neg (head?_write_ne plain 0), ← whole, List.append_nil]

/-- A value that is written is read back, by a reader that does not limit nesting. -/
theorem read_write (hl : l.Spaced) (unbounded : d.nesting = none) {v : Json} (plain : v.Plain) :
    read d (write l 0 v) = .ok v :=
  read_write_of_legible hl unbounded (legible_isScalar l.asciiOnly) plain.plainWith

/-- Different values have different texts. -/
theorem compact_inj {v w : Json} (hv : v.Plain) (hw : w.Plain) (h : v.compact = w.compact) :
    v = w := by
  have first : read lenient v.compact = .ok v := read_write spaced_compactLayout rfl hv
  have second : read lenient w.compact = .ok w := read_write spaced_compactLayout rfl hw
  rw [h, second] at first
  exact (Except.ok.inj first).symm

end Json

end UsagePolicy
