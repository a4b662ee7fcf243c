import Mathlib.Data.Option.Basic
import UsagePolicy.Logging.Record
import UsagePolicy.Proofs.Json.Unsplit
import UsagePolicy.Proofs.Logging.Timestamps

/-!
# Structured lines

The line of a record is read back as an object that tells the record and its circumstances, each
under a key of its own, whatever the texts of the record hold. Two things are asked of the record:
that its time and its integers can be written, and that the reader gives its texts back at all. Further
members stand inside one member, so none of them comes near the others.
-/

namespace UsagePolicy

/-! ## Identifiers -/

namespace Text

/-- The number that hexadecimal digits denote. -/
def hexNumber? (t : Text) : Option Nat :=
  t.foldlM (fun n c => c.hexValue?.map fun digit => 16 * n + digit) 0

theorem length_hex (w n : Nat) : (hex w n).length = w := by
  induction w generalizing n with
  | zero => rfl
  | succ w ih => rw [hex, List.length_append, ih, List.length_singleton]

theorem hexNumber?_append (t : Text) (c : CodePoint) :
    (t ++ [c]).hexNumber? =
      t.hexNumber?.bind fun n => c.hexValue?.map fun digit => 16 * n + digit := by
  rw [hexNumber?, List.foldlM_append, ← hexNumber?]
  simp only [List.foldlM, bind_pure]
  rfl

theorem hexNumber?_hex (w n : Nat) : (hex w n).hexNumber? = some (n % 16 ^ w) := by
  induction w generalizing n with
  | zero =>
    rw [Nat.pow_zero, Nat.mod_one]
    rfl
  | succ w ih =>
    rw [hex, hexNumber?_append, ih, CodePoint.hexValue?_ofHexDigit, Nat.pow_succ, Nat.mul_comm,
      Nat.mod_mul, Nat.add_comm]
    rfl

end Text

namespace SpanContext

/-- The span is told by the numbers of its trace and of itself in hexadecimal digits, or not at all
if it is not valid. -/
def ToldBy (s : SpanContext) (trace span : Option Json) : Prop :=
  if s.isValid then
    ∃ t u : Text, trace = some (.text t) ∧ span = some (.text u) ∧
      t.length = 32 ∧ t.hexNumber? = some s.trace ∧ u.length = 16 ∧ u.hexNumber? = some s.span
  else trace = Option.none ∧ span = Option.none

theorem eq_hex_of_mem {w n : Nat} {valid : Bool} {t : Text}
    (h : t ∈ if valid then some (Text.hex w n) else Option.none) : t = Text.hex w n := by
  cases valid with
  | false => cases h
  | true => exact (Option.some.inj h).symm

theorem toldBy_texts (s : SpanContext) :
    s.ToldBy (s.traceText?.map .text) (s.spanText?.map .text) := by
  unfold ToldBy traceText? spanText?
  split
  · next valid =>
    simp only [isValid, Bool.and_eq_true, decide_eq_true_eq] at valid
    obtain ⟨⟨⟨-, trace⟩, -⟩, span⟩ := valid
    refine ⟨_, _, rfl, rfl, Text.length_hex 32 _, ?_, Text.length_hex 16 _, ?_⟩
    · rw [Text.hexNumber?_hex, Nat.mod_eq_of_lt (Nat.lt_of_lt_of_eq trace (by decide))]
    · rw [Text.hexNumber?_hex, Nat.mod_eq_of_lt (Nat.lt_of_lt_of_eq span (by decide))]
  · exact ⟨rfl, rfl⟩

end SpanContext

/-! ## Members -/

namespace Record

variable {r : Record} {c : Circumstances} {time m : Text} {k : Text} {o : Option Json}
  {es : List (Text × Option Json)}

/-- The members with these keys of which there are values. -/
def present (es : List (Text × Option Json)) : Json.Members := es.flatMap fun e => optional e.1 e.2

theorem forall_mem_present {p : Text × Json → Prop} :
    (∀ x ∈ present es, p x) ↔ ∀ e ∈ es, ∀ v ∈ e.2, p (e.1, v) := by
  simp only [present, List.mem_flatMap]
  constructor
  · rintro all ⟨k, o⟩ member v rfl
    exact all _ ⟨_, member, List.mem_singleton_self _⟩
  · rintro all x ⟨⟨k, _ | v⟩, member, isIn⟩
    · cases isIn
    · obtain rfl := List.mem_singleton.mp isIn
      exact all _ member v rfl

theorem keys_present (es : List (Text × Option Json)) :
    ((present es).map Prod.fst).Sublist (es.map Prod.fst) := by
  induction es with
  | nil => exact .slnil
  | cons e es ih =>
    obtain ⟨k, _ | v⟩ := e
    · exact ih.cons k
    · exact ih.cons_cons k

theorem get?_present_of_not_mem (h : k ∉ es.map Prod.fst) : Json.get? (present es) k = none :=
  Json.get?_eq_none_iff.mpr fun member => h ((keys_present es).subset member)

/-- With distinct keys each value is found under its key, and nothing if there is none. -/
theorem get?_present (distinct : (es.map Prod.fst).Nodup) (h : (k, o) ∈ es) :
    Json.get? (present es) k = o := by
  induction es with
  | nil => cases h
  | cons e es ih =>
    rw [List.map_cons, List.nodup_cons] at distinct
    rcases List.mem_cons.mp h with rfl | later
    · have absent := get?_present_of_not_mem distinct.1
      cases o with
      | none => exact absent
      | some v =>
        have split : present ((k, some v) :: es) = (k, v) :: present es := rfl
        rw [split, Json.get?, absent, if_pos rfl]
    · have found := ih distinct.2 later
      have other : e.1 ≠ k := by
        rintro rfl
        exact distinct.1 (List.mem_map.mpr ⟨_, later, rfl⟩)
      obtain ⟨l, _ | v⟩ := e
      · exact found
      · have split : present ((l, some v) :: es) = (l, v) :: present es := rfl
        rw [split, Json.get?, found, if_neg other]
        cases o <;> rfl

/-- The keys of a line in order, five of which are not always there. -/
def lineKeys : List Text :=
  ["timestamp", "level", "logger", "message", "correlation_id", "trace_id", "span_id", "exception",
    "function", "line", "extra"]

/-- What a line has under its keys. -/
def lineEntries (r : Record) (c : Circumstances) (time m : Text) : List (Text × Option Json) :=
  [("timestamp", some (.text time)), ("level", some (.text r.levelName)),
    ("logger", some (.text r.logger)), ("message", some (.text m)),
    ("correlation_id", if c.correlation.isEmpty then none else some (.text c.correlation)),
    ("trace_id", c.span.traceText?.map .text), ("span_id", c.span.spanText?.map .text),
    ("exception", r.raised.map raisedJson), ("function", some (textOrNull r.function)),
    ("line", some (.int r.line)),
    ("extra", if r.writtenExtra.isEmpty then none else some (.object r.writtenExtra))]

theorem members_eq : r.members c time m = present (r.lineEntries c time m) := by
  simp only [members, circumstances, present, lineEntries, List.flatMap_cons, List.flatMap_nil,
    List.append_nil, List.append_assoc]
  rfl

theorem nodup_lineKeys : lineKeys.Nodup := by decide

theorem keys_members : ((r.members c time m).map Prod.fst).Sublist lineKeys := by
  rw [members_eq]
  exact keys_present _

theorem get?_members (h : (k, o) ∈ r.lineEntries c time m) :
    Json.get? (r.members c time m) k = o := by
  rw [members_eq]
  exact get?_present nodup_lineKeys h

/-! ## What is written -/

/-- Nothing that stands in the line is lost on a reader: no text has a split pair, and no integer
goes beyond the limit on digits. -/
structure Legible (r : Record) (c : Circumstances) (m : Text) : Prop where
  levelName : r.levelName.Unsplit
  logger : r.logger.Unsplit
  message : m.Unsplit
  function : ∀ t ∈ r.function, t.Unsplit
  line : (Text.decimal r.line.natAbs).length ≤ Json.digitLimit
  raised : ∀ e ∈ r.raised, (∀ t ∈ e.name, t.Unsplit) ∧ ∀ t ∈ e.text, t.Unsplit
  extra : (Json.object r.extra).PlainWith Text.Unsplit
  correlation : c.correlation.Unsplit

theorem plainWith_textOrNull {o : Option Text} (h : ∀ t ∈ o, t.Unsplit) :
    (textOrNull o).PlainWith Text.Unsplit := by
  cases o with
  | none => exact .null
  | some t => exact .text (h t rfl)

theorem plainWith_raisedJson {e : Raised}
    (h : (∀ t ∈ e.name, t.Unsplit) ∧ ∀ t ∈ e.text, t.Unsplit) :
    (raisedJson e).PlainWith Text.Unsplit := by
  have keys : ((["type", "message"] : List Text)).Nodup := by decide
  refine .object keys ?_ ?_ <;>
    simp only [member, List.cons_append, List.nil_append, List.forall_mem_cons]
  · exact ⟨by decide, by decide, nofun⟩
  · exact ⟨plainWith_textOrNull h.1, plainWith_textOrNull h.2, nofun⟩

theorem plainWith_writtenExtra (h : (Json.object r.extra).PlainWith Text.Unsplit) :
    (Json.object r.writtenExtra).PlainWith Text.Unsplit := by
  cases h with
  | object distinct kinds plains =>
    have kept : r.writtenExtra.Sublist r.extra := List.filter_sublist
    exact .object (distinct.sublist (kept.map Prod.fst)) (fun m member => kinds m (kept.mem member))
      (fun m member => plains m (kept.mem member))

/-- The values of a line can be read back once its time is printable. -/
theorem Legible.plainWith (h : r.Legible c m) (ht : ∀ x ∈ time, x.IsPrintable) :
    (Json.object (r.members c time m)).PlainWith Text.Unsplit := by
  have unsplit : ∀ k ∈ lineKeys, k.Unsplit := by decide
  refine .object (keys_members.nodup nodup_lineKeys)
    (fun x member => unsplit x.1 (keys_members.subset (List.mem_map_of_mem member))) ?_
  rw [members_eq, forall_mem_present]
  have printed {t : Text} (ht : ∀ x ∈ t, x.IsPrintable) : (Json.text t).PlainWith Text.Unsplit :=
    .text (Text.unsplit_of_isPrintable ht)
  have digits {w n : Nat} : (Json.text (Text.hex w n)).PlainWith Text.Unsplit :=
    printed fun _ => Text.isPrintable_of_mem_hex
  simp only [lineEntries, List.forall_mem_cons, Option.mem_some_iff, forall_eq',
    Option.forall_mem_map]
  refine ⟨printed ht, .text h.levelName, .text h.logger, .text h.message, ?_, ?_, ?_, fun e raised => plainWith_raisedJson (h.raised e raised),
    plainWith_textOrNull h.function, .int h.line, ?_, nofun⟩
  · intro v isHere
    split at isHere
    · cases isHere
    · obtain rfl := Option.some.inj isHere
      exact .text h.correlation
  · intro t isHere
    rw [SpanContext.eq_hex_of_mem isHere]
    exact digits
  · intro t isHere
    rw [SpanContext.eq_hex_of_mem isHere]
    exact digits
  · intro v isHere
    split at isHere
    · cases isHere
    · obtain rfl := Option.some.inj isHere
      exact plainWith_writtenExtra h.extra

/-- The line of a record whose time is printable is read back as its members. -/
theorem Legible.read_line (h : r.Legible c m) (ht : ∀ x ∈ time, x.IsPrintable) :
    Json.read Json.lenient (Json.object (r.members c time m)).line =
      .ok (.object (r.members c time m)) :=
  Json.read_write_of_legible Json.spaced_lineLayout rfl (Json.legible_unsplit true rfl)
    (h.plainWith ht)

/-- A record with a time that can be written and a message has members. -/
theorem exists_time {t : Timestamp} (created : Timestamp.ofSeconds r.created = .ok t)
    (dated : t.Dated) (filled : r.message = .ok m) :
    ∃ time, t.text = .ok time ∧ (∀ x ∈ time, x.IsPrintable) ∧
      r.entry c = .ok (r.members c time m) := by
  obtain ⟨time, written⟩ := t.exists_text_iff.mpr dated
  have known : r.time = .ok time := by
    rw [Record.time, created]
    show t.text.mapError _ = _
    rw [written]
    rfl
  refine ⟨time, written, Timestamp.isPrintable_of_text written, ?_⟩
  rw [entry, known, filled]
  rfl

/-- Members without integers beyond the limit on digits have a line. -/
theorem structuredLine_of_entry {ms : Json.Members} (found : r.entry c = .ok ms)
    (fits : (Json.object ms).hasOversized = false) :
    r.structuredLine c = .ok (Json.object ms).line := by
  rw [structuredLine, found]
  exact if_neg (by simp [fits])

/-- There is no line if its number has too many digits. -/
theorem structuredLine_of_long_line (found : r.entry c = .ok (r.members c time m))
    (long : Text.isOversized r.line = true) : r.structuredLine c = .error .digits := by
  have inside : (("line", .int r.line) : Text × Json) ∈ r.members c time m := by
    simp [members, member]
  have unfit : (Json.object (r.members c time m)).hasOversized = true := by
    by_contra fits
    have none := Json.membersHaveOversized_eq_false.mp (eq_false_of_ne_true fits) _ inside
    rw [Json.hasOversized, long] at none
    cases none
  rw [structuredLine, found]
  exact if_pos unfit

/-- A line tells the record and what surrounds it: what is always there, what is there if there is
anything to tell, and nothing else at its top. -/
structure Told (r : Record) (c : Circumstances) (time m : Text) (ms : Json.Members) : Prop where
  keys : (ms.map Prod.fst).Sublist lineKeys
  timestamp : Json.get? ms "timestamp" = some (.text time)
  level : Json.get? ms "level" = some (.text r.levelName)
  logger : Json.get? ms "logger" = some (.text r.logger)
  message : Json.get? ms "message" = some (.text m)
  function : Json.get? ms "function" = some (textOrNull r.function)
  line : Json.get? ms "line" = some (.int r.line)
  correlation : Json.get? ms "correlation_id" =
    if c.correlation = [] then none else some (.text c.correlation)
  identifiers : c.span.ToldBy (Json.get? ms "trace_id") (Json.get? ms "span_id")
  exception : Json.get? ms "exception" = r.raised.map fun e =>
    .object [("type", textOrNull e.name), ("message", textOrNull e.text)]
  extra : Json.get? ms "extra" = if r.extra = [] then none else some (.object r.extra)

theorem writtenExtra_of_free (free : ∀ x ∈ r.extra, x.1 ∉ reservedKeys) :
    r.writtenExtra = r.extra := by
  rw [writtenExtra, List.filter_eq_self]
  intro x member
  simpa using free x member

theorem told_members (free : ∀ x ∈ r.extra, x.1 ∉ reservedKeys) :
    r.Told c time m (r.members c time m) where
  keys := keys_members
  timestamp := get?_members (by simp [lineEntries])
  level := get?_members (by simp [lineEntries])
  logger := get?_members (by simp [lineEntries])
  message := get?_members (by simp [lineEntries])
  function := get?_members (by simp [lineEntries])
  line := get?_members (by simp [lineEntries])
  correlation := get?_members (by simp [lineEntries])
  identifiers := by
    have trace : Json.get? (r.members c time m) "trace_id" = c.span.traceText?.map .text :=
      get?_members (by simp [lineEntries])
    have span : Json.get? (r.members c time m) "span_id" = c.span.spanText?.map .text :=
      get?_members (by simp [lineEntries])
    rw [trace, span]
    exact c.span.toldBy_texts
  exception := by
    have raised : Json.get? (r.members c time m) "exception" = r.raised.map raisedJson :=
      get?_members (by simp [lineEntries])
    exact raised
  extra := get?_members (by simp [lineEntries, writtenExtra_of_free free])

/-- The line of a record is one line of printable ASCII characters, and it is read as an object that
tells exactly this record and what surrounds it, whatever its texts hold. -/
theorem structuredLine_tells {t : Timestamp} (created : Timestamp.ofSeconds r.created = .ok t)
    (dated : t.Dated) (filled : r.message = .ok m) (legible : r.Legible c m)
    (free : ∀ x ∈ r.extra, x.1 ∉ reservedKeys) :
    ∃ line time ms, r.structuredLine c = .ok line ∧ t.text = .ok time ∧
      (∀ x ∈ line, x.IsPrintable) ∧ Json.read Json.lenient line = .ok (.object ms) ∧
      r.Told c time m ms := by
  obtain ⟨time, written, printable, found⟩ := r.exists_time created dated filled
  have plain := legible.plainWith printable
  exact ⟨_, time, _, structuredLine_of_entry found plain.hasOversized, written,
    fun _ => Json.isPrintable_of_mem_line plain,
    legible.read_line printable, told_members free⟩

/-- One second after the beginning of 1970. -/
def oneSecond : Double := .finite false 0x10000000000000 (-52) (by decide)

theorem oneSecond_ofSeconds : Timestamp.ofSeconds oneSecond = .ok ⟨1, 0⟩ := by decide +kernel

theorem oneSecond_dated : Timestamp.Dated ⟨1, 0⟩ := ⟨by decide, by decide⟩

/-- A record with texts and further members that look like parts of a line, and an identifier that
is half of a surrogate pair. -/
def intrusive : Record where
  logger := "a\", \"level\": \"b"
  level := Level.warning
  levelName := "\"\n"
  template := "%s\n\"\x7d"
  arguments := [.text "é😀\x00"]
  created := oneSecond
  function := none
  line := -7
  raised := some ⟨some "ValueError", none⟩
  extra := [("level", .text "INFO"), ("timestamp", .array [.null, .int 5])]

/-- The message of this record. -/
def intrusiveMessage : Text := "é😀\x00\n\"\x7d"

def intrusiveCircumstances : Circumstances := ⟨[0xDC00], ⟨1, 0xFEDCBA9876543210⟩⟩

theorem short_of_lt {i : Int} (h : i.natAbs < 10 ^ 2) :
    (Text.decimal i.natAbs).length ≤ Json.digitLimit :=
  Nat.le_trans (Text.length_decimal_le Nat.two_pos h) (by decide)

theorem intrusive_legible : intrusive.Legible intrusiveCircumstances intrusiveMessage where
  levelName := by decide
  logger := by decide
  message := by decide
  function := nofun
  line := short_of_lt (by decide)
  raised := by
    rintro e ⟨⟩
    exact ⟨by rintro t ⟨⟩; decide, nofun⟩
  extra := by
    refine .object (by decide) (by decide) ?_
    simp only [intrusive, List.forall_mem_cons]
    refine ⟨.text (by decide), .array ?_, nofun⟩
    simp only [List.forall_mem_cons]
    exact ⟨.null, .int (short_of_lt (by decide)), nofun⟩
  correlation := by decide

theorem intrusive_message : intrusive.message = .ok intrusiveMessage := by
  have filled : Template.fill intrusive.template intrusive.arguments = .ok intrusiveMessage := by
    decide +kernel
  rw [message, filled]
  rfl

theorem intrusive_tells : ∃ line time ms,
    intrusive.structuredLine intrusiveCircumstances = .ok line ∧
      Timestamp.text ⟨1, 0⟩ = .ok time ∧ (∀ x ∈ line, x.IsPrintable) ∧
      Json.read Json.lenient line = .ok (.object ms) ∧
      intrusive.Told intrusiveCircumstances time intrusiveMessage ms :=
  structuredLine_tells oneSecond_ofSeconds oneSecond_dated intrusive_message intrusive_legible
    (by decide)

/-! ## What no line tells -/

/-- A record without anything special. -/
def encoded : Record where
  logger := "odrl_encoder"
  level := Level.info
  levelName := "INFO"
  template := "encoded"
  arguments := []
  created := oneSecond
  function := none
  line := 42
  raised := none
  extra := []

/-- Nothing surrounds the record. -/
def alone : Circumstances := ⟨[], .none⟩

/-- The first second of the year 10000. -/
def late : Record := { encoded with created := .finite false 8303486592614400 (-15) (by decide) }

/-- The message consists of two halves of a surrogate pair. -/
def halved : Record :=
  { encoded with template := "%c%c", arguments := [.int 0xD83D, .int 0xDE00] }

/-- The number of the line has one digit too many. -/
def oversized : Record := { encoded with line := (10 ^ Text.digitLimit : Nat) }

theorem late_unwritten : late.structuredLine alone = .error (.time (.year 10000)) := by
  have created : Timestamp.ofSeconds late.created = .ok ⟨253402300800, 0⟩ := by decide +kernel
  rw [structuredLine, entry, Record.time, created]
  rfl

theorem halved_message : halved.message = .ok [0xD83D, 0xDE00] := by
  have filled : Template.fill halved.template halved.arguments = .ok [0xD83D, 0xDE00] := by
    decide +kernel
  rw [message, filled]
  rfl

/-- With the halves joined to one code point the line can be read back. -/
theorem halved_legible : halved.Legible ⟨[0x1F600], .none⟩ [0x1F600] where
  levelName := by decide
  logger := by decide
  message := by decide
  function := nofun
  line := short_of_lt (by decide)
  raised := nofun
  extra := .object .nil nofun nofun
  correlation := by decide

theorem oversized_unwritten : oversized.structuredLine alone = .error .digits := by
  obtain ⟨time, -, -, found⟩ := @exists_time oversized alone "encoded" _
    oneSecond_ofSeconds oneSecond_dated rfl
  have long : Text.isOversized oversized.line = true :=
    Text.hasMoreDigits_iff.mpr (Nat.le_of_eq (Int.natAbs_natCast _).symm)
  exact structuredLine_of_long_line found long

/-- The year 10000 cannot be written, halves of a pair are read as one code point, and an integer that
is too long cannot be written. -/
theorem structuredLine_limits :
    late.structuredLine alone = .error (.time (.year 10000)) ∧
    (∃ line ms, halved.message = .ok [0xD83D, 0xDE00] ∧
      halved.structuredLine ⟨[0xD83D, 0xDE00], .none⟩ = .ok line ∧
      Json.read Json.lenient line = .ok (.object ms) ∧
      Json.get? ms "message" = some (.text [0x1F600]) ∧
      Json.get? ms "correlation_id" = some (.text [0x1F600])) ∧
    oversized.structuredLine alone = .error .digits := by
  refine ⟨late_unwritten, ?_, oversized_unwritten⟩
  obtain ⟨time, -, printable, found⟩ := @exists_time halved ⟨[0xD83D, 0xDE00], .none⟩ _ _
    oneSecond_ofSeconds oneSecond_dated halved_message
  -- the two halves and the code point they stand for are written with the same escapes
  have same : (Json.object (halved.members ⟨[0xD83D, 0xDE00], .none⟩ time [0xD83D, 0xDE00])).line =
      (Json.object (halved.members ⟨[0x1F600], .none⟩ time [0x1F600])).line := rfl
  have line := structuredLine_of_entry found rfl
  rw [same] at line
  have told : halved.Told ⟨[0x1F600], .none⟩ time [0x1F600] _ := told_members nofun
  exact ⟨_, _, halved_message, line, halved_legible.read_line printable, told.message,
    told.correlation⟩

end Record

end UsagePolicy
