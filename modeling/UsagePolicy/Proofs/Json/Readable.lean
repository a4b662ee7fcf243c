import UsagePolicy.Payload.Check
import UsagePolicy.Proofs.Json.FingerprintBytes

/-!
# Values of payloads

What the reader of payloads gives has no surrogates in its texts and keys, no integers beyond the
limit on digits, no repeated keys, and containers that are not empty nest in it up to the limit of
the reader only. Tokens of a text without surrogates have the former properties, and each step of
the reader keeps all of them for what is on its stack.
-/

namespace UsagePolicy

namespace Json

/-- Texts and keys hold no surrogates, integers keep to the limit on digits, and no object has a key
twice. -/
inductive Readable : Json → Prop
  | null : Readable .null
  | bool (b : Bool) : Readable (.bool b)
  | int {i : Int} : (Text.decimal i.natAbs).length ≤ digitLimit → Readable (.int i)
  | float (d : Double) : Readable (.float d)
  | text {t : Text} : t.isScalar = true → Readable (.text t)
  | array {vs : List Json} : (∀ v ∈ vs, Readable v) → Readable (.array vs)
  | object {ms : Members} : (ms.map Prod.fst).Nodup → (∀ m ∈ ms, m.1.isScalar = true) →
    (∀ m ∈ ms, Readable m.2) → Readable (.object ms)

theorem Readable.distinct {v : Json} (h : v.Readable) : v.Distinct := by
  induction h with
  | null => exact .null
  | bool b => exact .bool b
  | int _ => exact .int _
  | float d => exact .float d
  | text _ => exact .text _
  | array _ ih => exact .array ih
  | object keys _ _ ih => exact .object keys ih

mutual

/-- How deep containers that are not empty nest. -/
def nesting : Json → Nat
  | .array vs => itemsNesting vs
  | .object ms => membersNesting ms
  | _ => 0

/-- The nesting of a container with the items. -/
def itemsNesting : List Json → Nat
  | [] => 0
  | v :: vs => max (nesting v + 1) (itemsNesting vs)

/-- The nesting of a container with the members. -/
def membersNesting : Members → Nat
  | [] => 0
  | (_, v) :: ms => max (nesting v + 1) (membersNesting ms)

end

theorem nesting_array_le {vs : List Json} {n : Nat} :
    (array vs).nesting ≤ n ↔ ∀ v ∈ vs, v.nesting + 1 ≤ n := by
  rw [nesting]
  induction vs with
  | nil => simp [itemsNesting]
  | cons v vs ih => simp only [itemsNesting, List.forall_mem_cons, ← ih, Nat.max_le]

theorem nesting_object_le {ms : Members} {n : Nat} :
    (object ms).nesting ≤ n ↔ ∀ m ∈ ms, m.2.nesting + 1 ≤ n := by
  rw [nesting]
  induction ms with
  | nil => simp [membersNesting]
  | cons m ms ih => simp only [membersNesting, List.forall_mem_cons, ← ih, Nat.max_le]

/-! ## Tokens -/

/-- What a token of a payload without surrogates holds. -/
def Token.Readable : Token → Prop
  | .text t => t.isScalar = true
  | .scalar v => v.Readable ∧ v.nesting = 0
  | _ => True

theorem isSurrogate_ofSurrogates (h l : CodePoint) :
    (CodePoint.ofSurrogates h l).isSurrogate = false := by
  unfold CodePoint.ofSurrogates CodePoint.ofNat CodePoint.isSurrogate
  split
  · simp only [Bool.and_eq_false_iff, decide_eq_false_iff_not]
    omega
  · decide

theorem isSurrogate_unescape? {c u : CodePoint} (h : unescape? c = some u) :
    u.isSurrogate = false := by
  unfold unescape? at h
  split at h
  all_goals first | (obtain rfl := Option.some.inj h; decide) | cases h

theorem isScalar_push? {s s' : Scanned} {c : CodePoint} (hc : c.isSurrogate = false)
    (hs : s.points.isScalar = true) (h : s.push? strict c = some s') :
    s'.points.isScalar = true := by
  unfold Scanned.push? Scanned.settle? at h
  split at h
  · obtain rfl := Option.some.inj h
    simp [hc, hs]
  · simp [strict] at h

theorem isScalar_pushEscaped? {s s' : Scanned} {u : CodePoint} (hs : s.points.isScalar = true)
    (h : s.pushEscaped? strict u = some s') : s'.points.isScalar = true := by
  unfold Scanned.pushEscaped? at h
  split at h
  · next high _ =>
    split at h
    · obtain rfl := Option.some.inj h
      simp [isSurrogate_ofSurrogates, hs]
    · simp [strict] at h
  · split at h
    · obtain rfl := Option.some.inj h
      exact hs
    · next high =>
      split at h
      · cases h
      · next low =>
        obtain rfl := Option.some.inj h
        have surrogate : u.isSurrogate = false := by
          simp only [CodePoint.isHighSurrogate, CodePoint.isLowSurrogate, CodePoint.isSurrogate,
            strict, Bool.and_eq_true, Bool.and_eq_false_iff, decide_eq_true_eq,
            decide_eq_false_iff_not, Bool.not_false, and_true] at high low ⊢
          omega
        simp [surrogate, hs]

/-- A string of a payload without surrogates has none either, whatever its escapes. -/
theorem scanText_readable (start : Text) (s : Scanned) (t : Text) (hs : s.points.isScalar = true)
    (ht : t.isScalar = true) : (scanText strict start s t).1.Readable ∧
      (scanText strict start s t).2.isScalar = true := by
  fun_induction scanText strict start s t with
  | case2 s r ps settled =>
    simp only [Text.isScalar_cons, Bool.and_eq_true] at ht
    obtain rfl : s.points = ps := by
      unfold Scanned.settle? at settled
      split at settled
      · exact Option.some.inj settled
      · simp [strict] at settled
    exact ⟨by simpa [Token.Readable, Text.isScalar] using hs, ht.2⟩
  | case5 s a b c e r u _ s' pushed ih =>
    simp only [Text.isScalar_cons, Bool.and_eq_true] at ht
    exact ih (isScalar_pushEscaped? hs pushed) ht.2.2.2.2.2.2
  | case9 s c r _ _ u escape s' pushed ih =>
    simp only [Text.isScalar_cons, Bool.and_eq_true] at ht
    exact ih (isScalar_push? (isSurrogate_unescape? escape) hs pushed) ht.2.2
  | case13 s c r _ _ _ _ _ _ s' pushed ih =>
    simp only [Text.isScalar_cons, Bool.and_eq_true, Bool.not_eq_true'] at ht
    exact ih (isScalar_push? ht.1 hs pushed) ht.2
  | _ => exact ⟨trivial, rfl⟩

/-! ## Numbers -/

theorem isScalar_of_suffix {s t : Text} (h : s <:+ t) (ht : t.isScalar = true) :
    s.isScalar = true := by
  obtain ⟨r, rfl⟩ := h
  rw [Text.isScalar_append, Bool.and_eq_true] at ht
  exact ht.2

theorem suffix_scanFraction (t : Text) : (Numeral.scanFraction t).2 <:+ t := by
  unfold Numeral.scanFraction
  split
  · exact List.suffix_rfl
  · split
    · split
      · exact List.suffix_rfl
      · exact (List.dropWhile_suffix _).trans (List.suffix_cons _ _)
    · exact List.suffix_rfl

theorem suffix_scanSign (t : Text) : (Numeral.scanSign t).2 <:+ t := by
  unfold Numeral.scanSign
  split
  · exact List.suffix_rfl
  · split
    · exact List.suffix_cons _ _
    · split
      · exact List.suffix_cons _ _
      · exact List.suffix_rfl

theorem suffix_scanExponent (t : Text) : (Numeral.scanExponent t).2 <:+ t := by
  unfold Numeral.scanExponent
  split
  · exact List.suffix_rfl
  · next c r =>
    split
    · split
      · exact List.suffix_rfl
      · exact ((List.dropWhile_suffix _).trans (suffix_scanSign r)).trans (List.suffix_cons _ _)
    · exact List.suffix_rfl

theorem scanWhole_cases (t : Text) : (Numeral.scanWhole t).2 <:+ t ∧
    ∀ c ∈ (Numeral.scanWhole t).1, c.isDigit = true := by
  unfold Numeral.scanWhole
  split
  · exact ⟨List.suffix_rfl, by simp⟩
  · split
    · next zero =>
      subst zero
      exact ⟨List.suffix_cons _ _, by simp; decide⟩
    · exact ⟨List.dropWhile_suffix _, List.all_eq_true.mp List.all_takeWhile⟩

theorem scanUnsigned?_cases {negative : Bool} {t r : Text} {n : Numeral}
    (h : Numeral.scanUnsigned? negative t = some (n, r)) :
    r <:+ t ∧ n.whole ≠ [] ∧ ∀ c ∈ n.whole, c.isDigit = true := by
  obtain ⟨suffix, digits⟩ := scanWhole_cases t
  unfold Numeral.scanUnsigned? at h
  split at h
  · cases h
  · next w ws r' whole =>
    rw [whole] at suffix digits
    simp only [Option.some.injEq, Prod.mk.injEq] at h
    obtain ⟨rfl, rfl⟩ := h
    exact ⟨((suffix_scanExponent _).trans (suffix_scanFraction _)).trans suffix, by simp, digits⟩

theorem scan?_cases {t r : Text} {n : Numeral} (h : Numeral.scan? t = some (n, r)) :
    r <:+ t ∧ n.whole ≠ [] ∧ ∀ c ∈ n.whole, c.isDigit = true := by
  unfold Numeral.scan? at h
  split at h
  · cases h
  · split at h
    · obtain ⟨suffix, whole⟩ := scanUnsigned?_cases h
      exact ⟨suffix.trans (List.suffix_cons _ _), whole⟩
    · exact scanUnsigned?_cases h

/-- An integer is written with no more digits than it is read from. -/
theorem length_decimal_toInt_le {n : Numeral} (nonempty : n.whole ≠ [])
    (digits : ∀ c ∈ n.whole, c.isDigit = true) :
    (Text.decimal n.toInt.natAbs).length ≤ n.whole.length := by
  have same : n.toInt.natAbs = Text.digitsValue n.whole := by
    unfold Numeral.toInt
    split <;> simp
  rw [same]
  exact Text.length_decimal_le (List.length_pos_iff.mpr nonempty) (Text.digitsValue_lt digits)

theorem numberToken_readable (place : Text) {n : Numeral} (nonempty : n.whole ≠ [])
    (digits : ∀ c ∈ n.whole, c.isDigit = true) : (numberToken strict place n).Readable := by
  unfold numberToken
  split
  · trivial
  · next short =>
    have short : n.whole.length ≤ digitLimit := by simpa [strict] using short
    split
    · exact ⟨.int (Nat.le_trans (length_decimal_toInt_le nonempty digits) short), rfl⟩
    · exact ⟨.float _, rfl⟩

theorem suffix_after? {head t r : Text} (h : Text.after? head t = some r) : r <:+ t := by
  induction head generalizing t with
  | nil =>
    obtain rfl := Option.some.inj h
    exact List.suffix_rfl
  | cons c cs ih =>
    cases t with
    | nil => cases h
    | cons a t =>
      rw [Text.after?] at h
      split at h
      · exact (ih h).trans (List.suffix_cons _ _)
      · cases h

theorem word?_readable {t r : Text} {v : Json} (h : word? t = some (v, r)) :
    (v.Readable ∧ v.nesting = 0) ∧ r <:+ t := by
  obtain ⟨w, hw, h⟩ := List.exists_of_findSome?_eq_some h
  obtain ⟨r', hr, h⟩ := Option.map_eq_some_iff.mp h
  obtain ⟨rfl, rfl⟩ := Prod.mk.inj h
  refine ⟨?_, suffix_after? hr⟩
  simp only [words, List.mem_cons, List.not_mem_nil, or_false] at hw
  rcases hw with rfl | rfl | rfl | rfl | rfl | rfl
  · exact ⟨.null, rfl⟩
  · exact ⟨.bool _, rfl⟩
  · exact ⟨.bool _, rfl⟩
  all_goals exact ⟨.float _, rfl⟩

theorem nextToken_readable (c : CodePoint) (r : Text) (h : Text.isScalar (c :: r) = true) :
    (nextToken strict c r).1.Readable ∧ (nextToken strict c r).2.isScalar = true := by
  have rest : r.isScalar = true := isScalar_of_suffix (List.suffix_cons _ _) h
  unfold nextToken
  split
  case h_7 => exact scanText_readable _ .empty r rfl rest
  case h_8 =>
    split
    · next v r' hw =>
      obtain ⟨readable, suffix⟩ := word?_readable hw
      exact ⟨readable, isScalar_of_suffix suffix h⟩
    · split
      · next n r' hn =>
        obtain ⟨suffix, nonempty, digits⟩ := scan?_cases hn
        exact ⟨numberToken_readable _ nonempty digits, isScalar_of_suffix suffix h⟩
      · exact ⟨trivial, rfl⟩
  all_goals exact ⟨trivial, rest⟩

theorem tokens_readable (t : Text) (h : t.isScalar = true) :
    ∀ l ∈ tokens strict t, l.token.Readable := by
  fun_induction tokens strict t with
  | case1 => simp
  | case2 c r _ ih => exact ih (isScalar_of_suffix (List.suffix_cons _ _) h)
  | case3 c r _ ih =>
    obtain ⟨readable, rest⟩ := nextToken_readable c r h
    rw [List.forall_mem_cons]
    exact ⟨readable, ih rest⟩

/-! ## Repeated keys -/

section

variable {ms ns : Members} {k : Text} {v : Json}

theorem mem_insert {m : Text × Json} (h : m ∈ insert ms k v) : m ∈ ms ∨ m = (k, v) := by
  induction ms with
  | nil => simpa [insert] using h
  | cons m' ms ih =>
    rw [insert] at h
    split at h
    · next same =>
      rcases List.mem_cons.mp h with rfl | h
      · exact .inr (by rw [same])
      · exact .inl (List.mem_cons_of_mem _ h)
    · rcases List.mem_cons.mp h with rfl | h
      · exact .inl List.mem_cons_self
      · exact (ih h).imp_left (List.mem_cons_of_mem _)

theorem keys_insert_of_mem (h : k ∈ ms.map Prod.fst) :
    (insert ms k v).map Prod.fst = ms.map Prod.fst := by
  induction ms with
  | nil => cases h
  | cons m ms ih =>
    rw [insert]
    split
    · rfl
    · next other =>
      rcases List.mem_cons.mp h with same | h
      · exact absurd same.symm other
      · rw [List.map_cons, List.map_cons, ih h]

theorem nodup_keys_insert (h : (ms.map Prod.fst).Nodup) : ((insert ms k v).map Prod.fst).Nodup := by
  by_cases old : k ∈ ms.map Prod.fst
  · rwa [keys_insert_of_mem old]
  · rw [insert_of_not_mem old, List.map_append, List.nodup_append]
    refine ⟨h, by simp, ?_⟩
    rintro a ha b hb rfl
    obtain rfl : a = k := by simpa using hb
    exact old ha

theorem foldl_insert (h : (ns.map Prod.fst).Nodup) :
    ((ms.foldl (fun ms m => insert ms m.1 m.2) ns).map Prod.fst).Nodup ∧
      ∀ m ∈ ms.foldl (fun ms m => insert ms m.1 m.2) ns, m ∈ ns ∨ m ∈ ms := by
  induction ms generalizing ns with
  | nil => exact ⟨h, fun m hm => .inl hm⟩
  | cons m ms ih =>
    obtain ⟨nodup, members⟩ := ih (nodup_keys_insert (k := m.1) (v := m.2) h)
    refine ⟨nodup, fun m' hm' => ?_⟩
    rcases members m' hm' with old | new
    · rcases mem_insert old with old | rfl
      · exact .inl old
      · exact .inr List.mem_cons_self
    · exact .inr (List.mem_cons_of_mem _ new)

/-- Members that are closed have distinct keys, and none of them is new. -/
theorem closeMembers_cases (ms : Members) : ((closeMembers ms).map Prod.fst).Nodup ∧
    ∀ m ∈ closeMembers ms, m ∈ ms := by
  obtain ⟨nodup, members⟩ := @foldl_insert ms.reverse [] List.nodup_nil
  exact ⟨nodup, fun m hm => by simpa using members m hm⟩

end

/-! ## Steps of the reader -/

/-- The value is readable, and its containers find room. -/
def Within (room : Nat) (v : Json) : Prop := v.Readable ∧ v.nesting ≤ room

/-- The members are readable, and their containers find room. -/
def MembersWithin (room : Nat) (ms : Members) : Prop :=
  ∀ m ∈ ms, m.1.isScalar = true ∧ m.2.Within room

/-- The parts of a container under way are readable and find room. -/
def Frame.Within (room : Nat) : Frame → Prop
  | .array vs => ∀ v ∈ vs, v.Within room
  | .object ms k => MembersWithin room ms ∧ k.isScalar = true

/-- What is on the stack is readable and finds room; one less is left for each container. -/
inductive Leaves (limit : Nat) : List Frame → (room : Nat) → Prop
  | nil : Leaves limit [] limit
  | cons {st : List Frame} {f : Frame} {room : Nat} :
    Leaves limit st (room + 1) → f.Within room → Leaves limit (f :: st) room

theorem Leaves.length {limit room : Nat} {st : List Frame} (h : Leaves limit st room) :
    st.length + room = limit := by
  induction h with
  | nil => exact Nat.zero_add _
  | cons _ _ ih =>
    rw [List.length_cons]
    omega

theorem within_array {room : Nat} {vs : List Json} (h : ∀ v ∈ vs, v.Within room) :
    (array vs).Within (room + 1) :=
  ⟨.array fun v hv => (h v hv).1, nesting_array_le.mpr fun v hv => Nat.succ_le_succ (h v hv).2⟩

theorem within_object {room : Nat} {ms : Members} (h : MembersWithin room ms) :
    (object (closeMembers ms)).Within (room + 1) := by
  obtain ⟨nodup, members⟩ := closeMembers_cases ms
  refine ⟨.object nodup (fun m hm => (h m (members m hm)).1)
    fun m hm => (h m (members m hm)).2.1, nesting_object_le.mpr fun m hm => ?_⟩
  exact Nat.succ_le_succ (h m (members m hm)).2.2

namespace Progress

variable {p q : Progress} {st : List Frame} {l : Lexeme} {room limit : Nat} {ms : Members}

/-- What has been read is readable and finds room. -/
def Within (limit : Nat) : Progress → Prop
  | .value st | .arrayStart st | .objectStart st => ∃ room, Leaves limit st room
  | .key ms st => ∃ room, Leaves limit st (room + 1) ∧ MembersWithin room ms
  | .colon ms k st =>
    ∃ room, Leaves limit st (room + 1) ∧ MembersWithin room ms ∧ k.isScalar = true
  | .after v st => ∃ room, Leaves limit st room ∧ v.Within room

theorem within_startValue (h : Leaves limit st room) (readable : l.token.Readable)
    (started : startValue st l = .ok q) : q.Within limit := by
  unfold startValue at started
  split at started
  · cases started
    exact ⟨room, h⟩
  · cases started
    exact ⟨room, h⟩
  · next t token =>
    cases started
    rw [token] at readable
    exact ⟨room, h, .text readable, Nat.zero_le _⟩
  · next v token =>
    cases started
    rw [token] at readable
    exact ⟨room, h, readable.1, readable.2 ▸ Nat.zero_le _⟩
  · cases started
  · cases started

theorem within_startKey (h : Leaves limit st (room + 1)) (members : MembersWithin room ms)
    (readable : l.token.Readable) (started : startKey ms st l = .ok q) : q.Within limit := by
  unfold startKey at started
  split at started
  · next t token =>
    cases started
    rw [token] at readable
    exact ⟨room, h, members, readable⟩
  · split at started <;> cases started
  · cases started

/-- One more container that is not empty finds room where the reader admits it. -/
theorem room_of_admits {d : Dialect} (hd : d.nesting = some limit) (h : Leaves limit st room)
    (admitted : d.admits st = true) : ∃ rest, room = rest + 1 := by
  have length := h.length
  simp only [Dialect.admits, hd, decide_eq_true_eq] at admitted
  exact ⟨room - 1, by omega⟩

/-- A step of the reader keeps what has been read readable and within its limit. -/
theorem Within.step {d : Dialect} (hd : d.nesting = some limit) (h : p.Within limit)
    (readable : l.token.Readable) (stepped : p.step d l = .ok q) : q.Within limit := by
  unfold Progress.step at stepped
  split at stepped
  · obtain ⟨room, h⟩ := h
    exact within_startValue h readable stepped
  · obtain ⟨room, h⟩ := h
    split at stepped
    · cases stepped
      exact ⟨room, h, .array (by simp), Nat.zero_le _⟩
    · split at stepped
      · next admitted =>
        obtain ⟨rest, rfl⟩ := room_of_admits hd h admitted
        exact within_startValue (h.cons (f := .array []) (by simp [Frame.Within])) readable stepped
      · cases stepped
  · obtain ⟨room, h⟩ := h
    split at stepped
    · cases stepped
      exact ⟨room, h, .object (by simp) (by simp) (by simp), Nat.zero_le _⟩
    · split at stepped
      · next admitted =>
        obtain ⟨rest, rfl⟩ := room_of_admits hd h admitted
        exact within_startKey h (by simp [MembersWithin]) readable stepped
      · cases stepped
  · obtain ⟨room, h, members⟩ := h
    exact within_startKey h members readable stepped
  · obtain ⟨room, h, members, key⟩ := h
    split at stepped
    · cases stepped
      exact ⟨room, h.cons ⟨members, key⟩⟩
    · cases stepped
  · cases stepped
  · next v vs st =>
    obtain ⟨room, h, value⟩ := h
    cases h with
    | cons h items =>
      have items : ∀ w ∈ v :: vs, w.Within room := List.forall_mem_cons.mpr ⟨value, items⟩
      split at stepped
      · cases stepped
        exact ⟨room, h.cons items⟩
      · cases stepped
        exact ⟨room + 1, h, within_array fun w hw => items w (List.mem_reverse.mp hw)⟩
      · cases stepped
  · next v ms k st =>
    obtain ⟨room, h, value⟩ := h
    cases h with
    | cons h members =>
      have members : MembersWithin room ((k, v) :: ms) :=
        List.forall_mem_cons.mpr ⟨⟨members.2, value⟩, members.1⟩
      split at stepped
      · cases stepped
        exact ⟨room, h, members⟩
      · cases stepped
        exact ⟨room + 1, h, within_object members⟩
      · cases stepped

/-- What a run of the reader gives is readable and within its limit. -/
theorem Within.run {d : Dialect} (hd : d.nesting = some limit) (h : p.Within limit)
    {ls : List Lexeme} (readable : ∀ l ∈ ls, l.token.Readable) {v : Json}
    (given : p.run d ls = .ok v) : v.Within limit := by
  induction ls generalizing p with
  | nil =>
    unfold Progress.run Progress.finish at given
    split at given
    all_goals cases given
    obtain ⟨room, leaves, value⟩ := h
    cases leaves
    exact value
  | cons l ls ih =>
    rw [List.forall_mem_cons] at readable
    rw [Progress.run] at given
    split at given
    · next q stepped => exact ih (h.step hd readable.1 stepped) readable.2 given
    · cases given

end Progress

end Json

/-- What the text of a payload denotes is readable, and at most 200 containers that are not empty
nest in it. -/
theorem Payload.within_of_parse {t : Text} {v : Json} (h : parse t = .ok v) :
    v.Readable ∧ v.nesting ≤ 200 := by
  unfold parse at h
  split at h
  · next scalar =>
    split at h
    · next w read =>
      obtain rfl := Except.ok.inj h
      unfold Json.read at read
      split at read
      · cases read
      · have start : (Json.Progress.value []).Within 200 := ⟨200, .nil⟩
        exact start.run (d := Json.strict) rfl (Json.tokens_readable t scalar) read
    · cases h
  · cases h

end UsagePolicy
