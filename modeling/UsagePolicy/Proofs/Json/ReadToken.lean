import UsagePolicy.Json.Printer
import UsagePolicy.Json.Reader
import UsagePolicy.Proofs.Text.Decimal

/-!
# Reading tokens that have been written

Strings, integers and words are each read back as one token, and what follows them is left. The
escapes of a string are those that the reader knows, one by one; an integer ends where no digit,
point or exponent follows.
-/

namespace UsagePolicy

namespace CodePoint

theorem val_ofHexDigit (n : Nat) :
    (ofHexDigit n).val = if n % 16 < 10 then 0x30 + n % 16 else 0x61 + (n % 16 - 10) := by
  unfold ofHexDigit
  split
  · exact val_ofNat (by omega)
  · exact val_ofNat (by omega)

theorem hexValue?_ofHexDigit (n : Nat) : (ofHexDigit n).hexValue? = some (n % 16) := by
  have val := val_ofHexDigit n
  unfold hexValue?
  split at val
  · rw [if_pos (by omega)]
    exact congrArg some (by omega)
  · rw [if_neg (by omega), if_neg (by omega), if_pos (by omega)]
    exact congrArg some (by omega)

theorem not_isSurrogate_iff {c : CodePoint} :
    c.isSurrogate = false ↔ c.isHighSurrogate = false ∧ c.isLowSurrogate = false := by
  simp only [isSurrogate, isHighSurrogate, isLowSurrogate, Bool.and_eq_false_iff,
    decide_eq_false_iff_not]
  omega

end CodePoint

namespace Json

variable {d : Dialect} {start ps r t : Text} {s s' : Scanned} {c : CodePoint}

/-! ## Strings -/

theorem hexPoint?_hex {n : Nat} (h : n < 0x10000) :
    hexPoint? (.ofHexDigit (n / 16 / 16 / 16)) (.ofHexDigit (n / 16 / 16)) (.ofHexDigit (n / 16))
      (.ofHexDigit n) = some (.ofNat n) := by
  simp only [hexPoint?, CodePoint.hexValue?_ofHexDigit]
  congr 2
  omega

/-- A four-digit escape is read, if the string does not end with it. -/
theorem scanText_hex {n : Nat} (h : n < 0x10000) (hr : r ≠ [])
    (pushed : s.pushEscaped? d (.ofNat n) = some s') :
    scanText d start s (0x5C :: 0x75 :: Text.hex 4 n ++ r) = scanText d start s' r := by
  have further : r.isEmpty = false := by simpa using hr
  show scanText d start s (0x5C :: 0x75 :: _ :: _ :: _ :: _ :: r) = _
  rw [scanText]
  simp only [further, Bool.false_eq_true, if_false, hexPoint?_hex h, pushed]

theorem scanText_letter {e : CodePoint} (he : unescape? e = some c) (hu : e ≠ 0x75)
    (pushed : s.push? d c = some s') :
    scanText d start s (0x5C :: e :: r) = scanText d start s' r := by
  rw [scanText]
  · rw [he]
    simp only [pushed]
  all_goals simp_all

theorem scanText_plain (quote : c ≠ 0x22) (backslash : c ≠ 0x5C) (control : ¬ c.val < 0x20)
    (pushed : s.push? d c = some s') :
    scanText d start s (c :: r) = scanText d start s' r := by
  rw [scanText]
  · rw [if_neg control, pushed]
  all_goals simp_all

/-- Two escapes that are the halves of a pair are one code point: the first waits for the second. -/
theorem scanText_pair {m n : Nat} (high : 0xD800 ≤ m ∧ m ≤ 0xDBFF) (low : 0xDC00 ≤ n ∧ n ≤ 0xDFFF)
    (hr : r ≠ []) (first : s.pushEscaped? d (.ofNat m) = some ⟨ps, some (.ofNat m)⟩) :
    scanText d start s
        (0x5C :: 0x75 :: Text.hex 4 m ++ (0x5C :: 0x75 :: Text.hex 4 n ++ r)) =
      scanText d start ⟨.ofNat (0x10000 + (m - 0xD800) * 0x400 + (n - 0xDC00)) :: ps, none⟩ r := by
  have valHigh : (CodePoint.ofNat m).val = m := CodePoint.val_ofNat (by omega)
  have valLow : (CodePoint.ofNat n).val = n := CodePoint.val_ofNat (by omega)
  have second : Scanned.pushEscaped? d ⟨ps, some (.ofNat m)⟩ (.ofNat n) =
      some ⟨.ofSurrogates (.ofNat m) (.ofNat n) :: ps, none⟩ := by
    simp [Scanned.pushEscaped?, CodePoint.isLowSurrogate, valLow, low]
  rw [scanText_hex (by omega) (by simp) first, scanText_hex (by omega) hr second,
    CodePoint.ofSurrogates, valHigh, valLow]

/-- A code point that is written by its number is read, if the reader takes it where it stands, or
the first half of its pair. -/
theorem scanText_unicodeEscape (small : c.val < 0x10000 → s.pushEscaped? d c = some s')
    (large : 0x10000 ≤ c.val → ∃ ps, s' = ⟨c :: ps, none⟩ ∧
      ∀ h : CodePoint, h.isHighSurrogate = true → s.pushEscaped? d h = some ⟨ps, some h⟩)
    (hr : r ≠ []) :
    scanText d start s (unicodeEscape c ++ r) = scanText d start s' r := by
  have bound := c.isLt
  unfold unicodeEscape
  split
  · next isSmall =>
    apply scanText_hex isSmall hr
    rw [CodePoint.ofNat_val]
    exact small isSmall
  · next notSmall =>
    obtain ⟨ps, rfl, pushed⟩ := large (by omega)
    have high : 0xD800 ≤ 0xD800 + (c.val - 0x10000) / 0x400 ∧
        0xD800 + (c.val - 0x10000) / 0x400 ≤ 0xDBFF := by omega
    have first := pushed (.ofNat (0xD800 + (c.val - 0x10000) / 0x400)) (by
      simpa [CodePoint.isHighSurrogate, CodePoint.val_ofNat (Nat.lt_of_le_of_lt high.2 (by decide))]
        using high.2)
    have together : 0x10000 + (0xD800 + (c.val - 0x10000) / 0x400 - 0xD800) * 0x400 +
        (0xDC00 + (c.val - 0x10000) % 0x400 - 0xDC00) = c.val := by omega
    rw [List.append_assoc, scanText_pair high (by omega) hr first, together, CodePoint.ofNat_val]

/-- What an escape is: a letter that stands for the code point, its number, or the code point. -/
theorem escape_cases (asciiOnly : Bool) (c : CodePoint) :
    (∃ e, unescape? e = some c ∧ e ≠ 0x75 ∧ escape asciiOnly c = [0x5C, e]) ∨
    escape asciiOnly c = unicodeEscape c ∨
    (c ≠ 0x22 ∧ c ≠ 0x5C ∧ ¬ c.val < 0x20 ∧ escape asciiOnly c = [c]) := by
  unfold escape
  split
  · exact .inl ⟨0x22, rfl, by decide, rfl⟩
  · exact .inl ⟨0x5C, rfl, by decide, rfl⟩
  · exact .inl ⟨0x6E, rfl, by decide, rfl⟩
  · exact .inl ⟨0x72, rfl, by decide, rfl⟩
  · exact .inl ⟨0x74, rfl, by decide, rfl⟩
  · exact .inl ⟨0x62, rfl, by decide, rfl⟩
  · exact .inl ⟨0x66, rfl, by decide, rfl⟩
  · next quote backslash _ _ _ _ _ =>
    refine .inr ?_
    split
    · exact .inl rfl
    · next h => exact .inr ⟨quote, backslash, by omega, rfl⟩

/-- One code point that is written is read as that code point. -/
theorem scanText_escape (asciiOnly : Bool) (scalar : c.isSurrogate = false) (hr : r ≠ []) :
    scanText d start ⟨ps, none⟩ (escape asciiOnly c ++ r) =
      scanText d start ⟨c :: ps, none⟩ r := by
  rcases escape_cases asciiOnly c with ⟨e, he, hu, h⟩ | h | ⟨quote, backslash, control, h⟩
  · rw [h]
    exact scanText_letter he hu rfl
  · rw [h]
    obtain ⟨high, low⟩ := CodePoint.not_isSurrogate_iff.mp scalar
    refine scanText_unicodeEscape (fun _ => ?_) (fun _ => ⟨ps, rfl, fun h first => ?_⟩) hr
    · simp [Scanned.pushEscaped?, high, low]
    · simp [Scanned.pushEscaped?, first]
  · rw [h]
    exact scanText_plain quote backslash control rfl

/-- A string that is written is read as one token. -/
theorem scanText_escapes (asciiOnly : Bool) (scalar : t.isScalar = true) :
    scanText d start ⟨ps, none⟩ (t.flatMap (escape asciiOnly) ++ 0x22 :: r) =
      (.text (ps.reverse ++ t), r) := by
  induction t generalizing ps with
  | nil =>
    rw [List.append_nil]
    rfl
  | cons c t ih =>
    obtain ⟨here, rest⟩ : c.isSurrogate = false ∧ Text.isScalar t = true := by
      simpa [Text.isScalar] using scalar
    rw [List.flatMap_cons, List.append_assoc, scanText_escape asciiOnly here (by simp), ih rest,
      List.reverse_cons, List.append_assoc, List.singleton_append]

/-! ## Tokens -/

theorem tokens_blank (blank : ∀ c ∈ t, isSpace c = true) : tokens d (t ++ r) = tokens d r := by
  induction t with
  | nil => rfl
  | cons c t ih =>
    rw [List.forall_mem_cons] at blank
    rw [List.cons_append, tokens, if_pos blank.1, ih blank.2]

theorem tokens_cons {token : Token} (h : isSpace c = false) (next : nextToken d c t = (token, r)) :
    tokens d (c :: t) = ⟨token, c :: t⟩ :: tokens d r := by
  rw [tokens, if_neg (by simp [h]), next]

/-- A string is one token if it is read up to the quote at its end. -/
theorem tokens_writeText_of_scanned {asciiOnly : Bool}
    (scanned : ∀ start, scanText d start .empty (t.flatMap (escape asciiOnly) ++ 0x22 :: r) =
      (.text t, r)) :
    tokens d (writeText asciiOnly t ++ r) =
      ⟨.text t, writeText asciiOnly t ++ r⟩ :: tokens d r := by
  have next : nextToken d 0x22 (t.flatMap (escape asciiOnly) ++ 0x22 :: r) = (.text t, r) :=
    scanned _
  have split : writeText asciiOnly t ++ r =
      0x22 :: (t.flatMap (escape asciiOnly) ++ 0x22 :: r) := by
    simp [writeText]
  rw [split, tokens_cons rfl next]

theorem tokens_writeText (asciiOnly : Bool) (scalar : t.isScalar = true) :
    tokens d (writeText asciiOnly t ++ r) =
      ⟨.text t, writeText asciiOnly t ++ r⟩ :: tokens d r :=
  tokens_writeText_of_scanned fun _ => scanText_escapes asciiOnly scalar

/-- Texts of this kind are read as one token once they are written. -/
def Legible (d : Dialect) (asciiOnly : Bool) (kind : Text → Prop) : Prop :=
  ∀ t, kind t → ∀ r, tokens d (writeText asciiOnly t ++ r) =
    ⟨.text t, writeText asciiOnly t ++ r⟩ :: tokens d r

theorem legible_isScalar (asciiOnly : Bool) :
    Legible d asciiOnly fun t => t.isScalar = true :=
  fun _ scalar _ => tokens_writeText asciiOnly scalar

theorem tokens_openArray : tokens d (0x5B :: r) = ⟨.openArray, 0x5B :: r⟩ :: tokens d r :=
  tokens_cons rfl rfl

theorem tokens_closeArray : tokens d (0x5D :: r) = ⟨.closeArray, 0x5D :: r⟩ :: tokens d r :=
  tokens_cons rfl rfl

theorem tokens_openObject : tokens d (0x7B :: r) = ⟨.openObject, 0x7B :: r⟩ :: tokens d r :=
  tokens_cons rfl rfl

theorem tokens_closeObject : tokens d (0x7D :: r) = ⟨.closeObject, 0x7D :: r⟩ :: tokens d r :=
  tokens_cons rfl rfl

theorem tokens_comma : tokens d (0x2C :: r) = ⟨.comma, 0x2C :: r⟩ :: tokens d r :=
  tokens_cons rfl rfl

theorem tokens_colon : tokens d (0x3A :: r) = ⟨.colon, 0x3A :: r⟩ :: tokens d r :=
  tokens_cons rfl rfl

theorem tokens_null : tokens d (("null" : Text) ++ r) =
    ⟨.scalar .null, ("null" : Text) ++ r⟩ :: tokens d r :=
  tokens_cons rfl rfl

theorem tokens_true : tokens d (("true" : Text) ++ r) =
    ⟨.scalar (.bool true), ("true" : Text) ++ r⟩ :: tokens d r :=
  tokens_cons rfl rfl

theorem tokens_false : tokens d (("false" : Text) ++ r) =
    ⟨.scalar (.bool false), ("false" : Text) ++ r⟩ :: tokens d r :=
  tokens_cons rfl rfl

/-! ## Integers -/

/-- No number that stands before the text goes on in it. -/
def Ends (r : Text) : Prop :=
  ∀ c t, r = c :: t → c.isDigit = false ∧ c ≠ 0x2E ∧ c ≠ 0x65 ∧ c ≠ 0x45

theorem ends_nil : Ends [] := by
  intro c t h
  cases h

theorem ends_cons (h : c.isDigit = false ∧ c ≠ 0x2E ∧ c ≠ 0x65 ∧ c ≠ 0x45) : Ends (c :: t) := by
  rintro _ _ ⟨⟩
  exact h

theorem Ends.scanFraction (h : Ends r) : Numeral.scanFraction r = ([], r) := by
  cases r with
  | nil => rfl
  | cons c t =>
    obtain ⟨-, point, -⟩ := h c t rfl
    rw [Numeral.scanFraction, if_neg point]

theorem Ends.scanExponent (h : Ends r) : Numeral.scanExponent r = (none, r) := by
  cases r with
  | nil => rfl
  | cons c t =>
    obtain ⟨-, -, small, large⟩ := h c t rfl
    rw [Numeral.scanExponent, if_neg (not_or_intro small large)]

theorem head?_decimal_ne_zero {n : Nat} (h : n ≠ 0) : (Text.decimal n).head? ≠ some 0x30 := by
  fun_induction Text.decimal n with
  | case1 n small =>
    intro zero
    have val := CodePoint.val_ofDigit n
    rw [Option.some.inj zero] at val
    have : (0x30 : CodePoint).val = 0x30 := rfl
    omega
  | case2 n large ih =>
    have first := ih (by omega)
    cases hd : Text.decimal (n / 10) with
    | nil => exact absurd hd (Text.decimal_ne_nil _)
    | cons c cs => rwa [hd] at first

theorem scanWhole_decimal (n : Nat) (h : Ends r) :
    Numeral.scanWhole (Text.decimal n ++ r) = (Text.decimal n, r) := by
  by_cases zero : n = 0
  · subst zero
    rw [Text.decimal, if_pos (by decide)]
    rfl
  · have digits : ∀ c ∈ Text.decimal n, c.isDigit = true := fun c => Text.isDigit_of_mem_decimal
    have stops : r.takeWhile CodePoint.isDigit = [] ∧ r.dropWhile CodePoint.isDigit = r := by
      cases r with
      | nil => exact ⟨rfl, rfl⟩
      | cons c t => simp [(h c t rfl).1]
    have taken : (Text.decimal n ++ r).takeWhile CodePoint.isDigit = Text.decimal n := by
      rw [List.takeWhile_append_of_pos digits, stops.1, List.append_nil]
    have dropped : (Text.decimal n ++ r).dropWhile CodePoint.isDigit = r := by
      rw [List.dropWhile_append_of_pos digits, stops.2]
    have first := head?_decimal_ne_zero zero
    cases hd : Text.decimal n with
    | nil => exact absurd hd (Text.decimal_ne_nil n)
    | cons c cs =>
      rw [hd] at taken dropped first
      have first : c ≠ 0x30 := by simpa using first
      rw [List.cons_append] at taken dropped ⊢
      rw [Numeral.scanWhole, if_neg first, taken, dropped]

theorem scanUnsigned?_decimal (negative : Bool) (n : Nat) (h : Ends r) :
    Numeral.scanUnsigned? negative (Text.decimal n ++ r) =
      some (⟨negative, Text.decimal n, [], none⟩, r) := by
  have whole := scanWhole_decimal n h
  unfold Numeral.scanUnsigned?
  rw [whole]
  cases hd : Text.decimal n with
  | nil => exact absurd hd (Text.decimal_ne_nil n)
  | cons c cs => simp only [h.scanFraction, h.scanExponent]

/-- The spellings of the words. -/
theorem words_eq : words =
    [([0x6E, 0x75, 0x6C, 0x6C], .null), ([0x74, 0x72, 0x75, 0x65], .bool true),
      ([0x66, 0x61, 0x6C, 0x73, 0x65], .bool false), ([0x4E, 0x61, 0x4E], .float .nan),
      ([0x49, 0x6E, 0x66, 0x69, 0x6E, 0x69, 0x74, 0x79], .float (.infinite false)),
      ([0x2D, 0x49, 0x6E, 0x66, 0x69, 0x6E, 0x69, 0x74, 0x79], .float (.infinite true))] := rfl

/-- No word begins with a digit, or with a minus sign and a digit. -/
theorem word?_digit (digit : c.isDigit = true) :
    word? (c :: t) = none ∧ word? (0x2D :: c :: t) = none := by
  have other : ∀ e : CodePoint, e.isDigit = false → e ≠ c := by
    rintro e he rfl
    rw [digit] at he
    cases he
  have n := other 0x6E rfl
  have t := other 0x74 rfl
  have f := other 0x66 rfl
  have nan := other 0x4E rfl
  have infinity := other 0x49 rfl
  have minus := other 0x2D rfl
  constructor
  · simp [word?, words_eq, Text.after?, n, t, f, nan, infinity, minus]
  · simp [word?, words_eq, Text.after?, infinity]

/-- The first token of a text that is no punctuation and no string, given the number it begins
with. -/
theorem nextToken_number {n : Numeral} (digit : c.isDigit = true ∨ c = 0x2D)
    (word : word? (c :: t) = none) (scanned : Numeral.scan? (c :: t) = some (n, r)) :
    nextToken d c t = (numberToken d (c :: t) n, r) := by
  have other : ∀ e : CodePoint, e.isDigit = false → e ≠ 0x2D → c ≠ e := by
    rintro e notDigit notMinus rfl
    rcases digit with digit | minus
    · exact absurd (digit.symm.trans notDigit) (by decide)
    · exact notMinus minus
  unfold nextToken
  split
  case h_8 => simp only [word, scanned]
  all_goals exact absurd rfl (other _ (by decide) (by decide))

theorem isSpace_number (digit : c.isDigit = true ∨ c = 0x2D) : isSpace c = false := by
  simp only [isSpace, Bool.or_eq_false_iff, beq_eq_false_iff_ne]
  refine ⟨⟨⟨?_, ?_⟩, ?_⟩, ?_⟩ <;> rintro rfl <;> revert digit <;> decide

/-- The digits of a number begin with a digit. -/
theorem exists_decimal_eq_cons (n : Nat) :
    ∃ c cs, Text.decimal n = c :: cs ∧ c.isDigit = true := by
  cases hd : Text.decimal n with
  | nil => exact absurd hd (Text.decimal_ne_nil n)
  | cons c cs => exact ⟨c, cs, rfl, Text.isDigit_of_mem_decimal (hd ▸ List.mem_cons_self)⟩

/-- The numeral that an integer is written as. -/
def numeral : Int → Numeral
  | .ofNat n => ⟨false, Text.decimal n, [], none⟩
  | .negSucc n => ⟨true, Text.decimal (n + 1), [], none⟩

theorem whole_numeral (i : Int) : (numeral i).whole = Text.decimal i.natAbs := by
  cases i <;> rfl

theorem isInteger_numeral (i : Int) : (numeral i).isInteger = true := by
  cases i <;> rfl

theorem toInt_numeral (i : Int) : (numeral i).toInt = i := by
  cases i with
  | ofNat n => simp [numeral, Numeral.toInt]
  | negSucc n => simp [numeral, Numeral.toInt, Int.negSucc_eq]

/-- An integer that is written is one token. -/
theorem tokens_numeral (i : Int) (h : Ends r) : tokens d (Text.decimalInt i ++ r) =
    ⟨numberToken d (Text.decimalInt i ++ r) (numeral i), Text.decimalInt i ++ r⟩ ::
      tokens d r := by
  cases i with
  | ofNat n =>
    obtain ⟨c, cs, spelled, digit⟩ := exists_decimal_eq_cons n
    have scanned : Numeral.scan? (c :: (cs ++ r)) = some (numeral (.ofNat n), r) := by
      have notMinus : c ≠ 0x2D := by
        rintro rfl
        cases digit
      rw [Numeral.scan?, if_neg notMinus, ← List.cons_append, ← spelled,
        scanUnsigned?_decimal false n h]
      rfl
    have next := nextToken_number (d := d) (.inl digit) (word?_digit digit).1 scanned
    rw [Text.decimalInt, spelled, List.cons_append, tokens_cons (isSpace_number (.inl digit)) next]
  | negSucc n =>
    obtain ⟨c, cs, spelled, digit⟩ := exists_decimal_eq_cons (n + 1)
    have scanned : Numeral.scan? (0x2D :: c :: (cs ++ r)) = some (numeral (.negSucc n), r) := by
      rw [Numeral.scan?, if_pos rfl, ← List.cons_append, ← spelled,
        scanUnsigned?_decimal true (n + 1) h]
      rfl
    have next := nextToken_number (d := d) (.inr rfl) (word?_digit digit).2 scanned
    rw [Text.decimalInt, spelled, List.cons_append, List.cons_append,
      tokens_cons (isSpace_number (.inr rfl)) next]

theorem numberToken_numeral {i : Int} (digits : (Text.decimal i.natAbs).length ≤ digitLimit) :
    numberToken d t (numeral i) = .scalar (.int i) := by
  have short : ¬ digitLimit < (Text.decimal i.natAbs).length := Nat.not_lt.mpr digits
  simp [numberToken, whole_numeral, isInteger_numeral, toInt_numeral, short]

/-- An integer that is written is read as one token. -/
theorem tokens_decimalInt {i : Int} (digits : (Text.decimal i.natAbs).length ≤ 4300)
    (h : Ends r) : tokens d (Text.decimalInt i ++ r) =
      ⟨.scalar (.int i), Text.decimalInt i ++ r⟩ :: tokens d r := by
  rw [tokens_numeral i h, numberToken_numeral digits]

end Json

end UsagePolicy
