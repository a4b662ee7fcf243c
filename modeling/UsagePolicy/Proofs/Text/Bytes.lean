import Mathlib.Data.List.TakeWhile
import UsagePolicy.Text.Utf8

/-!
# Texts as bytes

The first byte of a code point says how many bytes it has, and all of them together say which code
point it is. So the bytes of a text can be cut into those of its code points in one way only, and
different texts have different bytes. A text without surrogates always has bytes.
-/

namespace UsagePolicy

namespace CodePoint

/-- The bytes of a code point, by their number. -/
theorem utf8_cases (c : CodePoint) :
    (c.val < 0x80 ∧ c.utf8 = [UInt8.ofNat c.val]) ∨
    (0x80 ≤ c.val ∧ c.val < 0x800 ∧
      c.utf8 = [UInt8.ofNat (0xC0 + c.val / 64), UInt8.ofNat (0x80 + c.val % 64)]) ∨
    (0x800 ≤ c.val ∧ c.val < 0x10000 ∧ c.utf8 = [UInt8.ofNat (0xE0 + c.val / 4096),
      UInt8.ofNat (0x80 + c.val / 64 % 64), UInt8.ofNat (0x80 + c.val % 64)]) ∨
    (0x10000 ≤ c.val ∧ c.val < 0x110000 ∧ c.utf8 = [UInt8.ofNat (0xF0 + c.val / 262144),
      UInt8.ofNat (0x80 + c.val / 4096 % 64), UInt8.ofNat (0x80 + c.val / 64 % 64),
      UInt8.ofNat (0x80 + c.val % 64)]) := by
  have bound := c.isLt
  unfold utf8
  dsimp only
  rw [Nat.div_one]
  by_cases one : c.val < 0x80
  · exact .inl ⟨one, if_pos one⟩
  · rw [if_neg one]
    by_cases two : c.val < 0x800
    · exact .inr (.inl ⟨Nat.not_lt.mp one, two, if_pos two⟩)
    · rw [if_neg two]
      by_cases three : c.val < 0x10000
      · exact .inr (.inr (.inl ⟨Nat.not_lt.mp two, three, if_pos three⟩))
      · exact .inr (.inr (.inr ⟨Nat.not_lt.mp three, bound, if_neg three⟩))

theorem uint8_ofNat_inj {m n : Nat} (h : UInt8.ofNat m = UInt8.ofNat n) : m % 256 = n % 256 := by
  simpa using congrArg UInt8.toNat h

/-- The bytes of a code point are read off the front of any bytes in one way only. -/
theorem utf8_append_inj {c d : CodePoint} {bs cs : List UInt8} (h : c.utf8 ++ bs = d.utf8 ++ cs) :
    c = d ∧ bs = cs := by
  suffices same : c.val = d.val ∧ bs = cs from ⟨Fin.ext same.1, same.2⟩
  rcases utf8_cases c with ⟨hc, ec⟩ | ⟨hc, hc', ec⟩ | ⟨hc, hc', ec⟩ | ⟨hc, hc', ec⟩ <;>
    rcases utf8_cases d with ⟨hd, ed⟩ | ⟨hd, hd', ed⟩ | ⟨hd, hd', ed⟩ | ⟨hd, hd', ed⟩ <;>
    simp only [ec, ed, List.cons_append, List.nil_append, List.cons.injEq] at h
  case inl.inl =>
    have first := uint8_ofNat_inj h.1
    exact ⟨by omega, h.2⟩
  case inr.inl.inr.inl =>
    have first := uint8_ofNat_inj h.1
    have second := uint8_ofNat_inj h.2.1
    exact ⟨by omega, h.2.2⟩
  case inr.inr.inl.inr.inr.inl =>
    have first := uint8_ofNat_inj h.1
    have second := uint8_ofNat_inj h.2.1
    have third := uint8_ofNat_inj h.2.2.1
    exact ⟨by omega, h.2.2.2⟩
  case inr.inr.inr.inr.inr.inr =>
    have first := uint8_ofNat_inj h.1
    have second := uint8_ofNat_inj h.2.1
    have third := uint8_ofNat_inj h.2.2.1
    have fourth := uint8_ofNat_inj h.2.2.2.1
    exact ⟨by omega, h.2.2.2.2⟩
  -- different numbers of bytes begin differently
  all_goals
    have first := uint8_ofNat_inj h.1
    omega

theorem utf8_ne_nil (c : CodePoint) : c.utf8 ≠ [] := by
  rcases utf8_cases c with ⟨-, h⟩ | ⟨-, -, h⟩ | ⟨-, -, h⟩ | ⟨-, -, h⟩ <;> simp [h]

end CodePoint

namespace Text

/-- Different texts have different bytes. -/
theorem utf8_injective : Function.Injective utf8 := by
  intro s t h
  induction s generalizing t with
  | nil =>
    cases t with
    | nil => rfl
    | cons d t =>
      simp only [utf8, List.flatMap_nil, List.flatMap_cons] at h
      exact absurd (List.append_eq_nil_iff.mp h.symm).1 d.utf8_ne_nil
  | cons c s ih =>
    cases t with
    | nil =>
      simp only [utf8, List.flatMap_nil, List.flatMap_cons] at h
      exact absurd (List.append_eq_nil_iff.mp h).1 c.utf8_ne_nil
    | cons d t =>
      obtain ⟨rfl, rest⟩ := CodePoint.utf8_append_inj (by simpa [utf8] using h)
      rw [ih rest]

/-! ## Surrogates -/

variable {c : CodePoint} {s t : Text}

@[simp] theorem isScalar_cons : isScalar (c :: t) = (!c.isSurrogate && isScalar t) := rfl

@[simp] theorem isScalar_append : isScalar (s ++ t) = (isScalar s && isScalar t) :=
  List.all_append

theorem isScalar_iff : isScalar t = true ↔ ∀ c ∈ t, c.isSurrogate = false := by
  simp only [isScalar, List.all_eq_true, Bool.not_eq_true']

theorem drop_length_takeWhile (p : CodePoint → Bool) (t : Text) :
    t.drop (t.takeWhile p).length = t.dropWhile p :=
  calc t.drop (t.takeWhile p).length
    _ = (t.takeWhile p ++ t.dropWhile p).drop (t.takeWhile p).length := by
      rw [List.takeWhile_append_dropWhile]
    _ = t.dropWhile p := List.drop_left

/-- A text has a first run of surrogates exactly if it has surrogates. -/
theorem surrogateRun?_eq_none : t.surrogateRun? = none ↔ t.isScalar = true := by
  unfold surrogateRun? isScalar
  dsimp only
  rw [drop_length_takeWhile, List.all_eq_true, ← List.dropWhile_eq_nil_iff]
  cases t.dropWhile fun c => !c.isSurrogate <;> simp

/-- A text without surrogates has bytes. -/
theorem utf8?_of_isScalar (h : t.isScalar = true) : t.utf8? = .ok t.utf8 := by
  rw [utf8?, surrogateRun?_eq_none.mpr h]

end Text

end UsagePolicy
