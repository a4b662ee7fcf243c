import Mathlib.Algebra.Group.Nat.Defs
import Mathlib.Data.List.Induction
import UsagePolicy.Text.Basic

/-!
# Decimal numbers

The decimal digits of a number denote the number, so different numbers are written differently.
-/

namespace UsagePolicy

namespace CodePoint

@[simp] theorem ofNat_val (c : CodePoint) : ofNat c.val = c := by
  rw [ofNat, dif_pos c.isLt]

theorem val_ofNat {n : Nat} (h : n < 0x110000) : (ofNat n).val = n := by
  rw [ofNat, dif_pos h]

theorem val_ofDigit (n : Nat) : (ofDigit n).val = 0x30 + n % 10 := val_ofNat (by omega)

theorem digitValue_ofDigit (n : Nat) : (ofDigit n).digitValue = n % 10 := by
  rw [digitValue, val_ofDigit]
  omega

theorem isDigit_ofDigit (n : Nat) : (ofDigit n).isDigit = true := by
  simp only [isDigit, val_ofDigit, Bool.and_eq_true, decide_eq_true_eq]
  omega

end CodePoint

namespace Text

theorem digitsValue_append_digit (t : Text) (c : CodePoint) :
    digitsValue (t ++ [c]) = 10 * digitsValue t + c.digitValue := by
  simp [digitsValue]

@[simp] theorem digitsValue_decimal (n : Nat) : digitsValue (decimal n) = n := by
  fun_induction decimal n with
  | case1 n small =>
    simp only [digitsValue, List.foldl_cons, List.foldl_nil, CodePoint.digitValue_ofDigit]
    omega
  | case2 n large ih =>
    rw [digitsValue_append_digit, ih, CodePoint.digitValue_ofDigit]
    omega

theorem decimal_injective : Function.Injective decimal :=
  Function.LeftInverse.injective digitsValue_decimal

theorem isDigit_of_mem_decimal {n : Nat} {c : CodePoint} (h : c ∈ decimal n) :
    c.isDigit = true := by
  fun_induction decimal n with
  | case1 n small =>
    obtain rfl := List.mem_singleton.mp h
    exact CodePoint.isDigit_ofDigit n
  | case2 n large ih =>
    rcases List.mem_append.mp h with h | h
    · exact ih h
    · obtain rfl := List.mem_singleton.mp h
      exact CodePoint.isDigit_ofDigit _

theorem decimal_ne_nil (n : Nat) : decimal n ≠ [] := by
  fun_induction decimal n <;> simp

theorem exists_digit_decimal (n : Nat) : ∃ c ∈ decimal n, c.isDigit = true := by
  obtain ⟨c, member⟩ := List.exists_mem_of_ne_nil _ (decimal_ne_nil n)
  exact ⟨c, member, isDigit_of_mem_decimal member⟩

theorem not_mem_decimal {n : Nat} {c : CodePoint} (h : c.isDigit = false) : c ∉ decimal n := by
  intro member
  rw [isDigit_of_mem_decimal member] at h
  cases h

theorem exists_digit_decimalInt (i : Int) : ∃ c ∈ decimalInt i, c.isDigit = true := by
  cases i with
  | ofNat n => exact exists_digit_decimal n
  | negSucc n =>
    obtain ⟨c, member, digit⟩ := exists_digit_decimal (n + 1)
    exact ⟨c, List.mem_cons_of_mem _ member, digit⟩

/-- An integer is written with digits and a minus sign only. -/
theorem not_mem_decimalInt {i : Int} {c : CodePoint} (h : c.isDigit = false) (minus : c ≠ 0x2D) :
    c ∉ decimalInt i := by
  cases i with
  | ofNat n => exact not_mem_decimal h
  | negSucc n => exact List.not_mem_cons_of_ne_of_not_mem minus (not_mem_decimal h)

/-! ## The number of digits -/

theorem digitsValue_lt {t : Text} (digits : ∀ c ∈ t, c.isDigit = true) :
    digitsValue t < 10 ^ t.length := by
  induction t using List.reverseRecOn with
  | nil => simp [digitsValue]
  | append_singleton t c ih =>
    have front := ih fun c hc => digits c (List.mem_append_left _ hc)
    have last : c.digitValue < 10 := by
      have digit := digits c (by simp)
      simp only [CodePoint.isDigit, CodePoint.digitValue, Bool.and_eq_true,
        decide_eq_true_eq] at digit ⊢
      omega
    rw [digitsValue_append_digit, List.length_append, List.length_singleton, Nat.pow_succ]
    omega

theorem lt_length_decimal {n k : Nat} (h : 10 ^ k ≤ n) : k < (decimal n).length := by
  have bound := digitsValue_lt fun c => isDigit_of_mem_decimal (n := n) (c := c)
  rw [digitsValue_decimal] at bound
  exact (Nat.pow_lt_pow_iff_right (by decide)).mp (Nat.lt_of_le_of_lt h bound)

theorem length_decimal_le {n k : Nat} (positive : 0 < k) (h : n < 10 ^ k) :
    (decimal n).length ≤ k := by
  induction k generalizing n with
  | zero => omega
  | succ k ih =>
    rw [decimal]
    split
    · simp
    · rw [Nat.pow_succ] at h
      have front : n / 10 < 10 ^ k := by omega
      have more : 0 < k := by
        rw [Nat.pos_iff_ne_zero]
        rintro rfl
        omega
      simpa using ih more front

theorem hasMoreDigits_iff {k n : Nat} : hasMoreDigits k n = true ↔ 10 ^ k ≤ n := by
  induction k generalizing n with
  | zero => simp [hasMoreDigits, Nat.one_le_iff_ne_zero]
  | succ k ih =>
    have positive : 0 < 10 ^ k := Nat.pow_pos (by decide)
    rw [hasMoreDigits, Bool.and_eq_true, ih, bne_iff_ne, Nat.pow_succ]
    omega

theorem isOversized_iff {i : Int} :
    isOversized i = true ↔ digitLimit < (decimal i.natAbs).length := by
  rw [isOversized, hasMoreDigits_iff]
  constructor
  · exact lt_length_decimal
  · intro long
    by_contra few
    exact Nat.not_le.mpr long (length_decimal_le (by decide) (Nat.not_le.mp few))

theorem isOversized_eq_false {i : Int} :
    isOversized i = false ↔ (decimal i.natAbs).length ≤ digitLimit := by
  rw [← Bool.not_eq_true, isOversized_iff, Nat.not_lt]

end Text

end UsagePolicy
