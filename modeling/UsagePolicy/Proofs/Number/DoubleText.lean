import UsagePolicy.Number.Shortest
import UsagePolicy.Proofs.Text.Decimal

/-!
# Equal doubles and their texts

A finite double has one significand and one exponent, so equal finite doubles differ at most in the
sign of a zero. The text of a finite double has a digit in it, and a point or the letter of an
exponent, which no integer is written with.
-/

namespace UsagePolicy

namespace Double

variable {m m' : Nat} {e e' : Int} {s s' : Bool}

/-! ## Equality -/

theorem two_pow_pos (k : Nat) : 0 < Nat.pow 2 k := Nat.two_pow_pos k

theorem two_pow_add (j k : Nat) : Nat.pow 2 (j + k) = Nat.pow 2 j * Nat.pow 2 k := Nat.pow_add ..

theorem magnitude_den_pos (m : Nat) (e : Int) : 0 < (magnitude m e).2 := by
  cases e with
  | ofNat k => exact Nat.one_pos
  | negSucc k => exact two_pow_pos (k + 1)

theorem eq_zero_of_magnitude (h : (magnitude m e).1 = 0) : m = 0 := by
  cases e with
  | ofNat k => exact (Nat.mul_eq_zero.mp h).resolve_right (Nat.ne_of_gt (two_pow_pos k))
  | negSucc k => exact h

/-- The magnitude in units of the least positive double. -/
theorem magnitude_units (m : Nat) (least : leastExponent ≤ e) :
    (magnitude m e).1 * Nat.pow 2 (-leastExponent).toNat =
      m * Nat.pow 2 (e - leastExponent).toNat * (magnitude m e).2 := by
  cases e with
  | ofNat k =>
    have negative : leastExponent ≤ 0 := by decide
    have shift : (Int.ofNat k - leastExponent).toNat = k + (-leastExponent).toNat := by
      rw [Int.ofNat_eq_natCast]
      omega
    rw [shift, two_pow_add, ← Nat.mul_assoc]
    exact (Nat.mul_one _).symm
  | negSucc k =>
    have shift : (-leastExponent).toNat = (Int.negSucc k - leastExponent).toNat + (k + 1) := by
      omega
    rw [shift, two_pow_add, Nat.mul_assoc]
    rfl

/-- The significand of a double is too small to take the place of one with a greater exponent. -/
theorem Proper.not_lt {k k' : Nat} (h : m < 2 * leastNormal) (h' : k' ≠ 0 → leastNormal ≤ m')
    (same : m * Nat.pow 2 k = m' * Nat.pow 2 k') : ¬ k < k' := by
  intro lt
  obtain ⟨j, rfl⟩ := Nat.exists_eq_add_of_lt lt
  have normal := h' (by omega)
  have scaled : m = m' * Nat.pow 2 (j + 1) := by
    apply Nat.eq_of_mul_eq_mul_right (two_pow_pos k)
    rw [same, Nat.mul_assoc, ← two_pow_add]
    congr 2
    omega
  have twice : m' * 2 ≤ m := by
    rw [scaled, two_pow_add, ← Nat.mul_assoc, Nat.mul_right_comm]
    exact Nat.le_mul_of_pos_right _ (two_pow_pos j)
  omega

theorem Proper.eq_of_units (h : Proper m e) (h' : Proper m' e')
    (same : m * Nat.pow 2 (e - leastExponent).toNat = m' * Nat.pow 2 (e' - leastExponent).toNat) :
    m = m' ∧ e = e' := by
  obtain ⟨small, least, -, normal⟩ := h
  obtain ⟨small', least', -, normal'⟩ := h'
  -- neither exponent is the greater one, since its significand would be normal
  have shifts : (e - leastExponent).toNat = (e' - leastExponent).toNat := by
    refine Nat.le_antisymm (Nat.not_lt.mp ?_) (Nat.not_lt.mp ?_)
    · exact Proper.not_lt small' (fun _ => normal.resolve_right (by omega)) same.symm
    · exact Proper.not_lt small (fun _ => normal'.resolve_right (by omega)) same
  rw [shifts] at same
  exact ⟨Nat.eq_of_mul_eq_mul_right (two_pow_pos _) same, by omega⟩

/-- Doubles of one magnitude have one significand and one exponent. -/
theorem Proper.eq_of_magnitude (h : Proper m e) (h' : Proper m' e')
    (same : (magnitude m e).1 * (magnitude m' e').2 = (magnitude m' e').1 * (magnitude m e).2) :
    m = m' ∧ e = e' := by
  have units := magnitude_units m h.2.1
  have units' := magnitude_units m' h'.2.1
  have positive := Nat.mul_pos (magnitude_den_pos m e) (magnitude_den_pos m' e')
  generalize Nat.pow 2 (-leastExponent).toNat = unit at units units'
  refine h.eq_of_units h' (Nat.eq_of_mul_eq_mul_right positive ?_)
  calc
    _ = m * Nat.pow 2 (e - leastExponent).toNat * (magnitude m e).2 * (magnitude m' e').2 :=
      (Nat.mul_assoc ..).symm
    _ = (magnitude m e).1 * (magnitude m' e').2 * unit := by
      rw [← units, Nat.mul_right_comm]
    _ = (magnitude m' e').1 * unit * (magnitude m e).2 := by
      rw [same, Nat.mul_right_comm]
    _ = m' * Nat.pow 2 (e' - leastExponent).toNat * ((magnitude m e).2 * (magnitude m' e').2) := by
      rw [units', Nat.mul_assoc, Nat.mul_comm (magnitude m' e').2]

/-- Equal finite doubles are the same, or zeros of both signs. -/
theorem eq_of_numEq {h : Proper m e} {h' : Proper m' e'}
    (equal : (finite s m e h).numEq (finite s' m' e' h') = true) :
    m = m' ∧ e = e' ∧ (s = s' ∨ m = 0) := by
  simp only [numEq, ratio?, beq_iff_eq] at equal
  have same := congrArg Int.natAbs equal
  have magnitudes : ∀ (b : Bool) (n : Nat), (if b then -(n : Int) else n).natAbs = n := by
    intro b n
    cases b <;> simp
  simp only [Int.natAbs_mul, Int.natAbs_natCast, magnitudes] at same
  obtain ⟨rfl, rfl⟩ := h.eq_of_magnitude h' same
  refine ⟨rfl, rfl, Decidable.or_iff_not_imp_left.mpr fun signs => eq_zero_of_magnitude (e := e) ?_⟩
  have apart := Int.eq_of_mul_eq_mul_right (by have := magnitude_den_pos m e; omega) equal
  cases s <;> cases s' <;> simp at signs apart <;> omega

/-! ## Texts -/

theorem mem_positional {digits : Text} {c : CodePoint} (point : Int) (h : c ∈ digits) :
    c ∈ positional digits point := by
  unfold positional
  split
  · exact List.mem_append_right _ h
  · next k _ =>
    split
    · exact List.mem_append_left _ (List.mem_append_left _ h)
    · rw [← List.take_append_drop k digits, List.mem_append] at h
      exact List.mem_append.mpr (h.imp_right (List.mem_cons_of_mem _))
  · exact List.mem_append_right _ h

theorem point_mem_positional (digits : Text) (point : Int) : 0x2E ∈ positional digits point := by
  unfold positional
  split
  · exact List.mem_append_left _ (by decide)
  · split
    · exact List.mem_append_right _ (by decide)
    · exact List.mem_append_right _ (List.mem_cons_self ..)
  · exact List.mem_append_left _ (List.mem_append_left _ (by decide))

theorem mem_scientific {digits : Text} {c : CodePoint} (point : Int) (h : c ∈ digits) :
    c ∈ scientific digits point := by
  unfold scientific
  split
  · exact h
  · obtain rfl := List.mem_singleton.mp h
    exact List.mem_cons_self ..
  · rcases List.mem_cons.mp h with rfl | h
    · exact List.mem_append_left _ (List.mem_cons_self ..)
    · exact List.mem_append_left _ (List.mem_cons_of_mem _ (List.mem_cons_of_mem _ h))

theorem exponent_mem_scientific {digits : Text} (point : Int) (h : digits ≠ []) :
    0x65 ∈ scientific digits point := by
  unfold scientific
  split
  · exact absurd rfl h
  · exact List.mem_cons_of_mem _ (List.mem_cons_self ..)
  · exact List.mem_append_right _ (List.mem_cons_self ..)

theorem shortestDigits_decimal (m : Nat) (e : Int) :
    (shortestDigits m e).1 =
      Text.decimal (dropTrailingZeros 20 (shortest m e).1 (shortest m e).2).1 :=
  rfl

/-- The text of a finite double after its sign. -/
def unsignedText (m : Nat) (e : Int) : Text :=
  if m = 0 then ("0.0" : Text)
  else
    let (ds, point) := shortestDigits m e
    if -4 < point ∧ point ≤ 16 then positional ds point else scientific ds point

theorem text_finite (s : Bool) (h : Proper m e) :
    (finite s m e h).text = (if s then ("-" : Text) else []) ++ unsignedText m e := rfl

/-- A finite double is written with a digit. -/
theorem exists_digit_text (h : Proper m e) : ∃ c ∈ (finite s m e h).text, c.isDigit = true := by
  suffices digits : ∃ c ∈ unsignedText m e, c.isDigit = true by
    obtain ⟨c, member, digit⟩ := digits
    exact ⟨c, List.mem_append_right _ member, digit⟩
  unfold unsignedText
  split
  · exact ⟨0x30, by decide, rfl⟩
  · obtain ⟨c, member, digit⟩ := Text.exists_digit_decimal
      (dropTrailingZeros 20 (shortest m e).1 (shortest m e).2).1
    rw [← shortestDigits_decimal] at member
    refine ⟨c, ?_, digit⟩
    dsimp only
    split
    · exact mem_positional _ member
    · exact mem_scientific _ member

/-- A finite double is written with a point or with an exponent. -/
theorem point_or_exponent_mem_text (h : Proper m e) :
    0x2E ∈ (finite s m e h).text ∨ 0x65 ∈ (finite s m e h).text := by
  suffices marked : 0x2E ∈ unsignedText m e ∨ 0x65 ∈ unsignedText m e from
    marked.imp (List.mem_append_right _) (List.mem_append_right _)
  unfold unsignedText
  split
  · exact .inl (by decide)
  · dsimp only
    split
    · exact .inl (point_mem_positional ..)
    · refine .inr (exponent_mem_scientific _ ?_)
      rw [shortestDigits_decimal]
      exact Text.decimal_ne_nil _

/-- A finite double and an integer are written differently, also if they are equal. -/
theorem text_ne_decimalInt (h : Proper m e) (i : Int) :
    (finite s m e h).text ≠ Text.decimalInt i := by
  intro same
  have marked := point_or_exponent_mem_text (s := s) h
  rw [same] at marked
  exact marked.elim (Text.not_mem_decimalInt rfl (by decide))
    (Text.not_mem_decimalInt rfl (by decide))

/-- Equal doubles are written alike only if they are the same: zeros of both signs are not. -/
theorem eq_of_numEq_of_text {a b : Double} (equal : a.numEq b = true) (same : a.text = b.text) :
    a = b := by
  cases a with
  | nan => simp [numEq, ratio?] at equal
  | infinite s =>
    cases b with
    | infinite s' => exact congrArg _ (beq_iff_eq.mp equal)
    | nan | finite => simp [numEq, ratio?] at equal
  | finite s m e h =>
    cases b with
    | nan | infinite => simp [numEq, ratio?] at equal
    | finite s' m' e' h' =>
      obtain ⟨rfl, rfl, signs⟩ := eq_of_numEq equal
      rcases signs with rfl | rfl
      · rfl
      · obtain rfl : s = s' := by
          revert same
          rw [text_finite, text_finite, List.append_left_inj]
          cases s <;> cases s' <;> decide
        rfl

end Double

end UsagePolicy
