import UsagePolicy.Logging.Timestamp
import UsagePolicy.Proofs.Json.Characters

/-!
# Times that can be written

A time can be written exactly if its date lies in the years from 1 to 9999, which are so many
seconds before and after the beginning of 1970. What is written then is printable.
-/

namespace UsagePolicy

namespace CalendarDate

/-- The year of an era by the day of the era, both from zero on. -/
def yearOfEra (day : Nat) : Nat := (day - day / 1460 + day / 36524 - day / 146096) / 365

/-- The days before a year of an era and the day of the year make up the day of the era. -/
theorem exists_dayOfYear {day : Nat} (h : day < 146097) :
    yearOfEra day ≤ 399 ∧ ∃ dayOfYear ≤ 365,
      day + yearOfEra day / 100 = 365 * yearOfEra day + yearOfEra day / 4 + dayOfYear := by
  rcases Nat.lt_or_ge day 146096 with within | last
  · -- `c` centuries, then `k` times four years with a leap day, then `s` days
    obtain ⟨c, r, few, split⟩ : ∃ c r, r < 36524 ∧ day = 36524 * c + r :=
      ⟨day / 36524, day % 36524, by omega, by omega⟩
    obtain ⟨k, s, short, rest⟩ : ∃ k s, s < 1461 ∧ r = 1461 * k + s :=
      ⟨r / 1461, r % 1461, by omega, by omega⟩
    have leaps : day / 1460 = 25 * c + k + (k + s + 24 * c) / 1460 := by omega
    have centuries : day / 36524 = c := by omega
    have eras : day / 146096 = 0 := by omega
    have year : yearOfEra day = 100 * c + 4 * k + (s - (k + s + 24 * c) / 1460) / 365 := by
      rw [yearOfEra, leaps, centuries, eras]
      omega
    have inCycle : (s - (k + s + 24 * c) / 1460) / 365 ≤ 3 := by omega
    have hundreds : yearOfEra day / 100 = c := by omega
    have fours : yearOfEra day / 4 = 25 * c + k := by omega
    refine ⟨by omega, s - 365 * ((s - (k + s + 24 * c) / 1460) / 365), by omega, ?_⟩
    omega
  · obtain rfl : day = 146096 := by omega
    exact ⟨by decide, 365, by decide, by decide⟩

/-- January and February are the last months of the year that begins in March. -/
theorem month_le_two_iff (day : Nat) :
    (if (5 * day + 2) / 153 < 10 then (5 * day + 2) / 153 + 3 else (5 * day + 2) / 153 - 9) ≤ 2 ↔
      306 ≤ day ∧ day ≤ 366 := by
  split <;> omega

theorem exists_year_ofDays (days : Int) : ∃ year day : Nat, year ≤ 399 ∧ day ≤ 365 ∧
    (days + 719468) % 146097 + year / 100 = 365 * year + year / 4 + day ∧
    (ofDays days).year =
      year + (days + 719468) / 146097 * 400 + (if 306 ≤ day then 1 else 0) := by
  obtain ⟨d, hd⟩ : ∃ d : Nat, d = ((days + 719468) % 146097).toNat := ⟨_, rfl⟩
  obtain ⟨most, day, few, sum⟩ := @exists_dayOfYear d (by omega)
  have dayEq : d - (365 * yearOfEra d + yearOfEra d / 4 - yearOfEra d / 100) = day := by omega
  refine ⟨yearOfEra d, day, most, few, by omega, ?_⟩
  have spelled : (ofDays days).year = yearOfEra d + (days + 719468) / 146097 * 400 +
      (if (if (5 * day + 2) / 153 < 10 then (5 * day + 2) / 153 + 3
        else (5 * day + 2) / 153 - 9) ≤ 2 then 1 else 0) := by
    subst dayEq hd
    rfl
  have late : 306 ≤ day ∧ day ≤ 366 ↔ 306 ≤ day := by omega
  rw [spelled, if_congr ((month_le_two_iff day).trans late) rfl rfl]

theorem one_le_year_ofDays_iff (days : Int) : 1 ≤ (ofDays days).year ↔ -719162 ≤ days := by
  obtain ⟨year, day, most, few, sum, eq⟩ := exists_year_ofDays days
  rw [eq]
  split <;> omega

theorem year_ofDays_le_iff (days : Int) : (ofDays days).year ≤ 9999 ↔ days ≤ 2932896 := by
  obtain ⟨year, day, most, few, sum, eq⟩ := exists_year_ofDays days
  rw [eq]
  split <;> omega

end CalendarDate

namespace Timestamp

/-- The time lies in the years from 1 to 9999. -/
structure Dated (t : Timestamp) : Prop where
  first : -62135596800 ≤ t.seconds
  last : t.seconds < 253402300800

theorem isPrintable_of_mem_padded {width n : Nat} {c : CodePoint} (h : c ∈ padded width n) :
    c.IsPrintable := by
  rcases List.mem_append.mp h with pad | digit
  · rw [List.eq_of_mem_replicate pad]
    decide
  · exact Text.isPrintable_of_mem_decimal digit

theorem dated_iff (t : Timestamp) : t.Dated ↔
    1 ≤ (CalendarDate.ofDays (t.seconds / 86400)).year ∧
      (CalendarDate.ofDays (t.seconds / 86400)).year ≤ 9999 := by
  rw [CalendarDate.one_le_year_ofDays_iff, CalendarDate.year_ofDays_le_iff]
  constructor
  · rintro ⟨first, last⟩
    omega
  · rintro ⟨first, last⟩
    exact ⟨by omega, by omega⟩

/-- A time can be written exactly if it lies in the years that can be. -/
theorem exists_text_iff (t : Timestamp) : (∃ s, t.text = .ok s) ↔ t.Dated := by
  rw [dated_iff]
  constructor
  · rintro ⟨s, written⟩
    unfold text at written
    dsimp only at written
    split at written
    · cases written
    · split at written
      · cases written
      · omega
  · intro within
    have small : ¬ ((CalendarDate.ofDays (t.seconds / 86400)).year - 1900 < -0x80000000 ∨
        0x80000000 ≤ (CalendarDate.ofDays (t.seconds / 86400)).year - 1900) := by omega
    have inside : ¬ ((CalendarDate.ofDays (t.seconds / 86400)).year < 1 ∨
        9999 < (CalendarDate.ofDays (t.seconds / 86400)).year) := by omega
    simp only [text, small, inside, if_false]
    exact ⟨_, rfl⟩

theorem isPrintable_of_text {t : Timestamp} {s : Text} (h : t.text = .ok s) :
    ∀ c ∈ s, c.IsPrintable := by
  unfold text at h
  dsimp only at h
  split at h
  · cases h
  · split at h
    · cases h
    · obtain rfl := Except.ok.inj h
      simp only [List.forall_mem_append, List.cons_append, List.append_assoc, List.forall_mem_cons]
      have digits := @isPrintable_of_mem_padded
      have fraction : ∀ c ∈ (if t.micros = 0 then [] else 0x2E :: padded 6 t.micros : Text),
          c.IsPrintable := by
        split
        · exact List.forall_mem_nil _
        · simp only [List.forall_mem_cons]
          exact ⟨by decide, fun _ => digits⟩
      exact ⟨fun _ => digits, by decide, fun _ => digits, by decide, fun _ => digits, by decide,
        fun _ => digits, by decide, fun _ => digits, by decide, fun _ => digits, fraction,
        Text.isPrintable_of_all rfl⟩

end Timestamp

end UsagePolicy
