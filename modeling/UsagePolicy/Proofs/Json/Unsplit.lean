import Mathlib.Data.List.Chain
import UsagePolicy.Proofs.Json.FingerprintBytes

/-!
# Reading strings with single surrogates

A reader that allows half of a surrogate pair to stand alone cannot know whether two halves, one
after the other and each written as an escape, were one code point or two. It takes them for one.
So it gives back the texts in which no first half stands right before a second half, and while it
reads such a text the half that waits is always the last code point so far.
-/

namespace UsagePolicy

/-- No first half of a surrogate pair stands right before a second half. -/
def Text.Unsplit (t : Text) : Prop :=
  t.IsChain fun a b => a.isHighSurrogate = true → b.isLowSurrogate = false

instance (t : Text) : Decidable t.Unsplit := by
  unfold Text.Unsplit
  infer_instance

/-- A text without surrogates has no pair that could be joined. -/
theorem Text.unsplit_of_isScalar {t : Text} (h : t.isScalar = true) : t.Unsplit := by
  induction t with
  | nil => exact .nil
  | cons c t ih =>
    obtain ⟨here, rest⟩ : c.isSurrogate = false ∧ Text.isScalar t = true := by simpa using h
    refine List.isChain_cons.mpr ⟨fun b _ high => ?_, ih rest⟩
    rw [(CodePoint.not_isSurrogate_iff.mp here).1] at high
    cases high

theorem Text.unsplit_of_isPrintable {t : Text} (h : ∀ c ∈ t, c.IsPrintable) : t.Unsplit :=
  unsplit_of_isScalar (isScalar_of_isPrintable h)

namespace Json

/-- What has been read if nothing joins the half that waits. -/
def Scanned.settled (s : Scanned) : Text := s.high.toList ++ s.points

/-- The half that waits, if there is one, is a first half and not joined by what comes next. -/
def Scanned.Fits (s : Scanned) (t : Text) : Prop :=
  ∀ h ∈ s.high, ∀ c ∈ t.head?, c.isLowSurrogate = false

variable {d : Dialect} {start r t : Text} {s s' : Scanned} {c : CodePoint}

theorem settle?_of_lone (lone : d.loneSurrogates = true) : s.settle? d = some s.settled := by
  unfold Scanned.settle? Scanned.settled
  split
  · next none => rw [none]; rfl
  · next high => rw [high, if_pos lone]; rfl

theorem push?_of_lone (lone : d.loneSurrogates = true) :
    s.push? d c = some ⟨c :: s.settled, none⟩ := by
  rw [Scanned.push?, settle?_of_lone lone]
  rfl

theorem pushEscaped?_of_lone (lone : d.loneSurrogates = true) (fits : s.Fits [c]) :
    s.pushEscaped? d c =
      some (if c.isHighSurrogate then ⟨s.settled, some c⟩ else ⟨c :: s.settled, none⟩) := by
  unfold Scanned.pushEscaped? Scanned.settled
  split
  · next h high =>
    have notLow := fits h high c rfl
    simp only [notLow, lone, high, Bool.false_eq_true, if_false, Bool.not_true]
    split <;> rfl
  · next none =>
    simp only [none, lone, Bool.not_true, Bool.and_false, Bool.false_eq_true, if_false]
    split <;> rfl

/-- One code point that is written is read, perhaps as a half that waits, unless it is the second
half that the one before it waits for. -/
theorem scanText_escape_of_lone (asciiOnly : Bool) (lone : d.loneSurrogates = true)
    (fits : s.Fits [c]) (hr : r ≠ []) :
    ∃ s' : Scanned, scanText d start s (escape asciiOnly c ++ r) = scanText d start s' r ∧
      s'.settled = c :: s.settled ∧ ∀ h ∈ s'.high, h = c ∧ c.isHighSurrogate = true := by
  rcases escape_cases asciiOnly c with ⟨e, letter, hu, h⟩ | h | ⟨quote, backslash, control, h⟩
  · refine ⟨⟨c :: s.settled, none⟩, ?_, rfl, nofun⟩
    rw [h]
    exact scanText_letter letter hu (push?_of_lone lone)
  · have waits : ∀ h : CodePoint, h.isHighSurrogate = true → s.pushEscaped? d h =
        some ⟨s.settled, some h⟩ := by
      intro h high
      have notLow : h.isLowSurrogate = false := by
        simp only [CodePoint.isHighSurrogate, CodePoint.isLowSurrogate, Bool.and_eq_true,
          Bool.and_eq_false_iff, decide_eq_true_eq, decide_eq_false_iff_not] at high ⊢
        omega
      rw [pushEscaped?_of_lone lone fun _ _ _ eq => by cases eq; exact notLow, if_pos high]
    rw [h]
    by_cases high : c.isHighSurrogate = true
    · have small : c.val < 0x10000 := by
        simp only [CodePoint.isHighSurrogate, Bool.and_eq_true, decide_eq_true_eq] at high
        omega
      refine ⟨⟨s.settled, some c⟩, ?_, rfl, fun _ eq => ⟨(Option.some.inj eq).symm, high⟩⟩
      exact scanText_unicodeEscape (fun _ => waits c high)
        (fun large => absurd large (Nat.not_le.mpr small)) hr
    · refine ⟨⟨c :: s.settled, none⟩, ?_, rfl, nofun⟩
      refine scanText_unicodeEscape (fun _ => ?_) (fun _ => ⟨_, rfl, waits⟩) hr
      rw [pushEscaped?_of_lone lone fits, if_neg high]
  · refine ⟨⟨c :: s.settled, none⟩, ?_, rfl, nofun⟩
    rw [h]
    exact scanText_plain quote backslash control (push?_of_lone lone)

/-- A text without a split pair is read up to the quote at its end, after whatever its first code
point does not join. -/
theorem scanText_escapes_of_lone (asciiOnly : Bool) (lone : d.loneSurrogates = true)
    (fits : s.Fits t) (unsplit : t.Unsplit) :
    scanText d start s (t.flatMap (escape asciiOnly) ++ 0x22 :: r) =
      (.text (s.settled.reverse ++ t), r) := by
  induction t generalizing s with
  | nil =>
    rw [List.flatMap_nil, List.nil_append, scanText, settle?_of_lone lone, List.append_nil]
  | cons c t ih =>
    obtain ⟨next, rest⟩ := List.isChain_cons.mp unsplit
    obtain ⟨s', read, settled, waiting⟩ :=
      @scanText_escape_of_lone d start (t.flatMap (escape asciiOnly) ++ 0x22 :: r) s c asciiOnly
        lone fits (by simp)
    have further : s'.Fits t := by
      intro h member b isNext
      obtain ⟨-, high⟩ := waiting h member
      exact next b isNext high
    rw [List.flatMap_cons, List.append_assoc, read, ih further rest, settled, List.reverse_cons,
      List.append_assoc, List.singleton_append]

theorem legible_unsplit (asciiOnly : Bool) (lone : d.loneSurrogates = true) :
    Legible d asciiOnly Text.Unsplit := by
  intro t unsplit r
  apply tokens_writeText_of_scanned
  intro start
  exact scanText_escapes_of_lone asciiOnly lone nofun unsplit

end Json

end UsagePolicy
