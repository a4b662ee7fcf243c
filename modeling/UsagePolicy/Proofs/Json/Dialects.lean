import UsagePolicy.Json.Reader

/-!
# The two readers of JSON

The strict reader reads what the lenient one reads, and gives the same value, unless it stops at one
of three things that only it looks at: an escape for half a surrogate pair, a container too deep
inside others, and too many digits before the fraction of a number.
-/

namespace UsagePolicy

namespace Json

/-- The strict reader may find the flaw where the lenient one finds none. -/
def Flaw.IsStrict : Flaw → Prop
  | .surrogate | .nesting | .digits _ => True
  | _ => False

/-- The strict reader comes to the same, or it stops at a flaw of its own. -/
def SameOrStricter {α : Type} (x y : Except FlawAt α) : Prop :=
  x = y ∨ ∃ e, x = .error e ∧ e.flaw.IsStrict

/-! ## Strings -/

namespace Scanned

variable {s s' : Scanned} {c u : CodePoint}

theorem settle?_lenient {ps : Text} (h : s.settle? strict = some ps) :
    s.settle? lenient = some ps := by
  unfold settle? at *
  cases high : s.high with
  | none => simpa [high] using h
  | some _ => simp [high, strict] at h

theorem push?_lenient (h : s.push? strict c = some s') : s.push? lenient c = some s' := by
  unfold push? at *
  obtain ⟨ps, settled, rfl⟩ := Option.map_eq_some_iff.mp h
  rw [settle?_lenient settled]
  rfl

theorem pushEscaped?_lenient (h : s.pushEscaped? strict u = some s') :
    s.pushEscaped? lenient u = some s' := by
  unfold pushEscaped? at *
  cases high : s.high with
  | some first =>
    by_cases low : u.isLowSurrogate
    · simpa [high, low] using h
    · simp [high, low, strict] at h
  | none =>
    by_cases first : u.isHighSurrogate
    · simpa [high, first] using h
    · by_cases low : u.isLowSurrogate
      · simp [high, first, low, strict] at h
      · simpa [high, first, low] using h

end Scanned

theorem scanText_strict (start : Text) (s : Scanned) (t : Text) :
    scanText strict start s t = scanText lenient start s t ∨
      scanText strict start s t = (.broken ⟨.surrogate, start⟩, []) := by
  fun_induction scanText strict start s t with
  | case1 => exact .inl rfl
  | case2 s r ps settled =>
    left
    rw [scanText, Scanned.settle?_lenient settled]
  | case3 => exact .inr rfl
  | case5 s a b c e r u point s' pushed ih =>
    rw [scanText, point]
    dsimp only
    rw [Scanned.pushEscaped?_lenient pushed]
    exact ih
  | case4 s a b c e r point =>
    left
    rw [scanText, point]
  | case6 => exact .inr rfl
  | case7 s r short =>
    left
    rw [scanText]
    exact short
  | case8 s c r _ notU escape =>
    left
    rw [scanText, escape]
    all_goals simp_all
  | case9 s c r _ notU u escape s' pushed ih =>
    rw [scanText, escape]
    · dsimp only
      rw [Scanned.push?_lenient pushed]
      exact ih
    all_goals simp_all
  | case10 => exact .inr rfl
  | case11 s =>
    left
    rw [scanText]
  | case12 s c r h1 h2 h3 h4 h5 control =>
    left
    rw [scanText, if_pos control]
    all_goals simp_all
  | case13 s c r h1 h2 h3 h4 h5 printed s' pushed ih =>
    rw [scanText, if_neg printed]
    · rw [Scanned.push?_lenient pushed]
      exact ih
    all_goals simp_all
  | case14 => exact .inr rfl

/-- A string is a text or it is broken. -/
theorem scanText_cases (d : Dialect) (start : Text) (s : Scanned) (t : Text) :
    (∃ u, (scanText d start s t).1 = .text u) ∨ ∃ e, (scanText d start s t).1 = .broken e := by
  fun_induction scanText d start s t with
  | case2 s r ps => exact .inl ⟨_, rfl⟩
  | case5 _ _ _ _ _ _ _ _ _ _ ih => exact ih
  | case9 _ _ _ _ _ _ _ _ _ ih => exact ih
  | case13 _ _ _ _ _ _ _ _ _ _ _ ih => exact ih
  | _ => exact .inr ⟨_, rfl⟩

/-! ## Tokens -/

/-- The strict reader rejects a token that the lenient one reads, or rejects for another reason. -/
inductive Lexeme.Rejected : Lexeme → Lexeme → Prop
  | text {place : Text} {e : FlawAt} {t : Text} : place.head? = some 0x22 → e.flaw.IsStrict →
    Rejected ⟨.broken e, place⟩ ⟨.text t, place⟩
  | broken {place : Text} {e e' : FlawAt} : place.head? = some 0x22 → e.flaw.IsStrict →
    Rejected ⟨.broken e, place⟩ ⟨.broken e', place⟩
  | number {place : Text} {e : FlawAt} {v : Json} : place.head? ≠ some 0x22 → e.flaw.IsStrict →
    Rejected ⟨.broken e, place⟩ ⟨.scalar v, place⟩

/-- Tokens of both readers, which are the same up to one that the strict reader rejects. -/
inductive TokensAlike : List Lexeme → List Lexeme → Prop
  | nil : TokensAlike [] []
  | cons {ls ls' : List Lexeme} (l : Lexeme) : TokensAlike ls ls' →
    TokensAlike (l :: ls) (l :: ls')
  | rejected {l l' : Lexeme} (ls ls' : List Lexeme) : l.Rejected l' →
    TokensAlike (l :: ls) (l' :: ls')

theorem numberToken_strict (place : Text) (n : Numeral) :
    numberToken strict place n = numberToken lenient place n ∨
      numberToken strict place n = .broken ⟨.digits n.whole.length, place⟩ ∧
        ∃ v, numberToken lenient place n = .scalar v := by
  unfold numberToken
  by_cases long : digitLimit < n.whole.length
  · by_cases whole : n.isInteger
    · exact .inl (by simp [long, whole])
    · exact .inr (by simp [long, whole, strict, lenient])
  · exact .inl (by simp [long])

theorem nextToken_strict (c : CodePoint) (r : Text) :
    nextToken strict c r = nextToken lenient c r ∨
      Lexeme.Rejected ⟨(nextToken strict c r).1, c :: r⟩ ⟨(nextToken lenient c r).1, c :: r⟩ := by
  unfold nextToken
  split
  case h_7 =>
    rcases scanText_strict (0x22 :: r) .empty r with same | rejected
    · exact .inl same
    · right
      rw [rejected]
      rcases scanText_cases lenient (0x22 :: r) .empty r with ⟨t, read⟩ | ⟨e, read⟩
      · rw [read]
        exact .text rfl trivial
      · rw [read]
        exact .broken rfl trivial
  case h_8 quote =>
    cases word? (c :: r) with
    | some w => exact .inl rfl
    | none =>
      cases Numeral.scan? (c :: r) with
      | none => exact .inl rfl
      | some scanned =>
        obtain ⟨n, r'⟩ := scanned
        dsimp only
        rcases numberToken_strict (c :: r) n with same | ⟨rejected, v, read⟩
        · rw [same]
          exact .inl rfl
        · rw [rejected, read]
          exact .inr (.number (by simpa using quote) trivial)
  all_goals exact .inl rfl

theorem tokens_alike (t : Text) : TokensAlike (tokens strict t) (tokens lenient t) := by
  fun_induction tokens strict t with
  | case1 =>
    rw [tokens]
    exact .nil
  | case2 c r space ih =>
    rw [tokens, if_pos space]
    exact ih
  | case3 c r nonblank ih =>
    rw [tokens.eq_2 lenient, if_neg nonblank]
    rcases nextToken_strict c r with same | rejected
    · rw [same] at ih ⊢
      exact .cons _ ih
    · exact .rejected _ _ rejected

/-! ## Steps -/

namespace Progress

/-- A step with the same token ends alike, or the strict reader finds a container too deep. -/
theorem step_strict (p : Progress) (l : Lexeme) :
    SameOrStricter (p.step strict l) (p.step lenient l) := by
  have admits : ∀ stack, lenient.admits stack = true := fun _ => rfl
  cases p with
  | arrayStart stack =>
    unfold step
    dsimp only
    split
    · exact .inl rfl
    · rw [if_pos (admits stack)]
      by_cases fits : strict.admits stack
      · exact .inl (if_pos fits)
      · exact .inr ⟨_, if_neg fits, trivial⟩
  | objectStart stack =>
    unfold step
    dsimp only
    split
    · exact .inl rfl
    · rw [if_pos (admits stack)]
      by_cases fits : strict.admits stack
      · exact .inl (if_pos fits)
      · exact .inr ⟨_, if_neg fits, trivial⟩
  | after v stack => rcases stack with _ | ⟨_ | _, _⟩ <;> exact .inl rfl
  | _ => exact .inl rfl

variable {l l' : Lexeme}

theorem startValue_rejected (h : l.Rejected l') (stack : List Frame) :
    ∃ e, startValue stack l = .error e ∧ e.flaw.IsStrict := by
  cases h with
  | text _ flaw => exact ⟨_, rfl, flaw⟩
  | broken _ flaw => exact ⟨_, rfl, flaw⟩
  | number _ flaw => exact ⟨_, rfl, flaw⟩

theorem startKey_rejected (h : l.Rejected l') (members : Members) (stack : List Frame) :
    ∃ e, startKey members stack l = .error e ∧
      (startKey members stack l' = .error e ∨ e.flaw.IsStrict) := by
  cases h with
  | text quote flaw => exact ⟨_, if_pos quote, .inr flaw⟩
  | broken quote flaw => exact ⟨_, if_pos quote, .inr flaw⟩
  | number quote _ => exact ⟨_, if_neg quote, .inl rfl⟩

/-- Neither reader gets past a token that the strict one rejects where it stops at another flaw. -/
theorem step_rejected (p : Progress) (h : l.Rejected l') :
    ∃ e, p.step strict l = .error e ∧ (p.step lenient l' = .error e ∨ e.flaw.IsStrict) := by
  cases p with
  | value stack =>
    obtain ⟨e, stopped, flaw⟩ := startValue_rejected h stack
    exact ⟨e, stopped, .inr flaw⟩
  | arrayStart stack =>
    obtain ⟨e, stopped, flaw⟩ := startValue_rejected h (.array [] :: stack)
    have notClosed : (arrayStart stack).step strict l = if strict.admits stack then
        startValue (.array [] :: stack) l else .error ⟨.nesting, l.place⟩ := by
      cases h <;> rfl
    rw [notClosed]
    by_cases fits : strict.admits stack
    · rw [if_pos fits]
      exact ⟨e, stopped, .inr flaw⟩
    · rw [if_neg fits]
      exact ⟨_, rfl, .inr trivial⟩
  | objectStart stack =>
    have started := startKey_rejected h [] stack
    have notClosed : (objectStart stack).step strict l = if strict.admits stack then
        startKey [] stack l else .error ⟨.nesting, l.place⟩ := by
      cases h <;> rfl
    have lenient : (objectStart stack).step lenient l' = startKey [] stack l' := by
      cases h <;> rfl
    rw [notClosed, lenient]
    by_cases fits : strict.admits stack
    · rw [if_pos fits]
      exact started
    · rw [if_neg fits]
      exact ⟨_, rfl, .inr trivial⟩
  | key members stack => exact startKey_rejected h members stack
  | colon members k stack => cases h <;> exact ⟨_, rfl, .inl rfl⟩
  | after v stack => cases h <;> rcases stack with _ | ⟨_ | _, _⟩ <;> exact ⟨_, rfl, .inl rfl⟩

theorem run_strict {ls ls' : List Lexeme} (h : TokensAlike ls ls') (p : Progress) :
    SameOrStricter (run strict p ls) (run lenient p ls') := by
  induction h generalizing p with
  | nil => exact .inl rfl
  | cons l _ ih =>
    rw [run, run]
    rcases step_strict p l with same | ⟨e, stopped, flaw⟩
    · rw [same]
      split
      · exact ih _
      · exact .inl rfl
    · rw [stopped]
      exact .inr ⟨e, rfl, flaw⟩
  | rejected ls ls' h =>
    obtain ⟨e, stopped, same | flaw⟩ := step_rejected p h
    · rw [run, run, stopped, same]
      exact .inl rfl
    · rw [run, stopped]
      exact .inr ⟨e, rfl, flaw⟩

end Progress

/-- A text has the same value for both readers, or the same flaw, unless the strict one stops at a
flaw of its own. -/
theorem read_strict (t : Text) : SameOrStricter (read strict t) (read lenient t) := by
  unfold read
  split
  · exact .inl rfl
  · exact Progress.run_strict (tokens_alike t) (.value [])

end Json

end UsagePolicy
