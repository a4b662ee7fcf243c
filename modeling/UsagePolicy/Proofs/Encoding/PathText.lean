import UsagePolicy.Proofs.Encoding.Position
import UsagePolicy.Proofs.Text.Decimal

/-!
# The text of a path

Every step is written as a full stop, a name and perhaps an index between brackets, and neither a
name nor an index holds a full stop or a bracket. So the text of a path can be cut into its steps
again, and different paths are written differently.
-/

namespace UsagePolicy

namespace Text

/-- What stands before the first mark is found in a text that goes on with the mark or ends. -/
theorem takeWhile_append_of_not_mem {mark : CodePoint} {body rest : Text} (h : mark ∉ body)
    (hr : rest = [] ∨ ∃ t, rest = mark :: t) : (body ++ rest).takeWhile (· ≠ mark) = body := by
  rw [List.takeWhile_append_of_pos]
  · rcases hr with rfl | ⟨t, rfl⟩ <;> simp
  · intro c hc
    simpa using fun same : c = mark => h (same ▸ hc)

theorem append_inj_of_not_mem {mark : CodePoint} {a b s t : Text} (ha : mark ∉ a) (hb : mark ∉ b)
    (hs : s = [] ∨ ∃ u, s = mark :: u) (ht : t = [] ∨ ∃ u, t = mark :: u) (h : a ++ s = b ++ t) :
    a = b ∧ s = t := by
  have heads : a = b := by
    rw [← takeWhile_append_of_not_mem ha hs, h, takeWhile_append_of_not_mem hb ht]
  subst heads
  exact ⟨rfl, List.append_cancel_left h⟩

/-- Pieces that begin with a mark and hold it nowhere else can be told apart in a row of them. -/
theorem flatMap_injective_of_mark {α : Type} {f : α → Text} (mark : CodePoint) (tail : α → Text)
    (hf : ∀ a, f a = mark :: tail a) (hm : ∀ a, mark ∉ tail a) (inj : Function.Injective tail) :
    Function.Injective fun as : List α => as.flatMap f := by
  have starts : ∀ as : List α, as.flatMap f = [] ∨ ∃ t, as.flatMap f = mark :: t := by
    intro as
    cases as with
    | nil => exact .inl rfl
    | cons a as => exact .inr ⟨tail a ++ as.flatMap f, by simp [hf]⟩
  intro as bs h
  dsimp only at h
  induction as generalizing bs with
  | nil =>
    cases bs with
    | nil => rfl
    | cons b bs => simp [hf] at h
  | cons a as ih =>
    cases bs with
    | nil => simp [hf] at h
    | cons b bs =>
      simp only [List.flatMap_cons, hf, List.cons_append, List.cons.injEq, true_and] at h
      obtain ⟨same, rest⟩ := append_inj_of_not_mem (hm a) (hm b) (starts as) (starts bs) h
      rw [inj same, ih rest]

end Text

namespace PathStep

/-- The name of a step, which is written after the full stop. -/
def name : PathStep → Text
  | .type => "type"
  | .assignee => "assignee"
  | .assigner => "assigner"
  | .permission _ => "permission"
  | .prohibition _ => "prohibition"
  | .obligation _ => "obligation"
  | .action => "action"
  | .refinement => "refinement"
  | .constraint _ => "constraint"
  | .duty _ => "duty"
  | .consequence => "consequence"
  | .member k _ => k.term
  | .leftOperand => "leftOperand"
  | .operator => "operator"
  | .rightOperand => "rightOperand"

/-- The steps without an index, under their names. -/
def singles : List (Text × PathStep) :=
  [("type", .type), ("assignee", .assignee), ("assigner", .assigner), ("action", .action),
    ("refinement", .refinement), ("consequence", .consequence), ("leftOperand", .leftOperand),
    ("operator", .operator), ("rightOperand", .rightOperand)]

/-- The steps with an index, under their names. -/
def indexedSteps (i : Nat) : List (Text × PathStep) :=
  [("permission", .permission i), ("prohibition", .prohibition i), ("obligation", .obligation i),
    ("constraint", .constraint i), ("duty", .duty i), ("and", .member .and i),
    ("or", .member .or i), ("xone", .member .xone i)]

/-- The step of a name and an index. -/
def ofName? (name : Text) : Option Nat → Option PathStep
  | none => singles.lookup name
  | some i => (indexedSteps i).lookup name

theorem ofName?_name (s : PathStep) : ofName? s.name s.index? = some s := by
  cases s with
  | member k i => cases k <;> rfl
  | _ => rfl

/-- What is written after the name of a step. -/
def bracketed : Option Nat → Text
  | none => []
  | some i => 0x5B :: Text.decimal i ++ [0x5D]

theorem bracketed_injective : Function.Injective bracketed := by
  intro i j h
  cases i <;> cases j <;> simp [bracketed] at h
  · rfl
  · rw [Text.decimal_injective h]

theorem text_eq (s : PathStep) : s.text = 0x2E :: (s.name ++ bracketed s.index?) := by
  cases s with
  | member k i => simp [text, indexed, name, index?, bracketed]
  | _ => rfl

/-- The names are free of the marks that steps are cut at. -/
theorem not_mem_name (s : PathStep) : 0x2E ∉ s.name ∧ 0x5B ∉ s.name := by
  cases s with
  | member k i =>
    simp only [name]
    cases k <;> decide
  | _ =>
    simp only [name]
    decide

theorem tail_injective : Function.Injective fun s : PathStep => s.name ++ bracketed s.index? := by
  have starts : ∀ i, bracketed i = [] ∨ ∃ t, bracketed i = 0x5B :: t := by
    intro i
    cases i with
    | none => exact .inl rfl
    | some i => exact .inr ⟨_, rfl⟩
  intro s s' h
  obtain ⟨names, indices⟩ := Text.append_inj_of_not_mem (not_mem_name s).2 (not_mem_name s').2
    (starts s.index?) (starts s'.index?) h
  have same := ofName?_name s
  rw [names, bracketed_injective indices, ofName?_name] at same
  exact (Option.some.inj same).symm

theorem not_mem_tail (s : PathStep) : (0x2E : CodePoint) ∉ s.name ++ bracketed s.index? := by
  intro member
  rcases List.mem_append.mp member with member | member
  · exact (not_mem_name s).1 member
  · cases hi : s.index? with
    | none => simp [hi, bracketed] at member
    | some i =>
      have digits : (0x2E : CodePoint) ∉ Text.decimal i := Text.not_mem_decimal rfl
      simp only [hi, bracketed, List.cons_append, List.mem_cons, List.mem_append,
        List.not_mem_nil, or_false] at member
      rcases member with h | h | h
      · exact absurd h (by decide)
      · exact digits h
      · exact absurd h (by decide)

end PathStep

namespace Path

/-- The steps of a path can be read off its text. -/
theorem text_inj {root : Text} {ss ts : List PathStep}
    (h : (⟨root, ss⟩ : Path).text = (⟨root, ts⟩ : Path).text) : ss = ts :=
  Text.flatMap_injective_of_mark 0x2E _ PathStep.text_eq PathStep.not_mem_tail
    PathStep.tail_injective (List.append_cancel_left h)

end Path

namespace EncodingError

/-- The path in the details of the error is that of the steps from the policy. -/
def Locates (e : EncodingError) (ss : List PathStep) : Prop :=
  Json.get? e.details "path" = some (.text (⟨Path.policy.root, ss⟩ : Path).text)

theorem Locates.unique {e : EncodingError} {ss ts : List PathStep} (hs : e.Locates ss)
    (ht : e.Locates ts) : ts = ss := by
  have same := ht.symm.trans hs
  simp only [Option.some.injEq, Json.text.injEq] at same
  exact Path.text_inj same

end EncodingError

end UsagePolicy
