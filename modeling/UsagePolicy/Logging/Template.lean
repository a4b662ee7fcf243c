import UsagePolicy.Logging.Conversion

/-!
# Message templates

A message is a template whose conversions are filled with arguments from left to right. Arguments
come one after the other, or by their keys from one dictionary; all that come one after the other
must be used. A template without arguments is a message as it stands.
-/

namespace UsagePolicy

/-- The arguments that are still to be used. -/
structure Arguments where
  /-- The entries that keys are looked up in. -/
  entries : Option (List (Text × Value))
  /-- The next arguments. -/
  pending : List Value

namespace Arguments

/-- The arguments of a record: a single dictionary gives its entries by their keys. -/
def ofList : List Value → Arguments
  | [.dict (e :: es)] => ⟨some (e :: es), [.dict (e :: es)]⟩
  | vs => ⟨none, vs⟩

/-- The next argument. -/
def next (a : Arguments) : Except TemplateFlaw (Value × Arguments) :=
  match a.pending with
  | [] => .error .tooFewArguments
  | v :: vs => .ok (v, { a with pending := vs })

/-- The arguments after a conversion has named a key. -/
def atKey (a : Arguments) : ConversionKey → Except TemplateFlaw Arguments
  | .none => .ok a
  | k => match a.entries with
    | none => .error .needsDictionary
    | some es => match k with
      | .key k => match es.lookup k with
        | some v => .ok ⟨a.entries, [v]⟩
        | none => .error (.missingKey k)
      | _ => .error .unclosedKey

/-- A size that is an argument. -/
def size (a : Arguments) (greatest : Nat) (overflow : TemplateFlaw) :
    Except TemplateFlaw (Int × Arguments) :=
  match a.next with
  | .error e => .error e
  | .ok (v, a) =>
    let checked (i : Int) : Except TemplateFlaw (Int × Arguments) :=
      if i < -(greatest + 1 : Nat) ∨ (greatest : Int) < i then .error overflow else .ok (i, a)
    match v with
    | .int i => checked i
    | .bool b => checked (if b then 1 else 0)
    | _ => .error .sizeNotInteger

/-- The width of a conversion, negative if it asks for left alignment. -/
def width (a : Arguments) : Size → Except TemplateFlaw (Int × Arguments)
  | .none => .ok (0, a)
  | .digits n => .ok (n, a)
  | .tooBig => .error .widthTooBig
  | .argument => a.size Conversion.greatestWidth .widthOverflow

/-- The precision of a conversion. -/
def precision (a : Arguments) : Size → Except TemplateFlaw (Option Nat × Arguments)
  | .none => .ok (none, a)
  | .digits n => .ok (some n, a)
  | .tooBig => .error .precisionTooBig
  | .argument => match a.size Conversion.greatestPrecision .precisionOverflow with
    | .ok (i, a) => .ok (some i.toNat, a)
    | .error e => .error e

/-- Every argument that must be used is used. -/
def isUsedUp (a : Arguments) : Bool := a.entries.isSome || a.pending.isEmpty

end Arguments

namespace Conversion

/-- The text of a conversion whose letter stands at `position`, and the arguments left. -/
def fill (c : Conversion) (position : Nat) (a : Arguments) :
    Except TemplateFlaw (Text × Arguments) := do
  let a ← a.atKey c.key
  let (width, a) ← a.width c.width
  let (precision, a) ← a.precision c.precision
  match c.letter with
  | none => .error .incomplete
  | some letter =>
    let (v, a) ← a.next
    let b ← body c.flags precision letter position v
    .ok (b.pad (c.flags.leftAligned || width < 0) width.natAbs, a)

theorem readFlags_length (f : ConversionFlags) (t : Text) :
    (readFlags f t).2.length ≤ t.length := by
  fun_induction readFlags f t <;> simp_all <;> omega

theorem readKey_length (read : Text) (depth : Nat) (t : Text) :
    (readKey read depth t).2.length ≤ t.length := by
  fun_induction readKey read depth t <;> simp_all <;> omega

theorem readSize_length (greatest : Nat) (m : Size) (t : Text) :
    (readSize greatest m t).2.length ≤ t.length := by
  fun_cases readSize greatest m t <;> simp_all
  exact List.IsSuffix.length_le (List.dropWhile_suffix _)

theorem readModifier_length (t : Text) : (readModifier t).length ≤ t.length := by
  fun_cases readModifier t <;> simp

theorem readPrecision_length (t : Text) : (readPrecision t).2.length ≤ t.length := by
  fun_cases readPrecision t
  · exact Nat.le_succ_of_le (readSize_length _ _ _)
  · exact Nat.le_refl _

theorem readKey?_length (t : Text) : (readKey? t).2.length ≤ t.length := by
  fun_cases readKey? t
  · exact Nat.le_succ_of_le (readKey_length _ _ _)
  · exact Nat.le_refl _

theorem read_length (t : Text) : (read t).2.length ≤ t.length := by
  simp only [read, List.length_tail]
  have h₁ := readKey?_length t
  have h₂ := readFlags_length noFlags (readKey? t).2
  have h₃ := readSize_length greatestWidth .none (readFlags noFlags (readKey? t).2).2
  have h₄ := readPrecision_length
    (readSize greatestWidth .none (readFlags noFlags (readKey? t).2).2).2
  have h₅ := readModifier_length (readPrecision
    (readSize greatestWidth .none (readFlags noFlags (readKey? t).2).2).2).2
  omega

end Conversion

namespace Template

/-- The rest of a template from `position` on, filled with the arguments that are left. A percent
sign written twice stands for itself. -/
def fillFrom (a : Arguments) (position : Nat) (t : Text) : Except TemplateFlaw Text :=
  match t with
  | [] => if a.isUsedUp then .ok [] else .error .tooManyArguments
  | 0x25 :: 0x25 :: t => (fillFrom a (position + 2) t).map (0x25 :: ·)
  | 0x25 :: t =>
    have : (Conversion.read t).2.length ≤ t.length := Conversion.read_length t
    let length := t.length - (Conversion.read t).2.length
    match (Conversion.read t).1.fill (position + length) a with
    | .error e => .error e
    | .ok (piece, a) =>
      (fillFrom a (position + 1 + length) (Conversion.read t).2).map (piece ++ ·)
  | c :: t => (fillFrom a (position + 1) t).map (c :: ·)
termination_by t.length

/-- The message of a template and its arguments. -/
def fill (template : Text) (arguments : List Value) : Except TemplateFlaw Text :=
  if arguments.isEmpty then .ok template else fillFrom (.ofList arguments) 0 template

end Template

end UsagePolicy
