import UsagePolicy.Graph.Printer
import UsagePolicy.Settings.Basic
import UsagePolicy.Settings.Spelled
import UsagePolicy.Text.Utf8

/-!
# Checking settings

Each setting is checked and brought to its type from a value, which may be a text that spells it.
What is wrong with a value is reported as an issue. Two flaws end all checks instead: the name of an
environment must at least be a text, and what is said about a name must be writable.
-/

namespace UsagePolicy

/-- Why a value does not name what a setting needs. -/
inductive NameFlaw
  | issue (k : IssueKind)
  /-- The value has no letters that could be made small. -/
  | noLetters (typeName : Text)
  /-- The name holds surrogates, so what is said about it cannot be written. -/
  | unencodable (run : Text.UnencodableRun)

/-- A name is rejected for a reason. -/
def NameFlaw.rejected (reason : Text) : NameFlaw :=
  match reason.surrogateRun? with
  | none => .issue (.rejected reason)
  | some run => .unencodable run

namespace Value

/-- What is said about a name that no environment has. -/
def environmentReason (given : Text) : Text :=
  ("app_env must be one of ['local', 'test', 'prod'], got '" : Text) ++ given ++ [0x27]

/-- An environment, or its name in any case. -/
def asEnvironment (g : Graph) (v : Value) : Except NameFlaw AppEnvironment :=
  match v with
  | .member (.appEnvironment e) => .ok e
  | v => match v.text? with
    | none => .error (.noLetters (g.typeName v))
    | some t => match AppEnvironment.ofName? t.lower with
      | some e => .ok e
      | none => .error (.rejected (environmentReason ((g.plain v).toOption.getD [])))

/-- A text. -/
def asText (v : Value) : Checked Text :=
  match v.text? with
  | none => .fail .notAString
  | some t => .ok t

/-- What is said about a name that no level has. -/
def levelReason (given : Text) : Text :=
  ("app_log_level must be a logging level name, got '" : Text) ++ given ++ [0x27]

/-- The name of a level. -/
def asLogLevel (v : Value) : Except NameFlaw Text :=
  match v.text? with
  | none => .error (.issue .notAString)
  | some t => match Spelled.level? t with
    | some name => .ok name
    | none => .error (.rejected (levelReason t))

/-- A text that spells something else and holds no surrogates for that. -/
def asSpelled {α : Type} (other : IssueKind) (read : Text → Checked α) (v : Value) : Checked α :=
  match v.text? with
  | none => .fail other
  | some t => if t.isScalar then read t else .fail .notUnicode

/-- The truth value of an integer. -/
def truthOfInt (i : Int) : Checked Bool :=
  if i = 0 then .ok false else if i = 1 then .ok true else .fail .unreadableBoolean

/-- The integer is one of 64 bits. -/
def isWord (i : Int) : Bool := -0x8000000000000000 ≤ i && i < 0x8000000000000000

/-- The integer is one of 64 bits but not the least, so a double may stand for it. -/
def isInnerWord (i : Int) : Bool := isWord i && i != -0x8000000000000000

/-- A truth value, a number that stands for one or a word for one. -/
def asTruth : Value → Checked Bool
  | .bool b => .ok b
  | .int i => if isWord i then truthOfInt i else .fail .notABoolean
  | .float d => match d.ratio? with
    | some (n, den) =>
      if n % den = 0 ∧ isInnerWord (n / den) then truthOfInt (n / den) else .fail .notABoolean
    | none => .fail .notABoolean
  | v => asSpelled .notABoolean Spelled.truth v

/-- An integer, a number without a fraction or a spelled integer. A double must be well within 64
bits. -/
def asInteger : Value → Checked Int
  | .int i => .ok i
  | .bool b => .ok (if b then 1 else 0)
  | .float d => match d.ratio? with
    | some (n, den) =>
      if n % den ≠ 0 then .fail .fraction
      else if isInnerWord (n / den) then .ok (n / den)
      else .fail .oversizedInteger
    | none => .fail .notFinite
  | v => asSpelled .notAnInteger Spelled.integer v

/-- A depth limit: an integer that is at least one. -/
def asMaxDepth (v : Value) : Checked Int :=
  match v.asInteger with
  | .error es => .error es
  | .ok i => if i < 1 then .fail (.below 1) else .ok i

/-- The entries of a dictionary of texts; whatever is wrong with one of them is reported. -/
def asTextEntries : List (Text × Value) → Checked (List (Text × Text))
  | [] => .ok []
  | (k, v) :: es =>
    let entry := v.asText.under (.key k.withoutSurrogates)
    (Checked.both entry (asTextEntries es)).map fun x => (k, x.1) :: x.2

/-- A dictionary from participants to identifiers. -/
def asParticipants : Value → Checked (List (Text × Text))
  | .dict es => asTextEntries es
  | _ => .fail (.notADictionary .objects)

end Value

end UsagePolicy
