import UsagePolicy.Graph.OfJson
import UsagePolicy.Json.Reader
import UsagePolicy.Settings.Check

/-!
# Loading settings

Settings come from environment variables, whose names may be in any case, and from arguments, which
win; where both give a dictionary, its entries are merged. The variable for participants holds JSON.
Whatever is not given has its default.
-/

namespace UsagePolicy

/-- Why settings cannot be loaded. -/
inductive SettingsFailure
  /-- The variable of a setting does not hold JSON. -/
  | unreadable (s : Setting)
  /-- The environment is a value without letters. -/
  | noLetters (typeName : Text)
  /-- What is said about a name holds surrogates. -/
  | unencodable (run : Text.UnencodableRun)
  | issues (es : List Issue)

namespace SettingsFailure

/-- What is said about a variable that does not hold JSON. -/
def unreadableMessage (s : Setting) : Text :=
  ("error parsing value for field \"" : Text) ++ s.key
    ++ ("\" from source \"EnvSettingsSource\"" : Text)

/-- What is said about a value without letters. -/
def noLettersMessage (typeName : Text) : Text :=
  0x27 :: typeName ++ ("' object has no attribute 'lower'" : Text)

end SettingsFailure

namespace Value

mutual

/-- The value with another one laid over it: dictionaries are merged, all else is replaced. -/
def overlay : Value → Value → Value
  | .dict es, .dict fs => .dict (overlayEntries es fs ++ fs.filter fun f => !es.any (·.1 == f.1))
  | _, v => v

/-- Entries with others laid over them, at their old places. -/
def overlayEntries : List (Text × Value) → List (Text × Value) → List (Text × Value)
  | [], _ => []
  | (k, v) :: es, fs =>
    (k, match fs.lookup k with
      | some w => overlay v w
      | none => v) :: overlayEntries es fs

end

end Value

namespace Settings

/-- The variable of a setting, the last one if its name occurs in several spellings. -/
def variableOf (environment : List (Text × Text)) (s : Setting) : Option Text :=
  (environment.reverse.find? fun v => v.1.lower = s.key).map Prod.snd

/-- What the variable for participants holds; the null of JSON counts as no variable. -/
def participantVariable (environment : List (Text × Text)) :
    Except SettingsFailure (Option Value) :=
  match variableOf environment .participants with
  | none => .ok none
  | some t => match Json.read Json.lenient t with
    | .ok .null => .ok none
    | .ok j => .ok (some (.ofJson j))
    | .error _ => .error (.unreadable .participants)

/-- What is given for a setting. -/
def given (environment : Option Value) (arguments : List (Text × Value)) (s : Setting) :
    Option Value :=
  match environment, arguments.lookup s.key with
  | e, none => e
  | none, some v => some v
  | some e, some v => some (e.overlay v)

/-- A setting that may be given; its issues are at its name. -/
def field {α : Type} (s : Setting) (initial : α) (check : Value → Checked α) (v : Option Value) :
    Checked α :=
  match v with
  | none => .ok initial
  | some v => (check v).under (.key s.key)

/-- A setting that may be given by a name, with the flaws that end all checks kept apart. -/
def nameField {α : Type} (s : Setting) (initial : α) (check : Value → Except NameFlaw α)
    (v : Option Value) : Except SettingsFailure (Checked α) :=
  match v with
  | none => .ok (.ok initial)
  | some v => match check v with
    | .ok a => .ok (.ok a)
    | .error (.issue k) => .ok (.error [⟨k, [.key s.key]⟩])
    | .error (.noLetters t) => .error (.noLetters t)
    | .error (.unencodable run) => .error (.unencodable run)

/-- The settings out of what is given for each of them. -/
def check (g : Graph) (v : Setting → Option Value) : Except SettingsFailure Settings := do
  let d := Settings.default
  let environment ← nameField .environment d.environment (Value.asEnvironment g) (v .environment)
  let logLevel ← nameField .logLevel d.logLevel Value.asLogLevel (v .logLevel)
  let fields := Checked.both environment
    (Checked.both (field .name d.name Value.asText (v .name))
      (Checked.both logLevel
        (Checked.both (field .structuredLogs d.structuredLogs Value.asTruth (v .structuredLogs))
          (Checked.both (field .maxDepth d.maxDepth Value.asMaxDepth (v .maxDepth))
            (field .participants d.participants Value.asParticipants (v .participants))))))
  match fields with
  | .ok (e, n, l, s, m, p) => .ok ⟨e, n, l, s, m, p⟩
  | .error es => .error (.issues es)

/-- The settings of an environment and arguments, whose values stand in a graph. -/
def load (g : Graph) (environment : List (Text × Text)) (arguments : List (Text × Value)) :
    Except SettingsFailure Settings :=
  match participantVariable environment with
  | .error e => .error e
  | .ok participants =>
    check g fun s => match s with
      | .participants => given participants arguments s
      | s => given ((variableOf environment s).map .text) arguments s

end Settings

end UsagePolicy
