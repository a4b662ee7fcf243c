import UsagePolicy.Proofs.CommandLine.Names
import UsagePolicy.Proofs.Json.Dialects
import UsagePolicy.Settings.Load

/-!
# The two sources of a participant map

A participant map is given as a file or as a variable of the environment. Files are read by the
strict reader and variables by the lenient one. A file is accepted with a map exactly if a variable
with the same text is, unless the text is one that only the variable may hold: the null of JSON,
which counts as no map, or what the strict reader stops at on its own.
-/

namespace UsagePolicy

/-- The settings of a process for which nothing but a participant map is given. -/
def Settings.withMap (m : List (Text × Text)) : Settings :=
  { Settings.default with participants := m }

namespace ParticipantMap

/-- The name of the variable for participants. -/
def variableName : Text := "PARTICIPANT_IRI_MAP"

/-- The text is no map for a file, whatever it is for a variable. -/
inductive ForVariablesOnly (t : Text) : Prop
  | null : Json.read Json.lenient t = .ok .null → ForVariablesOnly t
  | notUnicode : t.isScalar = false → ForVariablesOnly t
  | strict {e : Json.FlawAt} : Json.read Json.strict t = .error e → e.flaw.IsStrict →
    ForVariablesOnly t

/-! ## Checking entries -/

open Checked (both_eq_ok map_eq_ok under_eq_ok)

variable {ms : Json.Members} {m : List (Text × Text)} {j : Json} {t k : Text}

/-- An entry is accepted together with those after it. -/
theorem entry_eq_ok {entry : Checked Text} {rest : Checked (List (Text × Text))} {s : PlaceStep} :
    ((Checked.both (entry.under s) rest).map fun x => (k, x.1) :: x.2) = .ok m ↔
      ∃ u m', entry = .ok u ∧ rest = .ok m' ∧ (k, u) :: m' = m := by
  rw [map_eq_ok]
  simp only [Prod.exists, both_eq_ok, under_eq_ok, and_assoc]

/-- Entries are accepted alike when they are read and when they are values already. -/
theorem asTextEntries_eq_ok :
    Value.asTextEntries (Value.ofJsonMembers ms) = .ok m ↔ texts ms = .ok m := by
  induction ms generalizing m with
  | nil => exact Iff.rfl
  | cons e ms ih =>
    obtain ⟨k, v⟩ := e
    rw [Value.ofJsonMembers, Value.asTextEntries, entry_eq_ok]
    cases v with
    | text u =>
      rw [texts, entry_eq_ok]
      simp only [ih]
      exact Iff.rfl
    | _ =>
      rw [texts, entry_eq_ok]
      · simp only [ih]
        exact Iff.rfl
      · exact fun _ => nofun

/-- A JSON value is accepted as a map alike when it is read and when it is a value already. -/
theorem asParticipants_eq_ok : Value.asParticipants (.ofJson j) = .ok m ↔ ofJson j = .ok m := by
  cases j with
  | object ms => exact asTextEntries_eq_ok
  | _ => exact iff_of_false (Checked.fail_ne_ok _ _) (Checked.fail_ne_ok _ _)

theorem ofText_eq_ok : ofText t = .ok m ↔
    t.isScalar = true ∧ ∃ j, Json.read Json.strict t = .ok j ∧ ofJson j = .ok m := by
  unfold ofText Payload.parse
  by_cases scalar : t.isScalar
  · rw [if_pos scalar]
    cases h : Json.read Json.strict t with
    | error e => simp [scalar, bind, Except.bind, Checked.fail]
    | ok j => simp [scalar, bind, Except.bind]
  · rw [if_neg scalar]
    simp [scalar, bind, Except.bind, Checked.fail]

end ParticipantMap

namespace Settings

variable {g : Graph} {t : Text} {m : List (Text × Text)} {s : Settings}

theorem variableOf_variableName (setting : Setting) (t : Text) :
    variableOf [(ParticipantMap.variableName, t)] setting =
      if setting = .participants then some t else none := by
  have named : ParticipantMap.variableName.lower = Setting.participants.key := by decide
  cases setting <;> simp [variableOf, named, Setting.key] <;> decide

/-- With nothing given but a participant map, the map alone decides whether there are settings. -/
theorem check_map_eq_ok {v : Setting → Option Value}
    (unset : ∀ setting, setting ≠ .participants → v setting = none) :
    check g v = .ok s ↔
      ∃ m, s = withMap m ∧ field .participants [] Value.asParticipants (v .participants) = .ok m := by
  unfold check
  rw [unset .environment (by decide), unset .name (by decide), unset .logLevel (by decide),
    unset .structuredLogs (by decide), unset .maxDepth (by decide)]
  have initial : Settings.default.participants = [] := rfl
  dsimp only
  rw [initial]
  cases field .participants [] Value.asParticipants (v .participants) with
  | ok m => simp [bind, Except.bind, nameField, field, Checked.both, withMap, default, eq_comm]
  | error es => simp [bind, Except.bind, nameField, field, Checked.both]

theorem load_eq_ok_of_variable {w : Option Value}
    (h : participantVariable [(ParticipantMap.variableName, t)] = .ok w) :
    load g [(ParticipantMap.variableName, t)] [] = .ok s ↔
      ∃ m, s = withMap m ∧ field .participants [] Value.asParticipants w = .ok m := by
  unfold load
  rw [h]
  apply check_map_eq_ok
  intro setting other
  cases setting with
  | participants => exact absurd rfl other
  | _ =>
    dsimp only
    rw [variableOf_variableName, if_neg other]
    rfl

/-- What a variable is accepted with: the null of JSON as no map, and every other map as it is. -/
theorem load_eq_ok : load g [(ParticipantMap.variableName, t)] [] = .ok s ↔
    ∃ m, s = withMap m ∧ (m = [] ∧ Json.read Json.lenient t = .ok .null ∨
      ∃ j, Json.read Json.lenient t = .ok j ∧ j ≠ .null ∧ ParticipantMap.ofJson j = .ok m) := by
  have found : variableOf [(ParticipantMap.variableName, t)] .participants = some t := by
    rw [variableOf_variableName, if_pos rfl]
  cases h : Json.read Json.lenient t with
  | error e =>
    have unreadable : load g [(ParticipantMap.variableName, t)] [] =
        .error (.unreadable .participants) := by
      simp only [load, participantVariable, found, h]
    simp [unreadable]
  | ok j =>
    by_cases null : j = .null
    · have none : participantVariable [(ParticipantMap.variableName, t)] = .ok none := by
        simp only [participantVariable, found, h, null]
      rw [load_eq_ok_of_variable none]
      simp [field, null, eq_comm]
    · have value : participantVariable [(ParticipantMap.variableName, t)] =
          .ok (some (.ofJson j)) := by
        unfold participantVariable
        rw [found]
        dsimp only
        rw [h]
        cases j with
        | null => exact absurd rfl null
        | _ => rfl
      rw [load_eq_ok_of_variable value]
      simp [field, null, ParticipantMap.asParticipants_eq_ok]

end Settings

/-! ## Both sources -/

namespace Command

/-- The options ask for the map in a file, whose text can be read. -/
def AsksFile (i : Inputs) (o : Options) (t : Text) : Prop :=
  o.identityParticipants = false ∧
    ∃ name, o.participantMap = some name ∧ name ≠ [] ∧ i.file (.ofText name) = .ok t

/-- The options ask for the map of the settings. -/
def AsksSettings (o : Options) : Prop :=
  o.identityParticipants = false ∧ ∀ name ∈ o.participantMap, name = []

end Command

namespace ParticipantMap

/-- What a text is worth as a file and as the only variable of an environment. -/
structure SourcesAgree (g : Graph) (t : Text) : Prop where
  /-- A file is accepted with a map exactly if a variable is, and the text is not one that only
  variables may hold. -/
  map : ∀ m, ofText t = .ok m ↔
    Settings.load g [(variableName, t)] [] = .ok (.withMap m) ∧ ¬ ForVariablesOnly t
  /-- A variable gives nothing but a map. -/
  mapOnly : ∀ s, Settings.load g [(variableName, t)] [] = .ok s → ∃ m, s = .withMap m
  /-- The command names participants by the file as it does by the settings out of the variable. -/
  names : ∀ i s o o', Command.AsksFile i o t → Command.AsksSettings o' → ∀ names,
    Command.Named i s o names ↔ ¬ ForVariablesOnly t ∧
      ∃ loaded, Settings.load g [(variableName, t)] [] = .ok loaded ∧
        Command.Named i loaded o' names

variable {t : Text} {m : List (Text × Text)}

theorem ofText_eq_ok_iff_load (g : Graph) : ofText t = .ok m ↔
    Settings.load g [(variableName, t)] [] = .ok (.withMap m) ∧ ¬ ForVariablesOnly t := by
  rw [ofText_eq_ok, Settings.load_eq_ok]
  constructor
  · rintro ⟨scalar, j, read, map⟩
    have notNull : j ≠ .null := by
      rintro rfl
      cases map
    have lenient : Json.read Json.lenient t = .ok j := by
      rcases Json.read_strict t with same | ⟨e, stopped, -⟩
      · rw [← same, read]
      · cases read.symm.trans stopped
    refine ⟨⟨m, rfl, .inr ⟨j, lenient, notNull, map⟩⟩, ?_⟩
    intro only
    cases only with
    | null isNull => exact notNull (Except.ok.inj (lenient.symm.trans isNull))
    | notUnicode surrogates => cases scalar.symm.trans surrogates
    | strict stopped => cases read.symm.trans stopped
  · rintro ⟨⟨m', same, loaded⟩, shared⟩
    obtain rfl : m = m' := congrArg Settings.participants same
    have scalar : t.isScalar = true := by
      by_contra surrogates
      exact shared (.notUnicode (by simpa using surrogates))
    obtain ⟨-, isNull⟩ | ⟨j, lenient, -, map⟩ := loaded
    · exact absurd (.null isNull) shared
    · refine ⟨scalar, j, ?_, map⟩
      rcases Json.read_strict t with same | ⟨e, stopped, flaw⟩
      · rw [same, lenient]
      · exact absurd (.strict stopped flaw) shared

/-- Both sources of a participant map accept the same texts with the same map, and name participants
alike, but for the texts that only variables may hold. -/
theorem sources_agree (g : Graph) (t : Text) : SourcesAgree g t where
  map := fun _ => ofText_eq_ok_iff_load g
  mapOnly := by
    intro s loaded
    obtain ⟨m, same, -⟩ := Settings.load_eq_ok.mp loaded
    exact ⟨m, same⟩
  names := by
    intro i s o o' asksFile asksSettings names
    obtain ⟨given, name, asked, nonempty, file⟩ := asksFile
    obtain ⟨given', unnamed⟩ := asksSettings
    simp only [Command.named_iff_file given asked nonempty,
      Command.named_iff_settings given' unnamed]
    constructor
    · rintro ⟨t', m, read, valid, rfl⟩
      obtain rfl := Except.ok.inj (file.symm.trans read)
      obtain ⟨loaded, shared⟩ := (ofText_eq_ok_iff_load g).mp valid
      exact ⟨shared, _, loaded, rfl⟩
    · rintro ⟨shared, s', loaded, rfl⟩
      obtain ⟨m, rfl, -⟩ := Settings.load_eq_ok.mp loaded
      exact ⟨t, m, file, (ofText_eq_ok_iff_load g).mpr ⟨loaded, shared⟩, rfl⟩

/-- The null of JSON is no map in a file, and as a variable it is as good as none. -/
theorem null_for_variables_only : (∀ m, ofText "null" ≠ .ok m) ∧
    Settings.load ⟨#[]⟩ [(variableName, "null")] [] = .ok .default := by
  have read : Json.read Json.lenient "null" = .ok .null :=
    Json.read_write Json.spaced_compactLayout rfl .null
  have only : ForVariablesOnly "null" := .null read
  constructor
  · intro m valid
    exact ((sources_agree ⟨#[]⟩ "null").map m |>.mp valid).2 only
  · exact Settings.load_eq_ok.mpr ⟨[], rfl, .inl ⟨rfl, read⟩⟩

end ParticipantMap

end UsagePolicy
