import UsagePolicy.Proofs.Logging.Configuration
import UsagePolicy.Proofs.Payload.Acceptance
import UsagePolicy.Settings.Load

/-!
# Settings that are loaded are usable

Settings are loaded field by field: each is its default if nothing is given for it, and otherwise
what the given value is accepted as, and either name may end all checks at once. So the depth limit
of settings that were loaded is at least one, and their level is the name of a level in its usual
form: it is accepted again as it is, and the root logger, which looks names up in another way than
the check of settings, is configured by it with the level of that name.
-/

namespace UsagePolicy

/-! ## Names of levels -/

/-- The table of names and the lookup of a configuration give one level for a name. -/
def Level.AgreedOn (name : Text) : Prop := ∃ l, ofName? name = some l ∧ find name = .ok l

namespace Level

variable {name : Text} {l : Level}

/-- The names of levels are in capitals. -/
theorem upper_of_mem_names (h : (name, l) ∈ names) : name.upper = name := by
  have capitals : ∀ e ∈ names, e.1.upper = e.1 := by decide
  exact capitals _ h

theorem denotes_of_mem_names (h : (name, l) ∈ names) : Denotes name.upper l := by
  rw [upper_of_mem_names h]
  exact .named h

theorem agreedOn_of_mem_names (h : (name, l) ∈ names) : AgreedOn name :=
  ⟨l, ofName?_eq_some.mpr h, find_of_denotes (denotes_of_mem_names h)⟩

end Level

theorem Spelled.level?_eq_some {t name : Text} : level? t = some name ↔
    name = t.strip.upper ∧ ∃ l, (name, l) ∈ Level.names := by
  have named : (Level.ofName? t.strip.upper).isSome ↔ ∃ l, (t.strip.upper, l) ∈ Level.names := by
    simp only [Option.isSome_iff_exists, Level.ofName?_eq_some]
  unfold level?
  dsimp only
  split
  · next found =>
    rw [Option.some.injEq]
    exact ⟨fun h => ⟨h.symm, h ▸ named.mp found⟩, fun h => h.1.symm⟩
  · next unfound =>
    refine iff_of_false nofun ?_
    rintro ⟨rfl, known⟩
    exact unfound (named.mpr known)

/-- The names of levels are not padded. -/
theorem Spelled.level?_of_mem_names {name : Text} {l : Level} (h : (name, l) ∈ Level.names) :
    level? name = some name := by
  have usual : ∀ e ∈ Level.names, level? e.1 = some e.1 := by decide
  exact usual _ h

namespace Value

variable {v : Value} {name : Text} {i : Int}

theorem asLogLevel_eq_ok : v.asLogLevel = .ok name ↔
    ∃ t, v.text? = some t ∧ name = t.strip.upper ∧ ∃ l, (name, l) ∈ Level.names := by
  unfold asLogLevel
  cases v.text? with
  | none =>
    constructor
    · rintro ⟨⟩
    · rintro ⟨t, ⟨⟩, -⟩
  | some t =>
    simp only [Option.some.injEq, exists_eq_left', ← Spelled.level?_eq_some]
    cases Spelled.level? t with
    | none => simp only [reduceCtorEq]
    | some name' => rw [Except.ok.injEq, Option.some.injEq]

theorem asLogLevel_of_mem_names {l : Level} (h : (name, l) ∈ Level.names) :
    asLogLevel (.text name) = .ok name := by
  have usual := Spelled.level?_of_mem_names h
  simp only [asLogLevel, text?, usual]

theorem one_le_of_asMaxDepth (h : v.asMaxDepth = .ok i) : 1 ≤ i := by
  unfold asMaxDepth at h
  cases integer : v.asInteger with
  | error es => rw [integer] at h; cases h
  | ok j =>
    rw [integer] at h
    dsimp only at h
    split at h
    · cases h
    · next least =>
      obtain rfl := Except.ok.inj h
      exact Int.not_lt.mp least

end Value

/-! ## Checking what is given -/

/-- A flaw of a name ends all checks, with a failure of its own. -/
inductive NameFlaw.Stops : NameFlaw → SettingsFailure → Prop
  | noLetters (typeName : Text) : Stops (.noLetters typeName) (.noLetters typeName)
  | unencodable (run : Text.UnencodableRun) : Stops (.unencodable run) (.unencodable run)

namespace Settings

variable {α : Type} {s : Setting} {initial a : α} {v : Option Value} {g : Graph}

/-- A setting is its default if nothing is given for it, and otherwise what is accepted. -/
inductive Yields {ε : Type} (initial : α) (check : Value → Except ε α) : Option Value → α → Prop
  | unset : Yields initial check none initial
  | given {v : Value} {a : α} : check v = .ok a → Yields initial check (some v) a

/-- What the default and all accepted values have, a setting has. -/
theorem Yields.has {ε : Type} {check : Value → Except ε α} {p : α → Prop}
    (h : Yields initial check v a) (unset : p initial) (given : ∀ w a, check w = .ok a → p a) :
    p a := by
  cases h with
  | unset => exact unset
  | given accepted => exact given _ _ accepted

/-- What is given as a name ends all checks. -/
def StopsBy (check : Value → Except NameFlaw α) (v : Option Value) (f : SettingsFailure) : Prop :=
  ∃ w flaw, v = some w ∧ check w = .error flaw ∧ flaw.Stops f

theorem yields_of_field {check : Value → Checked α} (h : field s initial check v = .ok a) :
    Yields initial check v a := by
  cases v with
  | none =>
    obtain rfl := Except.ok.inj h
    exact .unset
  | some w => exact .given (Checked.under_eq_ok.mp h)

/-- A name ends all checks, or it is accepted, or it is an issue. -/
theorem nameField_cases (s : Setting) (initial : α) (check : Value → Except NameFlaw α)
    (v : Option Value) :
    (∃ f, nameField s initial check v = .error f ∧ StopsBy check v f) ∨
      ∃ x, nameField s initial check v = .ok x ∧ (∀ f, ¬ StopsBy check v f) ∧
        ∀ a, x = .ok a → Yields initial check v a := by
  unfold nameField StopsBy
  cases v with
  | none =>
    refine .inr ⟨_, rfl, by rintro f ⟨w, flaw, ⟨⟩, -⟩, fun a h => ?_⟩
    obtain rfl := Except.ok.inj h
    exact .unset
  | some w =>
    cases checked : check w with
    | ok a =>
      refine .inr ⟨_, by simp only [checked]; rfl, ?_, fun a' h => ?_⟩
      · rintro f ⟨w', flaw, ⟨⟩, failed, -⟩
        cases checked.symm.trans failed
      · obtain rfl := Except.ok.inj h
        exact .given checked
    | error flaw =>
      cases flaw with
      | issue k =>
        refine .inr ⟨_, by simp only [checked]; rfl, ?_, fun a h => by cases h⟩
        rintro f ⟨w', flaw, ⟨⟩, failed, stops⟩
        obtain rfl := Except.error.inj (checked.symm.trans failed)
        cases stops
      | noLetters t => exact .inl ⟨_, by simp only [checked], w, _, rfl, checked, .noLetters t⟩
      | unencodable run =>
        exact .inl ⟨_, by simp only [checked], w, _, rfl, checked, .unencodable run⟩

/-- The settings that come out of what is given for each of them. -/
structure Results (g : Graph) (given : Setting → Option Value) (s : Settings) : Prop where
  environment :
    Yields default.environment (Value.asEnvironment g) (given .environment) s.environment
  name : Yields default.name Value.asText (given .name) s.name
  logLevel : Yields default.logLevel Value.asLogLevel (given .logLevel) s.logLevel
  structuredLogs :
    Yields default.structuredLogs Value.asTruth (given .structuredLogs) s.structuredLogs
  maxDepth : Yields default.maxDepth Value.asMaxDepth (given .maxDepth) s.maxDepth
  participants :
    Yields default.participants Value.asParticipants (given .participants) s.participants

/-- How a check of all settings ends: the name of the environment ends it, or else that of the level
does, or else there are issues or settings. -/
inductive CheckEnds (g : Graph) (given : Setting → Option Value) :
    Except SettingsFailure Settings → Prop
  | environment {f : SettingsFailure} :
    StopsBy (Value.asEnvironment g) (given .environment) f → CheckEnds g given (.error f)
  | logLevel {f : SettingsFailure} :
    (∀ e, ¬ StopsBy (Value.asEnvironment g) (given .environment) e) →
    StopsBy Value.asLogLevel (given .logLevel) f → CheckEnds g given (.error f)
  | issues {es : List Issue} :
    (∀ e, ¬ StopsBy (Value.asEnvironment g) (given .environment) e) →
    (∀ e, ¬ StopsBy Value.asLogLevel (given .logLevel) e) → CheckEnds g given (.error (.issues es))
  | settings {s : Settings} :
    (∀ e, ¬ StopsBy (Value.asEnvironment g) (given .environment) e) →
    (∀ e, ¬ StopsBy Value.asLogLevel (given .logLevel) e) → Results g given s →
    CheckEnds g given (.ok s)

theorem check_ends (g : Graph) (given : Setting → Option Value) :
    CheckEnds g given (check g given) := by
  unfold check
  dsimp only
  rcases nameField_cases .environment default.environment (Value.asEnvironment g)
    (given .environment) with ⟨f, stopped, stops⟩ | ⟨environment, passed, unstopped, yields⟩
  · rw [stopped]
    exact .environment stops
  rw [passed]
  rcases nameField_cases .logLevel default.logLevel Value.asLogLevel
    (given .logLevel) with ⟨f, stopped, stops⟩ | ⟨logLevel, passed', unstopped', yields'⟩
  · rw [stopped]
    exact .logLevel unstopped stops
  rw [passed']
  simp only [bind, Except.bind]
  split
  · next e n l b m p fields =>
    simp only [Checked.both_eq_ok] at fields
    obtain ⟨he, hn, hl, hb, hm, hp⟩ := fields
    exact .settings unstopped unstopped' ⟨yields _ he, yields_of_field hn, yields' _ hl,
      yields_of_field hb, yields_of_field hm, yields_of_field hp⟩
  · exact .issues unstopped unstopped'

/-! ## Loading -/

variable {environment : List (Text × Text)} {arguments : List (Text × Value)}

/-- What is given for a setting other than the participants: its argument, or else its variable. -/
def supplied (environment : List (Text × Text)) (arguments : List (Text × Value)) (s : Setting) :
    Option Value :=
  arguments.lookup s.key <|> (variableOf environment s).map .text

/-- An argument takes the place of a variable, since a variable is no dictionary. -/
theorem given_variable (environment : List (Text × Text)) (arguments : List (Text × Value))
    (s : Setting) : given ((variableOf environment s).map .text) arguments s =
      supplied environment arguments s := by
  unfold given supplied
  cases arguments.lookup s.key with
  | none => cases variableOf environment s <;> rfl
  | some v => cases variableOf environment s <;> simp [Value.overlay]

/-- Loading fails at the variable for participants, or it is a check of what is supplied. -/
theorem load_cases (g : Graph) (environment : List (Text × Text))
    (arguments : List (Text × Value)) :
    (participantVariable environment = .error (.unreadable .participants) ∧
        load g environment arguments = .error (.unreadable .participants)) ∨
      ∃ w given, participantVariable environment = .ok w ∧
        load g environment arguments = check g given ∧
        ∀ s, s ≠ .participants → given s = supplied environment arguments s := by
  unfold load
  cases read : participantVariable environment with
  | error e =>
    have unreadable : e = .unreadable .participants := by
      unfold participantVariable at read
      split at read
      · cases read
      · split at read
        · cases read
        · cases read
        · exact (Except.error.inj read).symm
    exact .inl ⟨congrArg _ unreadable, congrArg _ unreadable⟩
  | ok w =>
    refine .inr ⟨w, _, rfl, rfl, fun s other => ?_⟩
    cases s with
    | participants => exact absurd rfl other
    | _ => exact given_variable environment arguments _

/-- Settings that can be used as they stand. -/
structure Usable (s : Settings) : Prop where
  depth : 1 ≤ s.maxDepth
  /-- The level is accepted again, unchanged. -/
  accepted : Value.asLogLevel (.text s.logLevel) = .ok s.logLevel
  /-- A configuration by the level succeeds from every state of the logger and sets the level that
  the table of names has for it. -/
  configures : ∃ l, Level.ofName? s.logLevel = some l ∧ ∀ (root : RootLogger) (structured : Bool),
    root.configure s.logLevel structured = (⟨l, [RootLogger.handler structured]⟩, none)

variable {given : Setting → Option Value} {settings : Settings}

theorem Results.one_le_maxDepth (h : Results g given settings) : 1 ≤ settings.maxDepth :=
  h.maxDepth.has (by decide) fun _ _ => Value.one_le_of_asMaxDepth

theorem Results.exists_level (h : Results g given settings) :
    ∃ l, (settings.logLevel, l) ∈ Level.names := by
  refine h.logLevel.has (p := fun name => ∃ l, (name, l) ∈ Level.names) ⟨Level.info, by decide⟩ ?_
  intro v name accepted
  obtain ⟨t, -, -, named⟩ := Value.asLogLevel_eq_ok.mp accepted
  exact named

theorem Results.usable (h : Results g given settings) : settings.Usable := by
  obtain ⟨l, named⟩ := h.exists_level
  exact {
    depth := h.one_le_maxDepth
    accepted := Value.asLogLevel_of_mem_names named
    configures := ⟨l, Level.ofName?_eq_some.mpr named, fun _ _ =>
      RootLogger.configure_of_denotes (Level.denotes_of_mem_names named)⟩ }

theorem results_of_load (h : load g environment arguments = .ok settings) :
    ∃ given, Results g given settings := by
  rcases load_cases g environment arguments with ⟨-, failed⟩ | ⟨w, given, -, checked, -⟩
  · cases failed.symm.trans h
  · have ends := check_ends g given
    rw [← checked, h] at ends
    cases ends with
    | settings _ _ results => exact ⟨given, results⟩

/-- All settings that are loaded are usable, whatever they were loaded from; and for every text that
is accepted as a level, the table of names and the lookup of a configuration agree on what it is
accepted as. -/
theorem load_usable :
    (∀ g environment arguments settings, load g environment arguments = .ok settings →
      settings.Usable) ∧
    ∀ t name, Value.asLogLevel (.text t) = .ok name → Level.AgreedOn name := by
  constructor
  · intro g environment arguments settings loaded
    obtain ⟨given, results⟩ := results_of_load loaded
    exact results.usable
  · intro t name accepted
    obtain ⟨-, -, -, l, named⟩ := Value.asLogLevel_eq_ok.mp accepted
    exact Level.agreedOn_of_mem_names named

/-- An environment with names in mixed case, a padded level and a spelled depth limit. -/
def paddedEnvironment : List (Text × Text) :=
  [("App_Log_Level", "\t warn\n"), ("ENCODER_max_DEPTH", " +0_8.0 "), ("HOME", "/root")]

/-- What is loaded from it. -/
def paddedSettings : Settings := { Settings.default with logLevel := "WARN", maxDepth := 8 }

theorem paddedEnvironment_usable :
    load .empty paddedEnvironment [] = .ok paddedSettings ∧ paddedSettings.Usable ∧
      Value.asLogLevel (.text "\t warn\n") = .ok "WARN" ∧ Level.AgreedOn "WARN" := by
  have loaded : load .empty paddedEnvironment [] = .ok paddedSettings := by rfl
  have accepted : Value.asLogLevel (.text "\t warn\n") = .ok "WARN" := by rfl
  exact ⟨loaded, load_usable.1 _ _ _ _ loaded, accepted, load_usable.2 _ _ accepted⟩

end Settings

end UsagePolicy
