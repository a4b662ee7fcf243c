import UsagePolicy.Graph.Basic

/-!
# Settings

The settings of a process, and the names under which they are given.
-/

namespace UsagePolicy

/-- What a process is set to. -/
structure Settings where
  environment : AppEnvironment
  name : Text
  logLevel : Text
  structuredLogs : Bool
  /-- The greatest depth of rules and constraints; it may be set to anything later. -/
  maxDepth : Int
  /-- The identifiers of participants. -/
  participants : List (Text × Text)

/-- One of the settings. -/
inductive Setting
  | environment
  | name
  | logLevel
  | structuredLogs
  | maxDepth
  | participants
deriving DecidableEq, Repr

namespace Setting

/-- All settings in the order in which they are checked. -/
def all : List Setting :=
  [.environment, .name, .logLevel, .structuredLogs, .maxDepth, .participants]

/-- The name under which a setting is given. -/
def key : Setting → Text
  | .environment => "app_env"
  | .name => "app_name"
  | .logLevel => "app_log_level"
  | .structuredLogs => "observability_structured_logs"
  | .maxDepth => "encoder_max_depth"
  | .participants => "participant_iri_map"

end Setting

/-- The settings of a process for which nothing is given. -/
def Settings.default : Settings :=
  ⟨.localRun, "odrl-policy-encoder", "INFO", true, 32, []⟩

end UsagePolicy
