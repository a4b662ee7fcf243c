import UsagePolicy.Encoding.Encode
import UsagePolicy.Logging.Root
import UsagePolicy.Settings.Basic
import UsagePolicy.Telemetry.Metrics

/-!
# Sessions

A session is what the encodings of one process share: settings, the root logger, a correlation
identifier and metrics. Clocks and random identifiers are inputs. An encoding that begins is counted
and opens a span; one that is refused leaves no trace.
-/

namespace UsagePolicy

/-- The state of a process. -/
structure Session where
  settings : Settings
  root : RootLogger
  correlation : Text
  metrics : Metrics

/-- A span that was opened, with the attributes that it was given. -/
structure OpenedSpan where
  tracer : Text
  name : Text
  attributes : Json.Members

/-- What surrounds an encoding. -/
structure Moment where
  /-- The identifier for the document. -/
  id : Text
  /-- How long the encoding takes, in seconds. -/
  duration : Double
  /-- When it happens, in seconds since the beginning of 1970. -/
  time : Double
  /-- The span in which it happens. -/
  span : SpanContext

/-- What a policy is to be encoded with. -/
structure EncodeRequest where
  graph : Graph
  policy : Value
  resolver : ResolverArgument
  /-- The depth limit; that of the settings if there is none. -/
  maxDepth : Option Int

/-- What an encoding leaves. -/
structure EncodeReport where
  result : Except Refusal Encoding
  spans : List OpenedSpan
  lines : List Emission

namespace Session

/-- A new process. -/
def start : Session := ⟨.default, .initial, [], .zero⟩

/-- The logger of the encoder. -/
def encoderLogger : Text := "odrl_encoder.encoder.encoder"

/-- What surrounds an event of the session. -/
def circumstances (s : Session) (span : SpanContext) : Circumstances := ⟨s.correlation, span⟩

/-- A record without function, exception and further members. -/
def record (logger : Text) (level : Level) (time : Double) (template : Text)
    (arguments : List Value) : Record :=
  ⟨logger, level, level.text, template, arguments, time, none, 0, none, []⟩

/-- The record of a participant without an identifier. -/
def omissionRecord (g : Graph) (policy : Value) (time : Double) (o : Role × Value) : Record :=
  record encoderLogger Level.debug time "No IRI mapping for %s '%s', omitting it"
    [.text o.1.name, .text ((g.plainWithin (policy.slot o.1.field) o.2).toOption.getD [])]

/-- The record of an encoding that gave a document. -/
def successRecord (m : Moment) (e : Encoded) (deepest : Nat) : Record :=
  record encoderLogger Level.info m.time
    "Encoded %s policy %s: %d rules, depth=%d, duration=%.6fs"
    [.text e.policyType.name, .text m.id, .int e.ruleCount, .int deepest, .float m.duration]

/-- The records of an encoding, in order. -/
def encodingRecords (g : Graph) (policy : Value) (m : Moment) (e : Encoding) : List Record :=
  e.omitted.map (omissionRecord g policy m.time) ++
    match e.outcome with
    | .ok encoded => [successRecord m encoded e.trail.deepest]
    | .error _ => []

/-- The span of an encoding; only one that gave a document has attributes. -/
def encodingSpan (e : Encoding) : OpenedSpan :=
  ⟨"odrl_encoder", "odrl.encode_policy",
    match e.outcome with
    | .ok encoded => [("odrl.policy_type", .text encoded.policyType.name),
        ("odrl.rule_count", .int encoded.ruleCount)]
    | .error _ => []⟩

/-- The metrics after an encoding. -/
def countEncoding (m : Metrics) (e : Encoding) : Metrics :=
  match e.outcome with
  | .ok encoded => m.success encoded.ruleCount e.trail.deepest
  | .error _ => m.failure

/-- Encodes a policy. -/
def encode (s : Session) (m : Moment) (r : EncodeRequest) : Session × EncodeReport :=
  match UsagePolicy.encode r.graph s.settings.maxDepth r.maxDepth r.resolver m.id r.policy with
  | .error refusal => (s, ⟨.error refusal, [], []⟩)
  | .ok e =>
    ({ s with metrics := countEncoding s.metrics e },
      ⟨.ok e, [encodingSpan e],
        (encodingRecords r.graph r.policy m e).flatMap (s.root.emit (s.circumstances m.span))⟩)

/-- Sets the depth limit, to anything. -/
def setMaxDepth (s : Session) (n : Int) : Session :=
  { s with settings := { s.settings with maxDepth := n } }

/-- Sets the correlation identifier. -/
def setCorrelation (s : Session) (id : Text) : Session := { s with correlation := id }

/-- Configures the root logger. -/
def configureLogging (s : Session) (level : Text) (structured : Bool) :
    Session × Option Level.Other :=
  let (root, flaw) := s.root.configure level structured
  ({ s with root := root }, flaw)

/-- What becomes of a record; the key of a further member that cannot be given is an error, if the
record is written at all. -/
def log (s : Session) (span : SpanContext) (r : Record) : Except Text (List Emission) :=
  if s.root.accepts r.level then
    match Record.overwritten? r.extra with
    | some key => .error key
    | none => .ok (s.root.emit (s.circumstances span) r)
  else .ok []

end Session

end UsagePolicy
