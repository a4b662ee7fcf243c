import UsagePolicy.Json.Printer
import UsagePolicy.Logging.Level
import UsagePolicy.Logging.Template
import UsagePolicy.Logging.Timestamp
import UsagePolicy.Telemetry.SpanContext

/-!
# Log records

A record is written in one of three forms: as a JSON object on one line (`Record.entry`), as a line
of plain text that begins with the time, or as the bare message. What is said about the
circumstances of a record, a correlation identifier and a span, stands in the first form only, and
only if it is there.
-/

namespace UsagePolicy

/-- An exception that a record tells about; either part may be missing. -/
structure Raised where
  name : Option Text
  text : Option Text

/-- One event of a program. -/
structure Record where
  logger : Text
  level : Level
  /-- The name of the level, which may be any text. -/
  levelName : Text
  template : Text
  arguments : List Value
  /-- Seconds since the beginning of 1970. -/
  created : Double
  function : Option Text
  line : Int
  raised : Option Raised
  /-- Further members, in order. -/
  extra : Json.Members

/-- What surrounds an event. -/
structure Circumstances where
  /-- An identifier for all events of one request, empty if there is none. -/
  correlation : Text
  span : SpanContext

/-- Why a record cannot be written. -/
inductive RecordFlaw
  | time (f : TimestampFlaw)
  | template (f : TemplateFlaw)
  /-- An integer of the line has too many digits. -/
  | digits

namespace Record

/-- The keys that a record has itself once it is made. -/
def ownKeys : List Text :=
  ["name", "msg", "message", "asctime", "args", "levelname", "levelno", "pathname", "filename",
    "module", "lineno", "funcName", "created", "msecs", "relativeCreated", "thread", "threadName",
    "processName", "process", "exc_info", "exc_text", "stack_info"]

/-- The keys that are never further members. -/
def reservedKeys : List Text := "taskName" :: "getMessage" :: ownKeys

/-- The first further member that would take the place of something the record has itself. -/
def overwritten? (extra : Json.Members) : Option Text :=
  (extra.map Prod.fst).find? fun k => ownKeys.contains k

/-- What is said about a further member that cannot be given. -/
def overwriteMessage (key : Text) : Text :=
  ("Attempt to overwrite " : Text) ++ key.quoted ++ (" in LogRecord" : Text)

/-- The further members that are written. -/
def writtenExtra (r : Record) : Json.Members := r.extra.filter fun m => !reservedKeys.contains m.1

/-- The message of a record. -/
def message (r : Record) : Except RecordFlaw Text :=
  (Template.fill r.template r.arguments).mapError .template

/-- A member that is there only if its value is. -/
def optional (key : Text) : Option Json → Json.Members
  | none => []
  | some v => [(key, v)]

/-- A member that is there. -/
def member (key : Text) (v : Json) : Json.Members := [(key, v)]

/-- A text, or null in its place. -/
def textOrNull : Option Text → Json
  | none => .null
  | some t => .text t

/-- What a record says about an exception. -/
def raisedJson (e : Raised) : Json :=
  .object (member "type" (textOrNull e.name) ++ member "message" (textOrNull e.text))

/-- The members that say what surrounds a record. -/
def circumstances (c : Circumstances) : Json.Members :=
  optional "correlation_id" (if c.correlation.isEmpty then none else some (.text c.correlation))
    ++ optional "trace_id" (c.span.traceText?.map .text)
    ++ optional "span_id" (c.span.spanText?.map .text)

/-- The members of the JSON form, given the time and the message. -/
def members (r : Record) (c : Circumstances) (time message : Text) : Json.Members :=
  member "timestamp" (.text time) ++ member "level" (.text r.levelName)
    ++ member "logger" (.text r.logger) ++ member "message" (.text message)
    ++ circumstances c ++ optional "exception" (r.raised.map raisedJson)
    ++ member "function" (textOrNull r.function) ++ member "line" (.int r.line)
    ++ optional "extra" (if r.writtenExtra.isEmpty then none else some (.object r.writtenExtra))

/-- The time of a record as it is written. -/
def time (r : Record) : Except RecordFlaw Text :=
  ((Timestamp.ofSeconds r.created).bind Timestamp.text).mapError .time

/-- The members of the JSON form. -/
def entry (r : Record) (c : Circumstances) : Except RecordFlaw Json.Members :=
  r.time.bind fun time => r.message.map fun message => r.members c time message

/-- The JSON form on one line. -/
def structuredLine (r : Record) (c : Circumstances) : Except RecordFlaw Text :=
  (r.entry c).bind fun ms =>
    if (Json.object ms).hasOversized then .error .digits else .ok (Json.object ms).line

/-- The plain form, with the time as it is to be written. -/
def plainLine (r : Record) (time : Text) : Except RecordFlaw Text :=
  r.message.map fun m => time ++ 0x20 :: r.levelName ++ 0x20 :: r.logger ++ (": " : Text) ++ m

end Record

end UsagePolicy
