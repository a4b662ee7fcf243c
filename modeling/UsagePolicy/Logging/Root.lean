import UsagePolicy.Logging.Record

/-!
# The root logger

Every record goes to one logger, which has a least level and handlers. Without a handler, warnings
and worse are still written, as bare messages.
-/

namespace UsagePolicy

/-- A handler writes records in one form. -/
inductive Handler
  | structured
  | plain
  /-- A handler that another part of the process has put up, with a form of its own. -/
  | foreign (form : Record → Circumstances → Except RecordFlaw Text)

/-- It can be told whether a handler writes JSON. -/
instance : (h : Handler) → Decidable (h = .structured)
  | .structured => isTrue rfl
  | .plain => isFalse nofun
  | .foreign _ => isFalse nofun

/-- Where all records go. -/
structure RootLogger where
  level : Level
  handlers : List Handler

/-- A record on its way out: by a handler, or bare. -/
structure Emission where
  handler : Option Handler
  record : Record
  circumstances : Circumstances

namespace RootLogger

/-- The logger of a new process. -/
def initial : RootLogger := ⟨Level.warning, []⟩

/-- Records of a level are written. -/
def accepts (root : RootLogger) (l : Level) : Bool := 0 < l && root.level ≤ l

/-- What becomes of a record. -/
def emit (root : RootLogger) (c : Circumstances) (r : Record) : List Emission :=
  if root.accepts r.level then
    match root.handlers with
    | [] => if Level.warning ≤ r.level then [⟨none, r, c⟩] else []
    | hs => hs.map fun h => ⟨some h, r, c⟩
  else []

/-- The handler for a choice of form. -/
def handler (structured : Bool) : Handler := if structured then .structured else .plain

/-- Configures the logger: one handler, and the level of a name. The old handlers are gone even if
the name turns out to stand for something that is no level. -/
def configure (root : RootLogger) (name : Text) (structured : Bool) :
    RootLogger × Option Level.Other :=
  match Level.find name with
  | .ok l => (⟨l, [handler structured]⟩, none)
  | .error o => (⟨root.level, []⟩, some o)

end RootLogger

namespace Emission

/-- The line that is written, with the time as plain lines have it. -/
def line (e : Emission) (time : Text) : Except RecordFlaw Text :=
  match e.handler with
  | none => e.record.message
  | some .plain => e.record.plainLine time
  | some .structured => e.record.structuredLine e.circumstances
  | some (.foreign form) => form e.record e.circumstances

end Emission

end UsagePolicy
