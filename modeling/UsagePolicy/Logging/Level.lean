import UsagePolicy.Text.Case

/-!
# Logging levels

A level is a number; six numbers have names of their own, and two of them have a second name. There
is a constant for each of these names. A level may be given by the name of a constant in any case,
but two further constants are settings of the formatter and no levels.
-/

namespace UsagePolicy

/-- The importance of a log record. -/
abbrev Level := Int

namespace Level

/-- The names of levels, the second names included. -/
def names : List (Text × Level) :=
  [("CRITICAL", 50), ("FATAL", 50), ("ERROR", 40), ("WARN", 30), ("WARNING", 30), ("INFO", 20),
    ("DEBUG", 10), ("NOTSET", 0)]

/-- The level for information. -/
def info : Level := 20

/-- The level for details. -/
def debug : Level := 10

/-- The level for warnings. -/
def warning : Level := 30

/-- The level for errors. -/
def error : Level := 40

/-- The level that a name stands for, exactly as it is spelled. -/
def ofName? (t : Text) : Option Level := names.lookup t

/-- A level as it is written. -/
def text (l : Level) : Text :=
  if l = 50 then "CRITICAL"
  else if l = 40 then "ERROR"
  else if l = 30 then "WARNING"
  else if l = 20 then "INFO"
  else if l = 10 then "DEBUG"
  else if l = 0 then "NOTSET"
  else ("Level " : Text) ++ Text.decimalInt l

/-- A constant that is no level. -/
inductive Other
  /-- The default format. -/
  | format
  /-- The table of format styles. -/
  | styles
deriving DecidableEq

/-- The constants that are no levels, under their names. -/
def others : List (Text × Other) := [("BASIC_FORMAT", .format), ("_STYLES", .styles)]

/-- What is said about something that is no level. -/
def Other.message : Other → Text
  | .format => "Unknown level: '%(levelname)s:%(name)s:%(message)s'"
  | .styles =>
    "Level not an integer or a valid string: "
      ++ ("\x7b'%': (<class 'logging.PercentStyle'>, " : Text)
      ++ ("'%(levelname)s:%(name)s:%(message)s'), " : Text)
      ++ ("'\x7b': (<class 'logging.StrFormatStyle'>, '\x7blevelname\x7d:\x7bname\x7d:" : Text)
      ++ ("\x7bmessage\x7d'), '$': (<class 'logging.StringTemplateStyle'>, " : Text)
      ++ ("'$\x7blevelname\x7d:$\x7bname\x7d:$\x7bmessage\x7d')\x7d" : Text)

/-- The constants that are levels, under their names. -/
def constants : List (Text × Level) :=
  [("CRITICAL", 50), ("FATAL", 50), ("ERROR", 40), ("WARNING", 30), ("WARN", 30), ("INFO", 20),
    ("DEBUG", 10), ("NOTSET", 0)]

/-- The level whose constant has the name in any case; a name that no constant has stands for
`info`. -/
def find (name : Text) : Except Other Level :=
  match others.lookup name.upper with
  | some o => .error o
  | none => .ok ((constants.lookup name.upper).getD info)

end Level

end UsagePolicy
