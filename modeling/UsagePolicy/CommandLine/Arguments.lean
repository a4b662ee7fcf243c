import UsagePolicy.Text.Printable

/-!
# Command-line arguments

The command takes one policy and switches. A switch may be shortened as long as only one has that
beginning; a value follows its switch as the next argument or after an equals sign. After two dashes
on their own all arguments are words. `Invocation.ofArguments` reads a command line from left to
right; `help` ends it at once.
-/

namespace UsagePolicy

/-- What the command can be told. -/
inductive Switch
  | help
  | participantMap
  | identityParticipants
  | pretty
  | fingerprint
  | logLevel
deriving DecidableEq, Repr

namespace Switch

/-- Every spelling of a switch. -/
def spellings : List (Text × Switch) :=
  [("-h", .help), ("--help", .help), ("--participant-map", .participantMap),
    ("--identity-participants", .identityParticipants), ("--pretty", .pretty),
    ("--fingerprint", .fingerprint), ("--log-level", .logLevel)]

/-- The switch of a full spelling. -/
def ofSpelling? (t : Text) : Option Switch := spellings.lookup t

/-- The spellings that begin in the same way, with their switches. -/
def completions (beginning : Text) : List (Text × Switch) :=
  spellings.filter fun s => beginning.isPrefixOf s.1

/-- How complaints name a switch. -/
def title : Switch → Text
  | .help => "-h/--help"
  | .participantMap => "--participant-map"
  | .identityParticipants => "--identity-participants"
  | .pretty => "--pretty"
  | .fingerprint => "--fingerprint"
  | .logLevel => "--log-level"

/-- The switch has a value. -/
def takesValue : Switch → Bool
  | .participantMap | .logLevel => true
  | _ => false

/-- The switch that may not be given together with a switch. -/
def rival? : Switch → Option Switch
  | .participantMap => some .identityParticipants
  | .identityParticipants => some .participantMap
  | .pretty => some .fingerprint
  | .fingerprint => some .pretty
  | _ => none

end Switch

/-- Why a command line is refused. -/
inductive UsageFlaw
  | ambiguous (given : Text) (candidates : List Text)
  | ignoredValue (s : Switch) (value : Text)
  | missingValue (s : Switch)
  | rivals (s other : Switch)
  | missingPolicy
  | unrecognized (arguments : List Text)
deriving DecidableEq

namespace UsageFlaw

/-- A complaint about a switch. -/
def about (s : Switch) (t : Text) : Text := ("argument " : Text) ++ s.title ++ (": " : Text) ++ t

/-- The message of a flaw. -/
def message : UsageFlaw → Text
  | .ambiguous t ts => ("ambiguous option: " : Text) ++ t ++ (" could match " : Text)
      ++ Text.join ", " ts
  | .ignoredValue s v => about s (("ignored explicit argument " : Text) ++ v.quoted)
  | .missingValue s => about s "expected one argument"
  | .rivals s o => about s (("not allowed with argument " : Text) ++ o.title)
  | .missingPolicy => "the following arguments are required: policy"
  | .unrecognized ts => ("unrecognized arguments: " : Text) ++ Text.join " " ts

/-- The line with which a refused command line is answered. -/
def line (f : UsageFlaw) : Text := ("odrl-encode: error: " : Text) ++ f.message

end UsageFlaw

/-- What an argument is. -/
inductive Argument
  | word (t : Text)
  /-- The two dashes after which there are words only. -/
  | separator
  | switch (s : Switch) (value : Option Text)
  /-- The short help switch with something attached to it. -/
  | attached (equals : Bool) (tail : Text)
  | unknown (t : Text)
deriving DecidableEq

namespace Argument

/-- The text before its first equals sign, and what follows the sign if there is one. -/
def splitValue (t : Text) : Text × Option Text :=
  match t.span (· ≠ 0x3D) with
  | (name, []) => (name, none)
  | (name, _ :: value) => (name, some value)

/-- A minus sign and digits, perhaps with a point before the last of them. -/
def isNegativeNumber : Text → Bool
  | 0x2D :: t =>
    let t := if t.getLast? = some 0x0A then t.dropLast else t
    let rest := t.dropWhile CodePoint.isDigit
    match rest with
    | [] => !t.isEmpty
    | 0x2E :: ds => !ds.isEmpty && ds.all CodePoint.isDigit
    | _ => false
  | _ => false

/-- An argument that begins with a dash and is no switch. -/
def ofDashed (t : Text) : Argument :=
  if isNegativeNumber t || t.contains 0x20 then .word t else .unknown t

/-- What an argument before the separator is. -/
def ofText (t : Text) : Except UsageFlaw Argument :=
  match t with
  | 0x2D :: second :: tail =>
    match Switch.ofSpelling? t with
    | some s => .ok (.switch s none)
    | none =>
      let (name, value) := splitValue t
      match value.isSome, Switch.ofSpelling? name with
      | true, some s =>
        .ok (if second = 0x2D then .switch s value else .attached true (value.getD []))
      | _, _ =>
        if second = 0x2D then
          match Switch.completions name with
          | [] => .ok (ofDashed t)
          | [s] => .ok (.switch s.2 value)
          | ss => .error (.ambiguous t (ss.map Prod.fst))
        else if second = 0x68 then .ok (.attached false tail)
        else .ok (ofDashed t)
  | t => .ok (.word t)

/-- What the arguments of a command line are. -/
def ofTexts : List Text → Except UsageFlaw (List Argument)
  | [] => .ok []
  | t :: ts =>
    if t = [0x2D, 0x2D] then .ok (.separator :: ts.map .word)
    else match ofText t with
      | .error e => .error e
      | .ok a => (ofTexts ts).map (a :: ·)

end Argument

/-- What a command line asks for. -/
structure Options where
  policy : Text
  participantMap : Option Text
  identityParticipants : Bool
  pretty : Bool
  fingerprint : Bool
  logLevel : Option Text
deriving DecidableEq

/-- What is known of a command line that is read up to some argument. -/
structure PartialOptions where
  policy : Option Text
  participantMap : Option Text
  identityParticipants : Bool
  pretty : Bool
  fingerprint : Bool
  logLevel : Option Text
  /-- The arguments that nobody asked for, the last one first. -/
  extra : List Text

namespace PartialOptions

/-- Nothing is read. -/
def empty : PartialOptions := ⟨none, none, false, false, false, none, []⟩

/-- The switch was given. -/
def has (p : PartialOptions) : Switch → Bool
  | .help => false
  | .participantMap => p.participantMap.isSome
  | .identityParticipants => p.identityParticipants
  | .pretty => p.pretty
  | .fingerprint => p.fingerprint
  | .logLevel => p.logLevel.isSome

/-- The options with a switch set; a switch without a value disregards it. -/
def set (p : PartialOptions) (value : Text) : Switch → PartialOptions
  | .help => p
  | .participantMap => { p with participantMap := some value }
  | .identityParticipants => { p with identityParticipants := true }
  | .pretty => { p with pretty := true }
  | .fingerprint => { p with fingerprint := true }
  | .logLevel => { p with logLevel := some value }

/-- One more switch, unless its rival was given. -/
def add (p : PartialOptions) (s : Switch) (value : Text) : Except UsageFlaw PartialOptions :=
  match s.rival?.filter p.has with
  | some o => .error (.rivals s o)
  | none => .ok (p.set value s)

/-- One more argument that nobody asked for. -/
def addExtra (p : PartialOptions) (t : Text) : PartialOptions := { p with extra := t :: p.extra }

/-- The options of a whole command line. -/
def finish (p : PartialOptions) : Except UsageFlaw Options :=
  match p.policy, p.extra with
  | none, _ => .error .missingPolicy
  | some policy, [] => .ok ⟨policy, p.participantMap, p.identityParticipants, p.pretty,
      p.fingerprint, p.logLevel⟩
  | some _, es => .error (.unrecognized es.reverse)

end PartialOptions

/-- What a command line comes to. -/
inductive Invocation
  | help
  | run (o : Options)
deriving DecidableEq

namespace Invocation

/-- What is wrong with something attached to the short help switch: further short switches may be,
and only the same one would be looked at again. -/
def ignoredTail? : (equals : Bool) → Text → Option Text
  | _, [] => some []
  | equals, c :: t =>
    if equals || c = 0x2D then some (c :: t)
    else if c ≠ 0x68 then none
    else match t with
      | [] => none
      | 0x3D :: t => ignoredTail? true t
      | c :: t => ignoredTail? false (c :: t)

/-- Reads the arguments from left to right. The separator is dropped before the policy and right
after it; elsewhere nobody asked for it. -/
def read (p : PartialOptions) (afterPolicy : Bool) : List Argument → Except UsageFlaw Invocation
  | [] => p.finish.map .run
  | .word t :: as =>
    if p.policy.isNone then read { p with policy := some t } true as
    else read (p.addExtra t) false as
  | .separator :: as =>
    read (if afterPolicy || p.policy.isNone then p else p.addExtra [0x2D, 0x2D]) false as
  | .unknown t :: as => read (p.addExtra t) false as
  | .attached equals tail :: _ =>
    match ignoredTail? equals tail with
    | some v => .error (.ignoredValue .help v)
    | none => .ok .help
  | .switch .help none :: _ => .ok .help
  | .switch s value :: as =>
    match s.takesValue, value, as with
    | true, none, .word v :: as => (p.add s v).bind fun p => read p false as
    | true, none, _ => .error (.missingValue s)
    | true, some v, as => (p.add s v).bind fun p => read p false as
    | false, none, as => (p.add s []).bind fun p => read p false as
    | false, some v, _ => .error (.ignoredValue s v)

/-- What the arguments of a command line come to. -/
def ofArguments (ts : List Text) : Except UsageFlaw Invocation :=
  match Argument.ofTexts ts with
  | .error e => .error e
  | .ok as => read .empty false as

end Invocation

end UsagePolicy
