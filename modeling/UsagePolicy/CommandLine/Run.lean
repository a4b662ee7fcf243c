import UsagePolicy.CommandLine.Arguments
import UsagePolicy.CommandLine.ParticipantMap
import UsagePolicy.CommandLine.Source
import UsagePolicy.Encoding.Document
import UsagePolicy.Graph.OfPolicy
import UsagePolicy.Session

/-!
# The command

The command encodes one policy and prints the document or its fingerprint. It ends with 2 if the
policy or the participant map cannot be read or is not valid, with 1 if the policy cannot be
encoded, and normally otherwise; only then does it print anything. What it has to say goes to the
log.
-/

namespace UsagePolicy

namespace Command

/-- What the command reads: standard input, and files by their names. -/
structure Inputs where
  stdin : Except ReadFlaw Text
  file : FileName → Except ReadFlaw Text

/-- What stops the command in the middle. -/
inductive Crash
  /-- The name of a level stands for something else. -/
  | level (o : Level.Other)
  | refusal (r : Refusal)
  | failure (f : Failure)
  | unwritable
  | fingerprint (e : Value.FingerprintError)

/-- How the command ends. -/
inductive Ending
  | exit (code : Nat)
  | usage (f : UsageFlaw)
  | crash (c : Crash)

/-- What the command leaves. -/
structure Outcome where
  stdout : Text
  lines : List Emission
  ending : Ending

/-- Why an input is no good. -/
inductive InputFlaw
  | read (f : ReadFlaw)
  /-- The issues of a payload of some kind. -/
  | issues (title : Text) (es : List Issue)

namespace InputFlaw

/-- A step to the place of an issue. -/
def stepText : PlaceStep → Text
  | .key k => k
  | .index i => Text.decimal i

/-- An issue on two lines, or on one if it concerns the whole payload. -/
def issueText (i : Issue) : Text :=
  (if i.place.isEmpty then [] else 0x0A :: Text.join [0x2E] (i.place.map stepText))
    ++ 0x0A :: (("  " : Text) ++ i.kind.message ++ (" [type=" : Text) ++ i.kind.code ++ [0x5D])

/-- How many issues a payload has, and which. -/
def report (title : Text) (es : List Issue) : Text :=
  Text.decimal es.length
    ++ (if es.length = 1 then (" validation error for " : Text) else " validation errors for ")
    ++ title ++ es.flatMap issueText

/-- What kind of flaw it is. -/
def kind : InputFlaw → Text
  | .read _ => "cannot read input"
  | .issues _ _ => "invalid input payload"

/-- The message of a flaw. -/
def message : InputFlaw → Text
  | .read f => f.message
  | .issues title es => report title es

end InputFlaw

/-- The logger of the command. -/
def logger : Text := "cli.encode"

/-- The name of standard input. -/
def stdinName : Text := "-"

/-- The text of the policy. -/
def policyText (i : Inputs) (name : Text) : Except ReadFlaw Text :=
  if name = stdinName then i.stdin else i.file (FileName.ofText name)

/-- The policy. -/
def readPolicy (i : Inputs) (name : Text) : Except InputFlaw Policy :=
  match policyText i name with
  | .error f => .error (.read f)
  | .ok t => (Payload.policyOfText t).mapError (.issues "Policy")

/-- A table with the entries of a map. -/
def tableOf (m : List (Text × Text)) : Resolver := .table (m.map fun e => (e.1, .text e.2))

/-- The resolver that the options ask for: the identity, the map in a file or that of the settings.
A file without a name is none. -/
def readResolver (i : Inputs) (s : Settings) (o : Options) : Except InputFlaw Resolver :=
  if o.identityParticipants then .ok .identity
  else match o.participantMap.filter (!·.isEmpty) with
    | none => .ok (tableOf s.participants)
    | some name => match i.file (FileName.ofText name) with
      | .error f => .error (.read f)
      | .ok t => (ParticipantMap.ofText t).map tableOf |>.mapError (.issues "dict[str,str]")

/-- The policy and then the resolver. -/
def readInputs (i : Inputs) (s : Settings) (o : Options) : Except InputFlaw (Policy × Resolver) :=
  (readPolicy i o.policy).bind fun p => (readResolver i s o).map fun r => (p, r)

/-- The record of an input that is no good. -/
def inputRecord (m : Moment) (f : InputFlaw) : Record :=
  Session.record logger Level.error m.time "%s: %s" [.text f.kind, .text f.message]

/-- The record of a policy that cannot be encoded. -/
def failureRecord (m : Moment) (e : EncodingError) : Record :=
  { Session.record logger Level.error m.time "Policy encoding failed: %s" [.text e.message] with
    extra := [("details", .object e.details)] }

/-- The lines of a record of the command. -/
def say (s : Session) (m : Moment) (r : Record) : List Emission :=
  s.root.emit (s.circumstances m.span) r

/-- What is printed of a document. -/
def printed (o : Options) (document : Value) : Except Crash Text :=
  if o.fingerprint then document.fingerprint.mapError .fingerprint
  else (if o.pretty then document.pretty else document.compact).mapError fun _ => .unwritable

/-- The outcome of an encoding. -/
def finish (s : Session) (m : Moment) (o : Options) (report : EncodeReport) : Outcome :=
  match report.result with
  | .error r => ⟨[], report.lines, .crash (.refusal r)⟩
  | .ok run => match run.outcome with
    | .error (.encoding e) => ⟨[], report.lines ++ say s m (failureRecord m e), .exit 1⟩
    | .error f => ⟨[], report.lines, .crash (.failure f)⟩
    | .ok encoded => match printed o encoded.document with
      | .error c => ⟨[], report.lines, .crash c⟩
      | .ok t => ⟨t ++ [0x0A], report.lines, .exit 0⟩

/-- Encodes what the options ask for. -/
def encode (s : Session) (m : Moment) (i : Inputs) (o : Options) : Session × Outcome :=
  match readInputs i s.settings o with
  | .error f => (s, ⟨[], say s m (inputRecord m f), .exit 2⟩)
  | .ok (policy, resolver) =>
    let (v, g) := policy.grow Graph.empty
    let (s, report) := s.encode m ⟨g, v, .resolver resolver, none⟩
    (s, finish s m o report)

/-- The files that a command line may make the command read. -/
def filesOf (arguments : List Text) : List FileName :=
  match Invocation.ofArguments arguments with
  | .ok (.run o) => (o.policy :: o.participantMap.toList).map FileName.ofText
  | _ => []

/-- The number with which the process ends. -/
def Ending.code : Ending → Nat
  | .exit n => n
  | .usage _ => 2
  | .crash _ => 1

/-- What is printed for those who ask for help. -/
def helpText : Text :=
  "usage: odrl-encode [-h] [--participant-map FILE | --identity-participants] "
    ++ ("[--pretty | --fingerprint] [--log-level LOG_LEVEL] policy\n" : Text)

/-- Runs the command in a session, with a correlation identifier of its own. -/
def run (s : Session) (m : Moment) (correlation : Text) (i : Inputs) (arguments : List Text) :
    Session × Outcome :=
  match Invocation.ofArguments arguments with
  | .error f => (s, ⟨[], [], .usage f⟩)
  | .ok .help => (s, ⟨helpText, [], .exit 0⟩)
  | .ok (.run o) =>
    match s.configureLogging (o.logLevel.getD s.settings.logLevel) s.settings.structuredLogs with
    | (s, some flaw) => (s, ⟨[], [], .crash (.level flaw)⟩)
    | (s, none) => encode (s.setCorrelation correlation) m i o

end Command

end UsagePolicy
