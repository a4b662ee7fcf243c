import Std.Time.DateTime.Timestamp
import UsagePolicy.CommandLine.Run
import UsagePolicy.RandomId
import UsagePolicy.Settings.Load

/-!
# The program

Reads arguments, environment, files, clock and random bytes, runs the command and writes what it
leaves.
-/

open UsagePolicy

/-- The value of an environment variable under one of two spellings of its name. -/
def readVariable (key : Text) : IO (List (Text × Text)) := do
  let names := [key.toString, key.upper.toString]
  let values ← names.filterMapM fun name => IO.getEnv name
  pure (values.map fun v => (key, Text.ofString v))

/-- The text of a file. -/
def readSource (name : FileName) : IO (FileName × Except ReadFlaw Text) := do
  try
    let bytes ← IO.FS.readBinFile name.text.toString
    pure (name, decodeFile bytes.toList)
  catch
    | .inappropriateType .. => pure (name, .error (.directory name.text))
    | .permissionDenied .. => pure (name, .error (.denied name.text))
    | _ => pure (name, .error (.missing name.text))

/-- All bytes of a stream after those that are read already. -/
partial def readStream (stream : IO.FS.Stream) (done : ByteArray) : IO ByteArray := do
  let chunk ← stream.read 65536
  if chunk.isEmpty then pure done else readStream stream (done ++ chunk)

/-- A random identifier. -/
def randomId : IO Text := do
  pure (RandomId.ofBytes (← IO.getRandomBytes 16).toList)

/-- The time since the beginning of 1970 in seconds. -/
def clock : IO Double := do
  let now ← Std.Time.Timestamp.now
  pure (Double.ofRatio false now.toNanosecondsSinceUnixEpoch.val.toNat 1000000000)

/-- The moment of one encoding. -/
def moment : IO Moment := do
  pure ⟨← randomId, .zero false, ← clock, .none⟩

/-- Writes the lines of a log. -/
def writeLines (lines : List Emission) : IO Unit :=
  for e in lines do
    let time := match Timestamp.ofSeconds e.record.created with
      | .ok t => t.plainText
      | .error _ => []
    match e.line time with
    | .ok t => IO.eprintln t.toString
    | .error _ => pure ()

/-- Runs the command on the arguments of the process. -/
def main (arguments : List String) : IO UInt32 := do
  let environment ← Setting.all.mapM fun s => readVariable s.key
  match Settings.load Graph.empty environment.flatten [] with
  | .error (.issues es) =>
    IO.eprintln (Command.InputFlaw.report "Settings" es).toString
    pure 1
  | .error (.unreadable s) =>
    IO.eprintln (SettingsFailure.unreadableMessage s).toString
    pure 1
  | .error (.noLetters t) =>
    IO.eprintln (SettingsFailure.noLettersMessage t).toString
    pure 1
  | .error (.unencodable run) =>
    IO.eprintln run.message.toString
    pure 1
  | .ok settings =>
    let texts := arguments.map Text.ofString
    let files ← (Command.filesOf texts).mapM readSource
    let stdin ← if texts.contains Command.stdinName
      then readStream (← IO.getStdin) ByteArray.empty else pure ByteArray.empty
    let inputs : Command.Inputs :=
      ⟨decodeFile stdin.toList, fun n => (files.lookup n).getD (.error (.missing n.text))⟩
    let (_, outcome) := Command.run { Session.start with settings := settings } (← moment)
      (← randomId) inputs texts
    writeLines outcome.lines
    IO.print outcome.stdout.toString
    match outcome.ending with
    | .usage f => IO.eprintln f.line.toString
    | _ => pure ()
    pure (UInt32.ofNat outcome.ending.code)
