import RewindRelay.Service
/-!
# The command line program

The outermost layer: it collects what a run reads from the machine, asks the library what the run
comes to, and writes the answer.

* `machineFor` — what a run reads.
* `main` — a run.
-/

namespace RewindRelay

open CommandLine (Command CommandError Invocation Machine Run Stop runProgram)

/-! ## What a run reads -/

/-- Why a file cannot be read, in the words of the system. -/
def fileReason : IO.Error → String
  | .noFileOrDirectory _ _ _ => "No such file or directory (os error 2)"
  | .permissionDenied _ _ _ => "Permission denied (os error 13)"
  | .inappropriateType _ _ _ => "Is a directory (os error 21)"
  | .noSuchThing _ _ _ => "Not a directory (os error 20)"
  | e => toString e

/-- The bytes of a file, or why it cannot be read. -/
def readContents (path : String) : IO (Except String Bytes) := do
  try
    return .ok (← IO.FS.readBinFile path).toList
  catch e => return .error (fileReason e)

/-- Creates the log file; nothing when it cannot be created. -/
def openLog : IO (Option IO.FS.Handle) := do
  try
    IO.FS.createDirAll "logs"
    return some (← IO.FS.Handle.mk CommandLine.logPath .write)
  catch _ => return none

/-- The variables of the environment that a run looks at. -/
def environmentNames : List String := "RUST_LOG" :: Settings.environmentNames

def machineFor (invocation : Except Stop Invocation) (acceptsLog : Bool) : IO Machine := do
  let contents ← match invocation with
    | .ok { command := .inspect options, .. } => readContents options.file
    | _ => pure (.error "")
  let values ← environmentNames.mapM fun name => do return (name, ← IO.getEnv name)
  return {
    contentsOf := fun _ => contents
    environment := fun name => (values.lookup name).join
    refusesBind := fun _ => none
    acceptsLog }

/-! ## What a run writes -/

/-- What the user reads when the arguments cannot be used. -/
def usage : Stop → String
  | .version => ""
  | _ =>
    "Usage: backwash [--log-level LEVEL] serve [--host IP] [-p PORT] [-s STREAM]... [--demo] "
      ++ "[--master URL] [--buffer-seconds SECONDS]\n"
      ++ "       backwash [--log-level LEVEL] inspect [--chunks] FILE\n"

def writeEvent (out : IO.FS.Stream) (e : Log.Event) : IO Unit := do
  out.putStr (e.level.label ++ " " ++ e.message ++ "\n")
  out.flush

/-- Writes an event of a running relay wherever the filters let it through. -/
def logLive (m : Machine) (level : Log.Level) (file : Option IO.FS.Handle) (e : Log.Event) :
    IO Unit := do
  if (CommandLine.consoleFilter m.environment level).any (·.passes e) then
    writeEvent (← IO.getStdout) e
  if CommandLine.fileFilter.passes e then
    if let some handle := file then writeEvent (.ofHandle handle) e

def writeFailure (e : CommandError) : IO Unit := do
  (← IO.getStderr).putStr (e.report ++ "\n")

/-- Writes what a run leaves behind, and serves if that is what the run is for. -/
def finishRun (m : Machine) (invocation : Invocation) (file : Option IO.FS.Handle) (run : Run) :
    IO UInt32 := do
  let out ← IO.getStdout
  for e in run.console do writeEvent out e
  if let some handle := file then
    for e in run.log.getD [] do writeEvent (.ofHandle handle) e
  out.putStr run.output
  out.flush
  if let some e := run.error then writeFailure e
  match run.serves with
  | none => return UInt32.ofNat run.exitCode
  | some (settings, options) =>
    match ← (runService (logLive m invocation.logLevel file) settings options).block with
    | .ok () => return 0
    | .error e =>
      writeFailure e
      return 1

end RewindRelay

open RewindRelay in
def main (args : List String) : IO UInt32 := do
  let invocation := CommandLine.Invocation.read args
  match invocation with
  | .error stop =>
    let run := CommandLine.Run.ofStop stop
    let out ← if run.exitCode = 0 then IO.getStdout else IO.getStderr
    out.putStr (run.output ++ usage stop)
    return UInt32.ofNat run.exitCode
  | .ok i =>
    let file ← openLog
    let machine ← machineFor invocation file.isSome
    finishRun machine i file (CommandLine.runProgram machine args)
