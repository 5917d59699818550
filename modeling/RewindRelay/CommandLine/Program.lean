import RewindRelay.CommandLine.Command
import RewindRelay.Dump.Document
import RewindRelay.Dump.Report
import RewindRelay.Log.Filter
import RewindRelay.Settings
/-!
# The program

A run of the program reads its arguments, opens the log, and executes a command.  What it reads from
the machine it runs on is an argument here, and what it leaves behind is the answer, so a whole
run is a function.

* `Machine` — what a run reads from the machine.
* `Command.execute` — what comes of a command.
* `runProgram` — a run from the arguments to the exit code.
-/

namespace RewindRelay.CommandLine

open Log (Event Filter)

/-- What a run reads from the machine it runs on. -/
structure Machine where
  /-- The bytes of a file, or why it cannot be read. -/
  contentsOf : String → Except String Bytes
  environment : String → Option String
  /-- Why an address cannot be bound, if it cannot. -/
  refusesBind : Net.Endpoint → Option String
  /-- Can a log file be created? -/
  acceptsLog : Bool := true

/-! ## Commands -/

/-- Why a command failed. -/
inductive CommandError
  | relay (e : RelayError)
  | bind (endpoint : Net.Endpoint) (reason : String)
  /-- The log could not be opened. -/
  | logging

/-- What the user reads about a failure: the failure, then its causes. -/
def CommandError.messages : CommandError → List String
  | .relay e => e.message :: e.cause?.toList
  | .bind endpoint reason =>
    let address := endpoint.text
    ["relay server failed", s!"Failed to bind {address}: {reason}", reason]
  | .logging => ["initializing logging"]

/-- The first line of what the user reads about a failure. -/
def CommandError.headline (e : CommandError) : String := "Error: " ++ e.messages.headD ""

def CommandError.report (e : CommandError) : String :=
  match e.messages.drop 1 with
  | [] => e.headline
  | [cause] => e.headline ++ "\n\nCaused by:\n    " ++ cause
  | causes =>
    e.headline ++ "\n\nCaused by:" ++
      String.join (causes.mapIdx fun i cause => s!"\n    {i}: {cause}")

/-- What comes of a command. -/
inductive Result
  | shown (text : String)
  | failed (e : CommandError)
  /-- The relay runs until it is interrupted. -/
  | serves (settings : Settings) (options : ServeOptions)

/-- The settings of a relay: options go before the environment. -/
def ServeOptions.settings (o : ServeOptions) (environment : String → Option String) : Settings :=
  let s := Settings.ofEnvironment environment
  { s with
    window := { s.window with bufferSeconds := o.bufferSeconds.getD s.window.bufferSeconds }
    replication := { s.replication with masterUrl := o.master <|> s.replication.masterUrl } }

/-- Starts the relay, if its settings are usable and its address is free. -/
def ServeOptions.run (o : ServeOptions) (m : Machine) : Result :=
  let settings := o.settings m.environment
  match settings.validate with
  | .error e => .failed (.relay e)
  | .ok () =>
    let endpoint : Net.Endpoint := { address := o.host, port := o.port }
    match m.refusesBind endpoint with
    | some reason => .failed (.bind endpoint reason)
    | none => .serves settings o

def inspecting (file : String) (size : Nat) : Event :=
  { level := .info, target := "backwash::commands"
    message := s!"Inspecting {file} ({size} bytes)" }

def InspectOptions.run (o : InspectOptions) (m : Machine) : Result × List Event :=
  match m.contentsOf o.file with
  | .error reason => (.failed (.relay (.file reason)), [])
  | .ok data =>
    let result := match Report.ofBytes .json data with
      | .ok report => .shown (report.render o.perChunk)
      | .error e => .failed (.relay e)
    (result, [inspecting o.file data.length])

/-- Executes a command; the events are those it logs. -/
def Command.execute (m : Machine) : Command → Result × List Event
  | .serve o => (o.run m, [])
  | .inspect o => o.run m

/-! ## Runs -/

def versionText : String := "backwash 0.1.0\n"

/-- How the targets of the relay's own events start. -/
def relayTargets : List String := ["backwash", "backwash_core", "backwash_web"]

/-- The file that keeps the log of the last run. -/
def logPath : String := "logs/backwash-last-run.log"

def logOpened : Event :=
  { level := .debug, target := "backwash_core::tracing_setup"
    message := "Relay log file at " ++ logPath }

/-- What is shown on the console: what the environment says, or else the relay's own events up to
the level that was asked for.  There is no filter when a directive in the environment is torn. -/
def consoleFilter (environment : String → Option String) (level : Log.Level) : Option Filter :=
  let usual : Filter := .raising .warn relayTargets level
  match environment "RUST_LOG" with
  | none => some usual
  | some text =>
    match Filter.read text with
    | .ok f => some f
    | .error .unreadable => some usual
    | .error .torn => none

/-- The log file keeps all events of the relay. -/
def fileFilter : Filter := .raising .debug relayTargets .trace

/-- The event of a relay that has begun to serve. -/
def listeningOn (endpoint : Net.Endpoint) : Event :=
  { level := .info, target := "backwash_web::server"
    message := "Backwash relay listening on http://" ++ endpoint.text }

def shuttingDown : Event :=
  { level := .info, target := "backwash_web::server", message := "Shutting down" }

/-- What a run leaves behind. -/
structure Run where
  exitCode : Nat := 0
  output : String := ""
  console : List Event := []
  error : Option CommandError := none
  /-- The log file, if one was written. -/
  log : Option (List Event) := none
  /-- The relay that the run goes on to serve. -/
  serves : Option (Settings × ServeOptions) := none

/-- What a run leaves behind that stopped at its arguments.  The text of the help is not part of
this library. -/
def Run.ofStop (s : Stop) : Run :=
  { exitCode := s.exitCode, output := if s = .version then versionText else "" }

def Run.failed (r : Run) (e : CommandError) : Run := { r with exitCode := 1, error := some e }

/-- What a run leaves behind that ended for want of a filter. -/
def Run.aborted : Run := { exitCode := 101, log := some [] }

def runProgram (m : Machine) (args : List String) : Run :=
  match Invocation.read args with
  | .error s => .ofStop s
  | .ok i =>
    match m.acceptsLog, consoleFilter m.environment i.logLevel with
    | false, _ => Run.failed {} .logging
    | true, none => .aborted
    | true, some filter =>
      let (result, events) := i.command.execute m
      let events := logOpened :: events
      let run : Run :=
        { console := events.filter filter.passes, log := some (events.filter fileFilter.passes) }
      match result with
      | .shown text => { run with output := text }
      | .failed e => run.failed e
      | .serves settings options => { run with serves := some (settings, options) }

end RewindRelay.CommandLine
