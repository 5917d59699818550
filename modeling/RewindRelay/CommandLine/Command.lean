import RewindRelay.CommandLine.Option
import RewindRelay.Decimal.Reader
import RewindRelay.Log.Level
import RewindRelay.Net.Address
/-!
# Commands

The program has two commands: one runs the relay, the other shows what a saved dump holds.

* `ServeOptions`, `Command` — what the user asks for.
* `Command.read` — a command from its arguments.
* `Invocation.read` — all arguments of the program, with the log level.
-/

namespace RewindRelay.CommandLine

/-- What the relay binds to and which streams it starts with. -/
structure ServeOptions where
  host : Net.Address := .loopback
  port : UInt16 := 8090
  /-- Streams that are created at the start. -/
  streams : List String := []
  /-- Feed the streams from the synthetic source. -/
  demo : Bool := false
  master : Option String := none
  bufferSeconds : Option Float := none

/-- What to show of a dump. -/
structure InspectOptions where
  file : String := ""
  /-- Show a line for each chunk. -/
  perChunk : Bool := false

/-- A command. -/
inductive Command
  | serve (options : ServeOptions)
  | inspect (options : InspectOptions)

/-- A command with the settings that go for all commands. -/
structure Invocation where
  logLevel : Log.Level := .info
  command : Command

/-- What has been read of a command so far. -/
structure Draft (α : Type) where
  options : α
  logLevel : Option Log.Level := none

/-! ## Rules -/

/-- A value that is read, and then stored in the settings. -/
def ValueRule.of {σ β : Type} (name : String) (repeatable : Bool)
    (read : String → Except Stop β) (store : β → σ → σ) : ValueRule σ :=
  { name, repeatable, apply := fun text settings => (read text).map fun x => store x settings }

/-- An option with a value that may stand once. -/
def Rule.single {σ β : Type} (name : String) (read : String → Except Stop β)
    (store : β → σ → σ) (short : Option Char := none) : Rule σ :=
  { long := name, short, action := .value (.of name false read store) }

/-- A value that reads as something, or is refused. -/
def readable {β : Type} (read? : String → Option β) (text : String) : Except Stop β :=
  match read? text with
  | some x => .ok x
  | none => .error .unreadableValue

def readPort? (text : String) : Option UInt16 :=
  (Decimal.readInt? 0 65535 text).map fun i => UInt16.ofNat i.toNat

/-- The name of a file, which is not empty. -/
def readFileName (text : String) : Except Stop String :=
  if text.isEmpty then .error .invalidValue else .ok text

def readLogLevel (text : String) : Except Stop Log.Level :=
  match Log.Level.named? false text with
  | some level => .ok level
  | none => .error .invalidValue

def helpRule {σ : Type} : Rule σ := { long := "help", short := some 'h', action := .stop .help }

def versionRule {σ : Type} : Rule σ :=
  { long := "version", short := some 'V', action := .stop .version }

def logLevelRule {α : Type} : Rule (Draft α) :=
  .single "log-level" readLogLevel fun level d => { d with logLevel := some level }

def serveRules : List (Rule (Draft ServeOptions)) :=
  let store {β : Type} (f : β → ServeOptions → ServeOptions) (x : β) (d : Draft ServeOptions) :=
    { d with options := f x d.options }
  [.single "host" (readable Net.Address.read?) (store fun host o => { o with host }),
   .single "port" (readable readPort?) (store fun port o => { o with port }) (some 'p'),
   { long := "stream", short := some 's', action := .value (.of "stream" true .ok
      (store fun name o => { o with streams := o.streams ++ [name] })) },
   { long := "demo", action := .switch "demo" (store (fun _ o => { o with demo := true }) ()) },
   .single "master" .ok (store fun master o => { o with master := some master }),
   .single "buffer-seconds" (readable Decimal.readDouble?)
    (store fun seconds o => { o with bufferSeconds := some seconds })]

def inspectRules : List (Rule (Draft InspectOptions)) :=
  [{ long := "chunks", action := .switch "chunks" fun d =>
      { d with options := { d.options with perChunk := true } } }]

def fileRule : ValueRule (Draft InspectOptions) :=
  .of "file" false readFileName fun file d => { d with options := { d.options with file } }

/-! ## Reading -/

/-- The words that can stand in the place of a command. -/
inductive Keyword
  | serve
  | inspect
  | help
  deriving DecidableEq, Repr

def Keyword.of? (text : String) : Option Keyword :=
  if text = "serve" then some .serve
  else if text = "inspect" then some .inspect
  else if text = "help" then some .help
  else none

/-- The user asked for help by a command: about the program, or about one keyword. -/
def helpOn (topics : List String) : Stop :=
  match topics with
  | [] => .help
  | [topic] => if (Keyword.of? topic).isSome then .help else .unknownCommand
  | _ => .unknownCommand

/-- An operand in the place of a command.  A command may not stand after `--`. -/
def strayOperand (afterDashes : Bool) (text : String) : Stop :=
  if afterDashes ∧ (Keyword.of? text).isSome then .unknownArgument else .unknownCommand

/-- Reads arguments up to the keyword of a command. -/
def readToKeyword {σ : Type} (g : Grammar σ) :
    Reading σ → List String → Except Stop (Reading σ × Option (Keyword × List String))
  | r, [] => .ok (r, none)
  | r, arg :: rest =>
    match if r.afterDashes || r.isAwaiting then none else Keyword.of? arg with
    | some keyword => .ok (r, some (keyword, rest))
    | none => (r.take g arg).bind fun r => readToKeyword g r rest

/-- Reads a command.  `shared` are options that every command and the program itself take, `own`
those that only the program takes.  A level that stands after the command goes before one that
stands ahead of it. -/
def readWith (shared : {α : Type} → List (Rule (Draft α))) (own : List (Rule (Draft Unit)))
    (args : List String) : Except Stop Invocation := do
  let top : Grammar (Draft Unit) :=
    { options := helpRule :: own ++ shared, surplus := strayOperand }
  let (r, found) ← readToKeyword top (top.start { options := () }) args
  match found with
  | none => do
    let _ ← r.resolve
    .error .missingCommand
  | some (.help, topics) => .error (helpOn topics)
  | some (.serve, rest) => do
    let g : Grammar (Draft ServeOptions) := { options := helpRule :: serveRules ++ shared }
    let d ← g.read { options := {} } rest
    let r ← r.resolve
    .ok { logLevel := (d.logLevel <|> r.settings.logLevel).getD .info, command := .serve d.options }
  | some (.inspect, rest) => do
    let g : Grammar (Draft InspectOptions) :=
      { options := helpRule :: inspectRules ++ shared, operands := [fileRule] }
    let d ← g.read { options := {} } rest
    let r ← r.resolve
    .ok { logLevel := (d.logLevel <|> r.settings.logLevel).getD .info
          command := .inspect d.options }

/-- A command from its arguments, without the settings that go for all commands. -/
def Command.read (args : List String) : Except Stop Command :=
  (readWith [] [] args).map Invocation.command

/-- A command with its settings from the arguments of the program. -/
def Invocation.read (args : List String) : Except Stop Invocation :=
  readWith [logLevelRule] [versionRule] args

end RewindRelay.CommandLine
