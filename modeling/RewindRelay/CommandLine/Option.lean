/-!
# Reading options

Arguments are read from left to right.  An option is written `--name value`, `--name=value`,
`-n value`, `-nvalue` or `-n=value`; switches take no value, and after `--` every argument is an
operand.  A value in an argument of its own is examined only when the next option or operand is
accepted, or at the end, so of two faults the one that is met first is reported.

* `Stop` — why reading ends early.
* `Rule`, `Grammar` — the options and operands that a command has.
* `Reading.take` — what one argument does.
* `Grammar.read` — all arguments of a command.
-/

namespace RewindRelay.CommandLine

/-- Why reading the arguments ends early. -/
inductive Stop
  | unknownArgument
  /-- A value cannot be read as what the option wants. -/
  | unreadableValue
  /-- A value is missing, or is none of the possible ones. -/
  | invalidValue
  /-- A switch was given a value. -/
  | surplusValue
  /-- An option that may stand once stands twice. -/
  | repeated
  | missingOperand
  | missingCommand
  | unknownCommand
  /-- The user asked how to use the program. -/
  | help
  /-- The user asked for the version of the program. -/
  | version
  deriving DecidableEq, Repr

/-- The exit code that a stop leads to: asking is no fault. -/
def Stop.exitCode : Stop → Nat
  | .help | .version => 0
  | _ => 2

/-! ## Grammars -/

/-- A value that a command takes, and what it does to the settings `σ` of the command. -/
structure ValueRule (σ : Type) where
  name : String
  repeatable : Bool := false
  apply : String → σ → Except Stop σ

/-- What an option does. -/
inductive Action (σ : Type)
  /-- It ends the reading. -/
  | stop (s : Stop)
  | switch (name : String) (set : σ → σ)
  | value (rule : ValueRule σ)

/-- An option. -/
structure Rule (σ : Type) where
  long : String
  short : Option Char := none
  action : Action σ

/-- The options and operands of a command.  What a surplus operand is depends on whether it stands
after `--`. -/
structure Grammar (σ : Type) where
  options : List (Rule σ)
  operands : List (ValueRule σ) := []
  surplus : (afterDashes : Bool) → String → Stop := fun _ _ => .unknownArgument

def Grammar.long? {σ : Type} (g : Grammar σ) (name : String) : Option (Rule σ) :=
  g.options.find? fun rule => rule.long == name

def Grammar.short? {σ : Type} (g : Grammar σ) (letter : Char) : Option (Rule σ) :=
  g.options.find? fun rule => rule.short == some letter

/-! ## The state of a reading -/

/-- A value that was announced and is not examined yet. -/
inductive Pending (σ : Type)
  | nothing
  | awaited (rule : ValueRule σ)
  | given (rule : ValueRule σ) (text : String)

/-- How far a reading has come. -/
structure Reading (σ : Type) where
  settings : σ
  /-- The names of the options that were accepted. -/
  used : List String := []
  pending : Pending σ := .nothing
  operands : List (ValueRule σ)
  /-- Has `--` been read? -/
  afterDashes : Bool := false

namespace Reading

variable {σ : Type}

/-- Is the next argument the value of an option, unless it looks like an option itself? -/
def isAwaiting (r : Reading σ) : Bool :=
  match r.pending with
  | .awaited _ => !r.afterDashes
  | _ => false

/-- Accepts a value: an option that may stand once must not have been accepted before. -/
def accept (r : Reading σ) (rule : ValueRule σ) (text : String) : Except Stop (Reading σ) :=
  if !rule.repeatable && r.used.contains rule.name then .error .repeated
  else (rule.apply text r.settings).map fun settings =>
    { r with settings, used := rule.name :: r.used }

def resolve (r : Reading σ) : Except Stop (Reading σ) :=
  match r.pending with
  | .nothing => .ok r
  | .awaited _ => .error .invalidValue
  | .given rule text => { r with pending := .nothing }.accept rule text

/-- Accepts an option that stands without a value. -/
def takeBare (r : Reading σ) : Action σ → Except Stop (Reading σ)
  | .stop s => r.resolve.bind fun _ => .error s
  | .switch name set => do
    let r ← r.resolve
    if r.used.contains name then .error .repeated
    else .ok { r with settings := set r.settings, used := name :: r.used }
  | .value rule => do
    let r ← r.resolve
    .ok { r with pending := .awaited rule }

/-- Accepts an option with a value attached by an equals sign. -/
def takeAttached (r : Reading σ) (text : String) : Action σ → Except Stop (Reading σ)
  | .stop _ | .switch _ _ => .error .surplusValue
  | .value rule => do
    let r ← r.resolve
    r.accept rule text

/-- Takes an argument that starts with two dashes, given what follows them. -/
def takeLong (g : Grammar σ) (r : Reading σ) (body : List Char) : Except Stop (Reading σ) :=
  let name := String.ofList (body.takeWhile fun c => c != '=')
  match g.long? name, body.dropWhile fun c => c != '=' with
  | none, _ => .error .unknownArgument
  | some rule, [] => r.takeBare rule.action
  | some rule, _ :: value => r.takeAttached (String.ofList value) rule.action

/-- Takes the letters of an argument that starts with one dash.  The first option with a value
takes all that is left. -/
def takeShort (g : Grammar σ) : Reading σ → List Char → Except Stop (Reading σ)
  | r, [] => .ok r
  | r, letter :: rest =>
    match g.short? letter with
    | none => .error .unknownArgument
    | some rule =>
      match rule.action, rest with
      | .value value, '=' :: text => r.takeAttached (String.ofList text) (.value value)
      | .value value, c :: text => r.takeAttached (String.ofList (c :: text)) (.value value)
      | action, rest => (r.takeBare action).bind fun r => takeShort g r rest

def takePlain (g : Grammar σ) (r : Reading σ) (text : String) : Except Stop (Reading σ) :=
  match r.isAwaiting, r.pending with
  | true, .awaited rule => .ok { r with pending := .given rule text }
  | _, _ =>
    match r.operands with
    | rule :: operands => do
      let r ← r.resolve
      .ok { r with operands, pending := .given rule text }
    | [] => .error (g.surplus r.afterDashes text)

def take (g : Grammar σ) (r : Reading σ) (text : String) : Except Stop (Reading σ) :=
  if r.afterDashes then r.takePlain g text
  else match text.toList with
    | ['-', '-'] => .ok { r with afterDashes := true }
    | '-' :: '-' :: body => r.takeLong g body
    | '-' :: letter :: rest => r.takeShort g (letter :: rest)
    | _ => r.takePlain g text

end Reading

def Grammar.start {σ : Type} (g : Grammar σ) (settings : σ) : Reading σ :=
  { settings, operands := g.operands }

/-- Reads all arguments of a command.  Every operand has to be there. -/
def Grammar.read {σ : Type} (g : Grammar σ) (settings : σ) (args : List String) :
    Except Stop σ := do
  let r ← args.foldlM (Reading.take g) (g.start settings)
  let r ← r.resolve
  if r.operands.isEmpty then .ok r.settings else .error .missingOperand

end RewindRelay.CommandLine
