/-!
# Log levels

Every event has a level, and a filter lets through the events up to a level.

* `Level` — from errors to traces.
* `Level.named?` — the level that an operator names.
-/

namespace RewindRelay.Log

/-- How much an event matters, the most important first. -/
inductive Level
  | error
  | warn
  | info
  | debug
  | trace
  deriving DecidableEq, Repr

namespace Level

def all : List Level := [.error, .warn, .info, .debug, .trace]

/-- Higher ranks are let through by fewer filters. -/
def rank : Level → Nat
  | .error => 1
  | .warn => 2
  | .info => 3
  | .debug => 4
  | .trace => 5

def name : Level → String
  | .error => "error"
  | .warn => "warn"
  | .info => "info"
  | .debug => "debug"
  | .trace => "trace"

/-- The name of a level as it stands in log lines. -/
def label (level : Level) : String := level.name.toUpper

def named? (ignoreCase : Bool) (text : String) : Option Level :=
  let text := if ignoreCase then text.toLower else text
  all.find? fun level => level.name == text

end Level

end RewindRelay.Log
