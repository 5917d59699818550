import RewindRelay.Arithmetic
import RewindRelay.Dump.Frame
import RewindRelay.Decimal.Layout
/-!
# Errors

Every failure is a cause with the facts that belong to it; its wording is a function of the cause.
A stream refuses an operation with a `StreamError`; what reaches the operator of a relay is a
`RelayError`.  A listener may also fail to join because the moment that it asks for cannot be looked
up.

* `StreamError.message` — why a stream refused.
* `Refusal` — why a listener did not join.
* `RelayError.message`, `RelayError.userMessage` — the same failure for the log and for people.
* `RelayError.chain` — the message followed by its causes.
-/

namespace RewindRelay

/-- Why a stream refused an operation. -/
inductive StreamError
  | destroyed (stream : String)
  | invalidVitals (streamKey : String) (chunkDuration : Float)
  | noVitals (stream : String)
  | loading (stream : String)
  | outOfOrder (ts : Int64)

def StreamError.message : StreamError → String
  | .destroyed stream => s!"rewind buffer for {stream} has been destroyed"
  | .invalidVitals key duration =>
    let written := Decimal.Layout.plain.text duration
    s!"invalid vitals for {key}: chunk duration {written}"
  | .noVitals stream => s!"rewind buffer for {stream} has no vitals yet"
  | .loading stream => s!"rewind buffer for {stream} is loading"
  | .outOfOrder ts =>
    let written := Decimal.intText ts.toInt
    s!"chunk at ts {written} is out of order for the buffered span"

/-- Why a listener did not join. -/
inductive Refusal
  /-- The stream does not take it. -/
  | stream (e : StreamError)
  /-- The lookup of its moment failed. -/
  | fault (f : Fault)

def Refusal.message : Refusal → String
  | .stream e => e.message
  | .fault f => f.message

/-- What can go wrong in a relay. -/
inductive RelayError
  | stream (e : StreamError)
  | frame (e : FrameError)
  | configuration (reason : String)
  | file (message : String)

namespace RelayError

def message : RelayError → String
  | .stream e => "Rewind error: " ++ e.message
  | .frame e => "Dump format error: " ++ e.message
  | .configuration reason => "Configuration error: " ++ reason
  | .file reason => "I/O error: " ++ reason

/-- The same failure in words for people who only use the relay. -/
def userMessage : RelayError → String
  | .stream (.destroyed name) => s!"Stream {name} has shut down"
  | .stream (.noVitals name) => s!"Stream {name} has not reported its encoding yet"
  | .stream (.invalidVitals key _) => s!"Stream {key} reported an unusable encoding"
  | .stream (.outOfOrder _) => "Audio arrived out of order"
  | .stream (.loading name) => s!"Stream {name} is loading its history, try again shortly"
  | .frame _ => "Rewind dump is damaged or incomplete"
  | .configuration reason => "Configuration error: " ++ reason
  | .file _ => "File system error occurred"

def isUserError : RelayError → Bool
  | .configuration _ => true
  | _ => false

/-- The cause of a failure, where it has one of its own. -/
def cause? : RelayError → Option String
  | .stream e => some e.message
  | .frame e => some e.message
  | .configuration _ => none
  | .file reason => some reason

def chain (e : RelayError) : String := String.intercalate ": " (e.message :: e.cause?.toList)

end RelayError

end RewindRelay
