import RewindRelay.Registry
import RewindRelay.Stream.Preload
/-!
# Warm starts from a master

A relay that is started as a replica fetches the dump of each of its streams from the master, so
that listeners have history from the first second.  How a URL is fetched is left to the caller.

* `rewindUrl` — the address of a stream's dump on the master.
* `Exchange` — what comes of fetching it.
* `Registry.warmStart` — one stream.
* `Registry.warmStartAll` — all registered streams; failures leave a stream empty.
-/

namespace RewindRelay

/-- A text without slashes at its end. -/
def dropTrailingSlashes (text : String) : String :=
  String.ofList (text.toList.reverse.dropWhile (· == '/')).reverse

/-- The address of a stream's dump on the master.  The name is not escaped. -/
def rewindUrl (master stream : String) : String :=
  dropTrailingSlashes master ++ "/streams/" ++ stream ++ "/rewind"

/-- What comes of fetching an address. -/
inductive Exchange
  | failed (reason : String)
  | answered (status : Nat) (body : List TransportEvent)

/-- Why a warm start failed before anything was loaded. -/
inductive ReplicaError
  | unreachable (url reason : String)
  | refused (url : String) (status : Nat)
  deriving DecidableEq, Repr

def ReplicaError.message : ReplicaError → String
  | .unreachable url reason => s!"Request to master {url} failed: {reason}"
  | .refused url status => s!"Master {url} answered with status {status}"

def isSuccess (status : Nat) : Bool := 200 ≤ status ∧ status < 300

/-- Loads a stream from the master's dump of the stream of the same name. -/
def Stream.warmStart (C : Codec) (fetch : String → Exchange) (master : String) (s : Stream) :
    Except ReplicaError Summary × Stream :=
  let url := rewindUrl master s.name
  match fetch url with
  | .failed reason => (.error (.unreachable url reason), s)
  | .answered status body =>
    if isSuccess status then
      let (summary, s') := s.preload C body
      (.ok summary, s')
    else (.error (.refused url status), s)

namespace Registry

def warmStart (C : Codec) (fetch : String → Exchange) (master : String) (r : Registry)
    (id : StreamId) : Option (Except ReplicaError Summary × Registry) :=
  r.serve id (Stream.warmStart C fetch master)

def warmStartAll (C : Codec) (fetch : String → Exchange) (master : String) (r : Registry) :
    Registry :=
  r.all.foldl (fun r entry =>
    match r.warmStart C fetch master entry.2 with
    | some (_, r') => r'
    | none => r) r

end Registry

end RewindRelay
