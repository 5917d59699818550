import RewindRelay.Demo
import RewindRelay.Http.Router
import RewindRelay.Replica
/-!
# Starting a relay

A relay starts with the streams that the operator names.  With a master they are loaded from it
before the first listener can come; with the demo source they are fed from it afterwards.

* `startupStreams` — the streams a relay starts with.
* `Relay.start` — a relay with these streams, loaded from its master if it has one.
-/

namespace RewindRelay

/-- The streams a relay starts with.  The demo source needs one to feed. -/
def startupStreams (names : List String) (demo : Bool) : List String :=
  if demo ∧ names.isEmpty then ["demo"] else names

def Relay.start (C : Codec) (fetch : String → Exchange) (settings : Settings)
    (names : List String) : Relay :=
  let empty : Registry := { window := settings.window }
  let registry := names.foldl (fun r name => (r.getOrCreate name).2) empty
  let registry := match settings.replication.masterUrl with
    | some master => registry.warmStartAll C fetch master
    | none => registry
  { settings, registry }

end RewindRelay
