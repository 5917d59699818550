import RewindRelay.Settings
import RewindRelay.Stream.Listening
/-!
# The registry of streams

Streams are found by name and created when they are first asked for.  A stream that is removed is
destroyed; whoever still holds it can go on using it, but its name is free again.

Looking a name up and creating its stream are two steps.  Another task may create or remove the
stream in between, so the second step looks again.

* `Registry` — every stream there ever was, and the names in use.
* `Registry.find?`, `Registry.obtain` — the two steps of `Registry.getOrCreate`.
* `Registry.all`, `Registry.remove`, `Registry.shutdown` — the other operations.
-/

namespace RewindRelay

/-- Streams are told apart by the order in which they were created. -/
abbrev StreamId := Nat

/-- The streams of a relay. -/
structure Registry where
  window : WindowSettings := {}
  /-- Every stream that was created, in order. -/
  streams : List Stream := []
  /-- The names in use. -/
  names : List (String × StreamId) := []

namespace Registry

def stream? (r : Registry) (id : StreamId) : Option Stream := r.streams[id]?

def put (r : Registry) (id : StreamId) (s : Stream) : Registry :=
  { r with streams := r.streams.set id s }

/-- Runs an operation of the stream with this number; nothing when there is no such stream. -/
def serve {α : Type} (r : Registry) (id : StreamId) (f : Stream → α × Stream) :
    Option (α × Registry) :=
  (r.stream? id).map fun s =>
    let (a, s') := f s
    (a, r.put id s')

def find? (r : Registry) (name : String) : Option StreamId := r.names.lookup name

/-- The stream registered under a name, which is created if there is none. -/
def obtain (r : Registry) (name : String) : StreamId × Registry :=
  match r.find? name with
  | some id => (id, r)
  | none =>
    let id := r.streams.length
    (id, { r with
      streams := r.streams ++ [.new name r.window.bufferSeconds r.window.readSize]
      names := r.names ++ [(name, id)] })

/-- Looks a name up and creates its stream if there is none. -/
def getOrCreate (r : Registry) (name : String) : StreamId × Registry :=
  match r.find? name with
  | some id => (id, r)
  | none => r.obtain name

/-- Names are listed in order. -/
def nameLe (a b : String × StreamId) : Bool := a.1 ≤ b.1

def all (r : Registry) : List (String × StreamId) := r.names.mergeSort nameLe

def destroy (r : Registry) (id : StreamId) : Registry :=
  { r with streams := r.streams.modify id Stream.destroy }

/-- Removes and destroys the stream registered under a name, if there is one. -/
def remove (r : Registry) (name : String) : Bool × Registry :=
  match r.find? name with
  | some id => (true, { r.destroy id with names := r.names.filter fun entry => entry.1 != name })
  | none => (false, r)

/-- Removes and destroys every registered stream. -/
def shutdown (r : Registry) : Registry :=
  { r.names.foldl (fun r entry => r.destroy entry.2) r with names := [] }

/-- One round of housekeeping over all registered streams. -/
def housekeep (r : Registry) (maxBytes : Nat) : Registry :=
  r.all.foldl (fun r entry =>
    { r with streams := r.streams.modify entry.2 fun s => s.housekeep maxBytes }) r

end Registry

end RewindRelay
