import RewindRelay.Stream.Basic
import RewindRelay.Dump.Loader
/-!
# Preloading a stream from a dump

A preload replaces the audio of a stream by the contents of a dump.  It runs in steps, between
which the stream may be used: the stream is cleared and marked as loading, each frame is applied
as soon as it is decoded, and the mark is taken away at the end.  Damage and transport failures
end a preload early; what was applied stays.

* `Preload` — a preload that is running.
* `Summary` — what came of it.
* `Stream.beginPreload`, `Stream.advance`, `Stream.transport`, `Stream.abandon` — its steps.
* `Stream.preload` — all steps in a row.
-/

namespace RewindRelay

/-- What came of a preload. -/
structure Summary where
  header : Option Header := none
  loaded : Nat := 0
  skipped : Nat := 0
  /-- Why the transfer ended early. -/
  error : Option String := none

/-- Did the transfer reach a clean end? -/
def Summary.isComplete (s : Summary) : Bool := s.error.isNone && s.header.isSome

/-- A preload that is running. -/
structure Preload where
  loader : Loader := {}
  summary : Summary := {}

/-- What the transport brings. -/
inductive TransportEvent
  | bytes (data : Bytes)
  | failed (reason : String)
  | closed

namespace Stream

/-- Starts a preload: the audio is discarded and the stream marked as loading. -/
def beginPreload (s : Stream) : Stream := { s with store := s.store.clear, loading := true }

/-- A preload has ended, in whatever way. -/
def abandon (s : Stream) : Stream := { s with loading := false }

/-- Applies a decoded frame.  Chunks of a dump are stored but not delivered. -/
def applyFrame (s : Stream) (summary : Summary) :
    Frame → Except StreamError Summary × Stream
  | .header h =>
    match s.updateVitals h.vitals with
    | (.ok _, s') => (.ok { summary with header := some h }, s')
    | (.error e, s') => (.error e, s')
  | .chunk c =>
    if s.destroyed then (.error (.destroyed s.name), s)
    else
      let (outcome, store) := s.store.insert c
      let summary :=
        if outcome.isStored then { summary with loaded := summary.loaded + 1 }
        else { summary with skipped := summary.skipped + 1 }
      (.ok summary, { s with store })

/-- Where a preload stands after a step. -/
inductive Progress
  /-- More bytes are needed. -/
  | starved (p : Preload)
  /-- A frame was applied. -/
  | applied (p : Preload)
  /-- The preload is over. -/
  | ended (summary : Summary)

/-- Ends a preload, with the reason if there is one. -/
def endPreload (s : Stream) (summary : Summary) (reason : Option String) : Progress × Stream :=
  (.ended { summary with error := reason }, s.abandon)

/-- Decodes and applies one frame. -/
def advance (C : Codec) (s : Stream) (p : Preload) : Progress × Stream :=
  match p.loader.nextFrame C with
  | (.ok none, loader) => (.starved { p with loader }, s)
  | (.error e, _) => s.endPreload p.summary (some e.message)
  | (.ok (some f), loader) =>
    match s.applyFrame p.summary f with
    | (.ok summary, s') => (.applied { loader, summary }, s')
    | (.error e, s') => s'.endPreload p.summary (some e.message)

/-- Applies up to `limit` frames, as long as whole ones are there. -/
def advanceUpTo (C : Codec) : (limit : Nat) → Stream → Preload → Progress × Stream
  | 0, s, p => (.starved p, s)
  | limit + 1, s, p =>
    match s.advance C p with
    | (.applied p', s') => advanceUpTo C limit s' p'
    | result => result

/-- Takes what the transport brings, and applies every frame that is there as a whole. -/
def transport (C : Codec) (s : Stream) (p : Preload) : TransportEvent → Progress × Stream
  | .bytes data =>
    let p := { p with loader := p.loader.feed data }
    advanceUpTo C (p.loader.buffered + 1) s p
  | .failed reason => s.endPreload p.summary (some reason)
  | .closed =>
    match p.loader.finish with
    | .ok () => s.endPreload p.summary none
    | .error e => s.endPreload p.summary (some e.message)

/-- Takes several transport events.  Once the preload is over the others are ignored. -/
def transportAll (C : Codec) (s : Stream) (p : Preload) :
    List TransportEvent → Progress × Stream
  | [] => (.starved p, s)
  | event :: rest =>
    match s.transport C p event with
    | (.ended summary, s') => (.ended summary, s')
    | (.starved p', s') | (.applied p', s') => transportAll C s' p' rest

/-- A whole preload, with nothing in between. -/
def preload (C : Codec) (s : Stream) (events : List TransportEvent) : Summary × Stream :=
  match transportAll C s.beginPreload {} (events ++ [.closed]) with
  | (.ended summary, s') => (summary, s')
  | (.starved p, s') | (.applied p, s') => (p.summary, s'.abandon)

end Stream

end RewindRelay
