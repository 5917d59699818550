import RewindRelay.Http.Router
/-!
# Sending bodies

The body of a response is sent piece by piece.  A dump gives a piece for each read, and ends when
its oldest chunk is sent; audio waits for the stream whenever the listener is up to date.

* `Piece` — what a body has to give when it is asked.
* `Relay.nextPiece` — asks a body.
-/

namespace RewindRelay

namespace Http

/-- What a body has to give when it is asked. -/
inductive Piece
  | data (bytes : Bytes)
  /-- Nothing now; the waker is told when there is more. -/
  | waiting
  | ended
  | failed (message : String)

/-- A poll of a listener as a piece of a body. -/
def Piece.ofPoll : Stream.PollOutcome → Piece
  | .data bytes => .data bytes
  | .pending => .waiting
  | .finished => .ended
  | .failed e => .failed e.message

/-- A read of a dump as a piece of a body. -/
def Piece.ofRead : Except FrameError (Option Bytes) → Piece
  | .ok (some bytes) => .data bytes
  | .ok none => .ended
  | .error e => .failed e.message

end Http

open Http (Body Piece)

def Relay.nextPiece (C : Codec) (relay : Relay) (waker : Waker) : Body → Piece × Body × Relay
  | .empty => (.ended, .empty, relay)
  | .rejection => (.ended, .empty, relay)
  | .document v => (.data v.render, .empty, relay)
  | .dump w => let (result, w) := w.poll C; (.ofRead result, .dump w, relay)
  | .audio id listener =>
    let body := Body.audio id listener
    match (relay.registry.stream? id).bind fun s => s.poll listener waker with
    | some (outcome, s) =>
      (.ofPoll outcome, body, { relay with registry := relay.registry.put id s })
    | none => (.ended, body, relay)

end RewindRelay
