import RewindRelay.Http.Target
import RewindRelay.Registry
import RewindRelay.Stream.Preload
import RewindRelay.Stream.Status
/-!
# The HTTP interface

A relay answers five kinds of request: the list of streams, the status of one stream, audio for a
listener, a dump of a stream, and an upload that replaces a stream's audio.  Requests that browsers
send to ask for permission are always granted.

* `Request`, `Response`, `Body` — what is asked and answered.
* `Route.of?` — what a path names.
* `Relay.handle` — the answer to a request.
-/

namespace RewindRelay

/-- A relay: its settings and its streams. -/
structure Relay where
  settings : Settings := {}
  registry : Registry := {}
  /-- Seconds since the relay was started. -/
  uptime : Nat := 0

namespace Http

open Json (Value)
open Json.Value (field ofString ofFloat ofInt ofNat ofOption)

/-- A request.  The body is what the transport brings before it ends. -/
structure Request where
  method : String := "GET"
  target : String
  body : List TransportEvent := []

/-- The body of a response. -/
inductive Body
  | empty
  /-- A line of text that explains why the request could not be read. -/
  | rejection
  | document (v : Value)
  | dump (w : DumpWriter)
  | audio (stream : StreamId) (listener : ListenerId)

/-- A response. -/
structure Response where
  status : Nat
  contentType : Option String := none
  cacheControl : Option String := none
  body : Body := .empty

def Response.ofStatus (status : Nat) : Response := { status }

def Response.badRequest : Response :=
  { status := 400, contentType := some "text/plain; charset=utf-8", body := .rejection }

def Response.ofDocument (status : Nat) (v : Value) : Response :=
  { status, contentType := some "application/json", body := .document v }

/-- The header fields by which browsers learn that pages of every origin may use the relay. -/
def permissionFields (method : String) : List (String × String) :=
  [("access-control-allow-origin", "*"),
   ("vary", "origin, access-control-request-method, access-control-request-headers")] ++
  if method = "OPTIONS" then
    [("access-control-allow-methods", "*"), ("access-control-allow-headers", "*")]
  else [("access-control-expose-headers", "*")]

/-- The status under which a client sees that a stream refused. -/
def errorStatus : StreamError → Nat
  | .destroyed _ => 410
  | .noVitals _ | .loading _ => 503
  | .invalidVitals _ _ | .outOfOrder _ => 422

/-- What becomes of a request. -/
inductive Outcome
  /-- The answer has to wait for a preload to end. -/
  | waiting
  | answered (r : Response) (relay : Relay)
  /-- There is no answer: the connection breaks off. -/
  | broken

/-- The client of a body is gone, and so is its listener. -/
def closeBody (relay : Relay) : Body → Relay
  | .audio id listener =>
    match relay.registry.stream? id with
    | some s => { relay with registry := relay.registry.put id (s.forget listener) }
    | none => relay
  | _ => relay

/-! ## Routes -/

/-- What the last segment of a stream's path asks for. -/
inductive Aspect
  | status
  | listen
  | rewind
  deriving DecidableEq, Repr

/-- What a path names. -/
inductive Route
  | streams
  /-- Something of a stream, whose name is still escaped. -/
  | stream (key : String) (aspect : Aspect)
  deriving DecidableEq, Repr

/-- What a path names, if anything.  The name of a stream may be empty. -/
def Route.of? : List String → Option Route
  | ["api", "streams"] => some .streams
  | ["streams", key, "status"] => some (.stream key .status)
  | ["streams", key, "listen"] => some (.stream key .listen)
  | ["streams", key, "rewind"] => some (.stream key .rewind)
  | _ => none

/-! ## Status documents -/

/-- The status of a stream and what is playing on it, as a document. -/
def statusDocument (s : Stream) : Value :=
  .object (s.status.fields ++ [field "now_playing" (ofOption Metadata.toJson s.nowPlaying)])

def listStreams (relay : Relay) : Response :=
  let streams := relay.registry.all.filterMap fun entry => relay.registry.stream? entry.2
  .ofDocument 200 (Value.sorted (.object [
    field "streams" (.array (streams.map statusDocument)),
    field "total" (ofNat streams.length),
    field "uptime_secs" (ofNat relay.uptime)]))

/-! ## Listening -/

/-- What a listener can ask for in a query. -/
structure ListenQuery where
  offset : Option Float := none
  burst : Option Float := none
  pump : Option Bool := none
  ts : Option Int64 := none

def readBool? (text : String) : Option Bool :=
  if text = "true" then some true else if text = "false" then some false else none

/-- Takes one name and value.  Unknown names are ignored; a known one may stand once and its value
must be readable. -/
def ListenQuery.take (q : ListenQuery) (name value : String) : Option ListenQuery :=
  match name with
  | "offset" =>
    if q.offset.isSome then none
    else (Decimal.readDouble? value).map fun x => { q with offset := some x }
  | "burst" =>
    if q.burst.isSome then none
    else (Decimal.readDouble? value).map fun x => { q with burst := some x }
  | "pump" =>
    if q.pump.isSome then none else (readBool? value).map fun x => { q with pump := some x }
  | "ts" =>
    if q.ts.isSome then none
    else (Decimal.readInt64? value).map fun x => { q with ts := some x }
  | _ => some q

/-- The query of a listener, if it can be read. -/
def ListenQuery.of? (query : String) : Option ListenQuery :=
  (queryPairs query).foldlM (fun q pair => q.take pair.1 pair.2) {}

/-- What a query means, with the usual burst where none is given. -/
def ListenQuery.options (q : ListenQuery) (burstSeconds : Float) : ListenOptions :=
  { offsetSeconds := q.offset.getD 0
    burstSeconds := q.burst.getD burstSeconds
    pumpAndFinish := q.pump.getD false
    timestamp := q.ts }

/-- Can the text stand in a header?  Control characters other than the tab cannot. -/
def isHeaderValue (text : String) : Bool :=
  (Bytes.utf8 text).all fun b => b = 9 ∨ (32 ≤ b ∧ b ≠ 127)

/-- The content type of audio whose encoding does not say. -/
def fallbackContentType : String := "application/octet-stream"

/-- A listener joins a stream.  When its content type cannot be written the listener leaves
again. -/
def listen (relay : Relay) (id : StreamId) (s : Stream) (query : ListenQuery) : Outcome :=
  match s.listen (query.options relay.settings.window.burstSeconds) with
  | .waiting => .waiting
  | .refused (.stream e) => .answered (.ofStatus (errorStatus e)) relay
  | .refused (.fault _) => .broken
  | .joined listener s' =>
    let contentType := (s'.vitals.bind Vitals.contentType).getD fallbackContentType
    if isHeaderValue contentType then
      .answered
        { status := 200, contentType := some contentType
          cacheControl := some "no-cache, no-store", body := .audio id listener }
        { relay with registry := relay.registry.put id s' }
    else
      .answered (.ofStatus 500)
        { relay with registry := relay.registry.put id (s'.forget listener) }

/-! ## Dumps -/

def dump (s : Stream) : Response :=
  match s.dump with
  | .ok w =>
    { status := 200, contentType := some "application/octet-stream"
      cacheControl := some "no-store", body := .dump w }
  | .error e => .ofStatus (errorStatus e)

def uploadDocument (stream : String) (s : Summary) : Value :=
  .object [field "stream" (ofString stream),
    field "chunks_loaded" (ofNat s.loaded), field "chunks_skipped" (ofNat s.skipped),
    field "start_ts" (ofOption (fun ts : Int64 => ofInt ts.toInt) (s.header.bind Header.startTs)),
    field "end_ts" (ofOption ofFloat (s.header.bind Header.endTs)),
    field "complete" (.bool s.isComplete), field "error" (ofOption ofString s.error)]

/-- The answer to an upload.  Without a header nothing was replaced. -/
def uploadResponse (stream : String) (s : Summary) : Response :=
  .ofDocument (if s.header.isNone then 400 else 200) (uploadDocument stream s)

/-- An upload replaces the audio of a stream, which is created if it is not there. -/
def upload (C : Codec) (relay : Relay) (name : String) (body : List TransportEvent) : Outcome :=
  let (id, registry) := relay.registry.getOrCreate name
  match registry.serve id fun s => s.preload C body with
  | some (summary, registry) =>
    .answered (uploadResponse name summary) { relay with registry }
  | none => .answered (.ofStatus 500) relay

/-- The stream that a request replaces, if the request is an upload. -/
def uploadName? (method target : String) : Option String :=
  match method, Route.of? (Target.ofText target).segments with
  | "PUT", some (.stream key .rewind) => decodeSegment? key
  | _, _ => none

/-! ## Requests -/

/-- The answer to a request to read something of a stream. -/
def readStream (relay : Relay) (name query : String) : Aspect → Outcome
  | .listen =>
    match ListenQuery.of? query, relay.registry.find? name with
    | none, _ => .answered .badRequest relay
    | some _, none => .answered (.ofStatus 404) relay
    | some q, some id =>
      match relay.registry.stream? id with
      | some s => listen relay id s q
      | none => .answered (.ofStatus 404) relay
  | aspect =>
    match (relay.registry.find? name).bind relay.registry.stream? with
    | none => .answered (.ofStatus 404) relay
    | some s =>
      .answered (if aspect = .rewind then dump s else .ofDocument 200 (statusDocument s)) relay

def get (relay : Relay) (query : String) : Route → Outcome
  | .streams => .answered (listStreams relay) relay
  | .stream key aspect =>
    match decodeSegment? key with
    | none => .answered .badRequest relay
    | some name => readStream relay name query aspect

/-- What stands in the place of a body that was not asked for. -/
def Body.head : Body → Body
  | .rejection => .rejection
  | _ => .empty

/-- A response without its body.  A listener that would have been served leaves. -/
def withoutBody : Outcome → Outcome
  | .answered r relay => .answered { r with body := r.body.head } (closeBody relay r.body)
  | .waiting => .waiting
  | .broken => .broken

def dispatch (C : Codec) (relay : Relay) (r : Request) (query : String) (route : Route) :
    Outcome :=
  match r.method, route with
  | "GET", route => get relay query route
  | "HEAD", route => withoutBody (get relay query route)
  | "PUT", .stream key .rewind =>
    match decodeSegment? key with
    | none => .answered .badRequest relay
    | some name => upload C relay name r.body
  | _, _ => .answered (.ofStatus 405) relay

end Http

def Relay.handle (C : Codec) (relay : Relay) (r : Http.Request) : Http.Outcome :=
  let target := Http.Target.ofText r.target
  if r.method = "OPTIONS" then .answered (.ofStatus 200) relay
  else match Http.Route.of? target.segments with
    | none => .answered (.ofStatus 404) relay
    | some route => Http.dispatch C relay r target.query route

end RewindRelay
