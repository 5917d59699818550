import RewindRelay.CommandLine.Program
import RewindRelay.Http.Body
import RewindRelay.Http.Reply
import RewindRelay.Startup
import Std.Async.DNS
import Std.Async.Signal
import Std.Async.Timer
import Std.Http.Server
/-!
# A relay on the network

The outer layer of a running relay: sockets, timers and signals around the pure operations.  Each
request is one atomic step of the relay, an upload one step for each piece that arrives, and audio
one step for each piece that is sent.  Nothing is decided here.

* `Service` — a relay that is shared by the connections.
* `Service.respond` — one request.
* `runService` — a relay from its start to an interrupt.
-/

namespace RewindRelay

open Std.Async

/-- A relay that is shared by the connections. -/
structure Service where
  relay : IO.Ref Relay
  /-- The clock at the start, in milliseconds. -/
  startedAt : Nat

namespace Service

/-- How long a body or a request waits before it asks again, in milliseconds. -/
def pause : Std.Time.Millisecond.Offset := 20

def step {α : Type} (s : Service) (f : Relay → α × Relay) : Async α := do
  let now ← IO.monoMsNow
  s.relay.modifyGet fun relay => f { relay with uptime := (now - s.startedAt) / 1000 }

/-! ## Bodies -/

/-- Sends a body piece by piece until it ends or the client is gone. -/
partial def sendBody (s : Service) (body : Http.Body) (out : Std.Http.Body.Stream) :
    Async Unit := do
  let (piece, body) ← s.step fun relay =>
    let (piece, body, relay) := relay.nextPiece .json 0 body
    ((piece, body), relay)
  let close := s.step fun relay => ((), Http.closeBody relay body)
  match piece with
  | .data bytes =>
    let sent ← try
        out.send (.ofByteArray ⟨bytes.toArray⟩)
        pure true
      catch _ => pure false
    if sent then s.sendBody body out else close
  | .waiting =>
    if ← out.isClosed then close
    else
      sleep pause
      s.sendBody body out
  | .ended | .failed _ => close

def fieldsOf (method : String) (r : Http.Response) : List (String × String) :=
  (r.contentType.map fun value => ("content-type", value)).toList ++
  (r.cacheControl.map fun value => ("cache-control", value)).toList ++
  Http.permissionFields method

/-- The head of a response.  A field that cannot be written is left out. -/
def head (method : String) (r : Http.Response) : Std.Http.Response.Builder :=
  let builder := match Std.Http.Status.ofCode none (UInt16.ofNat r.status) with
    | some status => Std.Http.Response.new.status status
    | none => Std.Http.Response.new
  (fieldsOf method r).foldl (fun builder (name, value) =>
    (builder.header? name value).getD builder) builder

def send (s : Service) (method : String) (r : Http.Response) :
    Async (Std.Http.Response Std.Http.Body.Any) := do
  let body ← match r.body with
    | .empty | .rejection => Std.Http.Body.empty
    | body => Std.Http.Body.stream fun out => s.sendBody body out
  return (head method r).body (Std.Http.Body.Any.ofBody body)

/-! ## Requests -/

/-- Loads an upload into a stream, piece by piece. -/
partial def receive (s : Service) (id : StreamId) (p : Preload) (body : Std.Http.Body.Stream) :
    Async Summary := do
  let event ← try
      match ← body.recv with
      | some chunk => pure (TransportEvent.bytes chunk.data.toList)
      | none => pure .closed
    catch e => pure (.failed e.toString)
  let progress ← s.step fun relay =>
    match relay.registry.serve id fun stream => stream.transport .json p event with
    | some (progress, registry) => (progress, { relay with registry })
    | none => (.ended p.summary, relay)
  match progress with
  | .ended summary => return summary
  | .starved p | .applied p => s.receive id p body

def upload (s : Service) (name : String) (body : Std.Http.Body.Stream) : Async Http.Response := do
  let id ← s.step fun relay =>
    let (id, registry) := relay.registry.getOrCreate name
    match registry.serve id fun stream => ((), stream.beginPreload) with
    | some (_, registry) => (id, { relay with registry })
    | none => (id, { relay with registry })
  return Http.uploadResponse name (← s.receive id {} body)

/-- Answers a request that is no upload, as soon as the relay can. -/
partial def answer (s : Service) (r : Http.Request) : Async Http.Response := do
  let outcome : Except String (Option Http.Response) ← s.step fun relay =>
    match relay.handle .json r with
    | .waiting => (.ok none, relay)
    | .answered response relay => (.ok (some response), relay)
    | .broken => (.error "the connection breaks off", relay)
  match outcome with
  | .ok (some response) => return response
  | .ok none =>
    sleep pause
    s.answer r
  | .error reason => throw (IO.userError reason)

def respond (s : Service) (request : Std.Http.Request Std.Http.Body.Stream) :
    Async (Std.Http.Response Std.Http.Body.Any) := do
  let method := toString request.line.method
  let target := toString request.line.uri
  let response ← match Http.uploadName? method target with
    | some name => s.upload name request.body
    | none => s.answer { method, target }
  s.send method response

instance : Std.Http.Server.Handler Service where
  onRequest s request := s.respond request

/-! ## Background tasks -/

partial def keepHouse (s : Service) (settings : ListenerSettings) : Async Unit := do
  s.step fun relay =>
    ((), { relay with registry := relay.registry.housekeep settings.maxQueuedBytes })
  sleep (.ofNat settings.housekeepingMillis)
  s.keepHouse settings

/-- Feeds a stream from the demo source until it is destroyed. -/
partial def feedDemo (s : Service) (d : DemoSource) (id : StreamId) (startTs : Int64)
    (index : Nat) : Async Unit := do
  let goesOn ← s.step fun relay =>
    match relay.registry.serve id fun stream => d.tick startTs stream index with
    | some (goesOn, registry) => (goesOn, { relay with registry })
    | none => (false, relay)
  if goesOn then
    sleep (.ofNat d.chunkMillis)
    s.feedDemo d id startTs (index + 1)

/-- Announces the demo source to a stream, and feeds it from then on. -/
def startDemo (s : Service) (d : DemoSource) (name : String) : Async Unit := do
  let found ← s.step fun relay =>
    let (id, registry) := relay.registry.getOrCreate name
    match registry.serve id d.announce with
    | some (true, registry) => (some id, { relay with registry })
    | some (false, registry) => (none, { relay with registry })
    | none => (none, { relay with registry })
  match found with
  | some id =>
    let now ← Std.Time.Timestamp.now
    s.feedDemo d id (Int64.ofInt now.toMillisecondsSinceUnixEpoch.val) 0
  | none => pure ()

end Service

/-! ## The master -/

partial def receiveAll (socket : TCP.Socket.Client) (read : Array UInt8) : Async Bytes := do
  match ← socket.recv? 65536 with
  | some bytes => receiveAll socket (read ++ bytes.data)
  | none => return read.toList

def addressesOf (host : Std.Http.URI.Host) : Async (List Std.Net.IPAddr) :=
  match host with
  | .ipv4 address => return [.v4 address]
  | .ipv6 address => return [.v6 address]
  | .name name => return (← DNS.getAddrInfo name.val "http").toList

def socketAddress (address : Std.Net.IPAddr) (port : UInt16) : Std.Net.SocketAddress :=
  match address with
  | .v4 addr => .v4 { addr, port }
  | .v6 addr => .v6 { addr, port }

def fetch (url : String) : Async Exchange := do
  let some uri := Std.Http.URI.parse? url | return .failed "the address cannot be read"
  let some authority := uri.authority | return .failed "the address has no host"
  let port : UInt16 := match authority.port with
    | .value port => port
    | _ => 80
  try
    let addresses ← addressesOf authority.host
    let some address := addresses.head? | return .failed "the host has no address"
    let socket ← TCP.Socket.Client.mk
    socket.connect (socketAddress address port)
    socket.send ⟨(Http.fetchRequest (toString authority.host) (toString uri.path)).toArray⟩
    return Http.exchangeOf (← receiveAll socket #[])
  catch e => return .failed e.toString

/-- The dumps that a relay asks its master for, by their addresses. -/
def fetchDumps (settings : Settings) (names : List String) : Async (List (String × Exchange)) := do
  match settings.replication.masterUrl with
  | none => return []
  | some master =>
    names.mapM fun name => do
      let url := rewindUrl master name
      return (url, ← fetch url)

/-! ## A run -/

/-- An address and a port in the form that sockets take. -/
def Net.Endpoint.toSocketAddress (e : Net.Endpoint) : Std.Net.SocketAddress :=
  match e.address with
  | .v4 octets => .v4 { addr := ⟨octets⟩, port := e.port }
  | .v6 groups => .v6 { addr := ⟨groups⟩, port := e.port }

/-- Runs a relay until it is interrupted. -/
def runService (log : Log.Event → IO Unit) (settings : Settings)
    (options : CommandLine.ServeOptions) : Async (Except CommandLine.CommandError Unit) := do
  let names := startupStreams options.streams options.demo
  let dumps ← fetchDumps settings names
  let fetched (url : String) : Exchange := (dumps.lookup url).getD (.failed "not fetched")
  let relay ← IO.mkRef (Relay.start .json fetched settings names)
  let service : Service := { relay, startedAt := ← IO.monoMsNow }
  let endpoint : Net.Endpoint := { address := options.host, port := options.port }
  let started ← try
      pure (Except.ok (← Std.Http.Server.serve endpoint.toSocketAddress service))
    catch e => pure (.error e.toString)
  match started with
  | .error reason => return .error (.bind endpoint reason)
  | .ok server =>
    if options.demo then
      for name in names do
        background (service.startDemo {} name)
    background (service.keepHouse settings.listener)
    log (CommandLine.listeningOn endpoint)
    let interrupt ← Signal.Waiter.mk .sigint false
    let _ ← Async.ofAsyncTask (← interrupt.wait)
    log CommandLine.shuttingDown
    server.shutdown
    service.step fun relay => ((), { relay with registry := relay.registry.shutdown })
    return .ok ()

end RewindRelay
