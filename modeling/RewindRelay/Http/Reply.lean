import RewindRelay.Bytes
import RewindRelay.Decimal.Reader
import RewindRelay.Replica
/-!
# Replies of a master

A replica asks its master for a dump with a request that lets the master end the body by closing
the connection.  The reply is then a head, an empty line, and the body up to the end.

* `fetchRequest` — the request.
* `readReply?` — the status and the body of a reply.
-/

namespace RewindRelay.Http

def lineEnd : Bytes := [13, 10]

def fetchRequest (host path : String) : Bytes :=
  Bytes.utf8 (s!"GET {path} HTTP/1.0\r\nHost: {host}\r\n\r\n")

/-- Splits a reply at the first empty line. -/
def splitHead (head : Bytes) : Bytes → Option (Bytes × Bytes)
  | 13 :: 10 :: 13 :: 10 :: body => some (head.reverse, body)
  | b :: rest => splitHead (b :: head) rest
  | [] => none

/-- The status in the first line of a head: three digits after the version. -/
def statusOf? (head : Bytes) : Option Nat :=
  match head.dropWhile (· != 32) with
  | _ :: a :: b :: c :: _ =>
    Decimal.readCount? (String.ofList ([a, b, c].map fun digit => Char.ofNat digit.toNat))
  | _ => none

/-- The status and the body of a reply. -/
def readReply? (reply : Bytes) : Option (Nat × Bytes) :=
  (splitHead [] reply).bind fun (head, body) =>
    (statusOf? head).map fun status => (status, body)

/-- What a reply says of the dump that was asked for. -/
def exchangeOf (reply : Bytes) : Exchange :=
  match readReply? reply with
  | some (status, body) => .answered status [.bytes body]
  | none => .failed "the reply cannot be read"

end RewindRelay.Http
