import RewindRelay.Bytes
import RewindRelay.Json.Reader
import RewindRelay.Text.Lossy
import RewindRelay.Text.Pieces
/-!
# Request targets

The target of a request is a path and perhaps a query.  The path is cut at slashes before anything
is decoded, so a name may hold a slash in its escaped form.  The query is a list of names and
values, with plus signs for spaces.

* `Target.ofText` — the path segments and the query of a target.
* `percentDecode` — escapes turned into bytes; a broken escape stands for itself.
* `queryPairs` — the names and values of a query.
-/

namespace RewindRelay.Http

open Text (ofBytes pieces splitAtFirst)

/-! ## Escapes -/

/-- Replaces each `%` with two hexadecimal digits by the byte it stands for. -/
def percentDecode : Bytes → Bytes
  | 37 :: high :: low :: rest =>
    match Json.hexOf? high, Json.hexOf? low with
    | some h, some l => UInt8.ofNat (16 * h + l) :: percentDecode rest
    | _, _ => 37 :: percentDecode (high :: low :: rest)
  | b :: rest => b :: percentDecode rest
  | [] => []

/-- The text of a path segment, if its bytes are UTF-8 once decoded. -/
def decodeSegment? (segment : String) : Option String :=
  Bytes.ofUtf8? (percentDecode (Bytes.utf8 segment))

/-! ## Targets -/

/-- What a request asks for. -/
structure Target where
  /-- The pieces of the path after the leading slash, still escaped. -/
  segments : List String
  query : String
  deriving Repr

/-- Can the character stand in the name of a scheme? -/
def isSchemeChar (c : Char) : Bool := c.isAlphanum || c = '+' || c = '-' || c = '.' || c = '~'

/-- The characters after the scheme and the host of a full address; other texts are left alone.
The scheme may have any name. -/
def dropOrigin (cs : List Char) : List Char :=
  match cs.dropWhile isSchemeChar with
  | ':' :: '/' :: '/' :: rest =>
    match rest.dropWhile fun c => c != '/' && c != '?' with
    | '/' :: path => '/' :: path
    | rest => '/' :: rest
  | _ => cs

/-- The target that a text names.  It may be a full address, and a fragment is ignored. -/
def Target.ofText (text : String) : Target :=
  let (text, _) := splitAtFirst (· == '#') text.toList
  let (path, query) := splitAtFirst (· == '?') (dropOrigin text)
  let segments := match path with
    | '/' :: rest => pieces (· == '/') rest
    | _ => []
  { segments := segments.map String.ofList, query := String.ofList query }

/-! ## Queries -/

/-- A name or value of a query: plus signs are spaces, then escapes are decoded. -/
def decodeComponent (cs : List Char) : String :=
  let spaced := cs.map fun c => if c = '+' then ' ' else c
  ofBytes (percentDecode (Bytes.utf8 (String.ofList spaced)))

/-- The names and values of a query in order.  Empty pieces are skipped, and a piece without an
equals sign has an empty value. -/
def queryPairs (query : String) : List (String × String) :=
  ((pieces (· == '&') query.toList).filter fun piece => !piece.isEmpty).map fun piece =>
    let (name, value) := splitAtFirst (· == '=') piece
    (decodeComponent name, decodeComponent value)

end RewindRelay.Http
