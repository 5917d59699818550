import RewindRelay.Decimal.Numeral
import RewindRelay.Text.Pieces
/-!
# Internet addresses

A relay binds to an address of either kind.  Addresses are read in their usual notations and
written in the one canonical notation: lower-case groups without leading zeros, with the longest
run of zero groups left out.

* `Address` — four octets or eight groups.
* `Address.read?` — an address from its notation.
* `Address.text` — the canonical notation.
* `Endpoint.text` — an address with a port.
-/

namespace RewindRelay.Net

open Decimal (digit? ofDigits)

/-- An internet address of either kind. -/
inductive Address
  | v4 (octets : Vector UInt8 4)
  | v6 (groups : Vector UInt16 8)
  deriving DecidableEq, Repr

/-- An address and a port on it. -/
structure Endpoint where
  address : Address
  port : UInt16
  deriving DecidableEq, Repr

namespace Address

def loopback : Address := .v4 #v[127, 0, 0, 1]

/-! ## Reading -/

/-- An octet: one to three digits without a leading zero. -/
def readOctet? (cs : List Char) : Option UInt8 :=
  (cs.mapM digit?).bind fun ds =>
    if ds.isEmpty ∨ 3 < ds.length ∨ (1 < ds.length ∧ ds.head? = some .zero) ∨ 255 < ofDigits ds
    then none
    else some (UInt8.ofNat (ofDigits ds))

def readOctets? (cs : List Char) : Option (Vector UInt8 4) :=
  ((Text.pieces (· == '.') cs).mapM readOctet?).bind fun octets =>
    if h : octets.length = 4 then some ⟨octets.toArray, by simp [h]⟩ else none

def hexDigit? (c : Char) : Option Nat :=
  if '0' ≤ c ∧ c ≤ '9' then some (c.toNat - 48)
  else if 'a' ≤ c ∧ c ≤ 'f' then some (c.toNat - 87)
  else if 'A' ≤ c ∧ c ≤ 'F' then some (c.toNat - 55)
  else none

/-- A group: one to four hexadecimal digits. -/
def readGroup? (cs : List Char) : Option UInt16 :=
  if cs.isEmpty ∨ 4 < cs.length then none
  else (cs.mapM hexDigit?).map fun ds =>
    UInt16.ofNat (ds.foldl (fun value d => 16 * value + d) 0)

/-- The two groups that four octets fill. -/
def groupsOfOctets (octets : Vector UInt8 4) : List UInt16 :=
  let pair (a b : UInt8) : UInt16 := UInt16.ofNat (256 * a.toNat + b.toNat)
  [pair octets[0] octets[1], pair octets[2] octets[3]]

/-- The last piece of a list of groups: a group, or two groups written as four octets where that
is allowed. -/
def readLast? (octetsAllowed : Bool) (piece : List Char) : Option (List UInt16) :=
  match readGroup? piece with
  | some g => some [g]
  | none => if octetsAllowed then (readOctets? piece).map groupsOfOctets else none

def readPieces? (octetsAllowed : Bool) : List (List Char) → Option (List UInt16)
  | [] => some []
  | [last] => readLast? octetsAllowed last
  | piece :: rest =>
    (readGroup? piece).bind fun g => (readPieces? octetsAllowed rest).map (g :: ·)

/-- Groups with colons between them; perhaps none. -/
def readGroups? (octetsAllowed : Bool) (cs : List Char) : Option (List UInt16) :=
  if cs.isEmpty then some [] else readPieces? octetsAllowed (Text.pieces (· == ':') cs)

/-- The first place where two colons meet: what is before and what is after. -/
def splitAtGap : List Char → Option (List Char × List Char)
  | ':' :: ':' :: rest => some ([], rest)
  | c :: rest => (splitAtGap rest).map fun (front, back) => (c :: front, back)
  | [] => none

def ofGroups? (groups : List UInt16) : Option (Vector UInt16 8) :=
  if h : groups.length = 8 then some ⟨groups.toArray, by simp [h]⟩ else none

/-- Eight groups, of which a run of zeros may be left out between two colons. -/
def readGroupAddress? (cs : List Char) : Option (Vector UInt16 8) :=
  match splitAtGap cs with
  | none => (readGroups? true cs).bind ofGroups?
  | some (front, back) =>
    match readGroups? false front, readGroups? true back with
    | some head, some tail =>
      let written := head.length + tail.length
      if written ≤ 7 then ofGroups? (head ++ List.replicate (8 - written) 0 ++ tail) else none
    | _, _ => none

def read? (text : String) : Option Address :=
  match readOctets? text.toList with
  | some octets => some (.v4 octets)
  | none => (readGroupAddress? text.toList).map .v6

/-! ## Writing -/

def octetsText (octets : List UInt8) : String :=
  String.intercalate "." (octets.map fun o => toString o.toNat)

def groupsText (groups : List UInt16) : String :=
  String.intercalate ":" (groups.map fun g => String.ofList (Nat.toDigits 16 g.toNat))

/-- Where the longest run of zero groups begins, and how long it is.  Of equal runs the first one
counts. -/
def longestZeroRun (groups : List UInt16) : Nat × Nat :=
  (List.range groups.length).foldl (fun best start =>
    let length := ((groups.drop start).takeWhile (· == 0)).length
    if best.2 < length then (start, length) else best) (0, 0)

/-- The four octets at the end of an address whose other groups say that it holds such octets. -/
def mappedOctets? : List UInt16 → Option (List UInt8)
  | [0, 0, 0, 0, 0, 0xffff, a, b] =>
    some [UInt8.ofNat (a.toNat / 256), UInt8.ofNat a.toNat,
      UInt8.ofNat (b.toNat / 256), UInt8.ofNat b.toNat]
  | _ => none

/-- The canonical notation. -/
def text : Address → String
  | .v4 octets => octetsText octets.toList
  | .v6 groups =>
    let groups := groups.toList
    match mappedOctets? groups with
    | some octets => "::ffff:" ++ octetsText octets
    | none =>
      let (start, length) := longestZeroRun groups
      if 1 < length then
        groupsText (groups.take start) ++ "::" ++ groupsText (groups.drop (start + length))
      else groupsText groups

end Address

/-- An address with its port.  Brackets keep the colons of groups apart from that of the port. -/
def Endpoint.text (e : Endpoint) : String :=
  let port := e.port.toNat
  match e.address with
  | .v4 _ => s!"{e.address.text}:{port}"
  | .v6 _ => s!"[{e.address.text}]:{port}"

end RewindRelay.Net
