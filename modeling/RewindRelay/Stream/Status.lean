import RewindRelay.Stream.Listening
import RewindRelay.Dump.Document
import RewindRelay.Decimal.Fixed
/-!
# The status of a stream

A snapshot for monitoring: how much audio is there, which span it covers, and what the store has
been doing.

* `Status` — the snapshot.
* `Status.toJson` — the snapshot as a document.
* `Status.fillRatio`, `Status.summary` — the snapshot in one number and in one line.
-/

namespace RewindRelay

open Decimal (fixedText intText)
open Json (Value)
open Json.Value (field ofString ofFloat ofInt ofNat ofOption)

def Counters.toJson (c : Counters) : Value :=
  .object [field "inserted" (ofNat c.inserted), field "evicted" (ofNat c.evicted),
    field "duplicates" (ofNat c.duplicates), field "out_of_order" (ofNat c.outOfOrder)]

/-- A snapshot of a stream. -/
structure Status where
  stream : String
  bufferedChunks : Nat
  maxChunks : Nat
  bufferedSeconds : Float
  firstTs : Option Int64
  lastTs : Option Int64
  vitals : Option Vitals
  listeners : Nat
  loading : Bool
  counters : Counters

namespace Status

def fields (s : Status) : List (Json.Text × Value) :=
  let time := ofOption fun ts : Int64 => ofInt ts.toInt
  [field "stream" (ofString s.stream), field "buffered_chunks" (ofNat s.bufferedChunks),
   field "max_chunks" (ofNat s.maxChunks), field "buffered_seconds" (ofFloat s.bufferedSeconds),
   field "first_ts" (time s.firstTs), field "last_ts" (time s.lastTs),
   field "vitals" (ofOption Vitals.toJson s.vitals), field "listeners" (ofNat s.listeners),
   field "loading" (.bool s.loading), field "counters" s.counters.toJson]

def toJson (s : Status) : Value := .object s.fields

/-- How full the stream is, between zero and one; zero when it has no bound. -/
def fillRatio (s : Status) : Float :=
  if s.maxChunks = 0 ∨ s.maxChunks = Store.unbounded then 0
  else Decimal.ofCount s.bufferedChunks / Decimal.ofCount s.maxChunks

def summary (s : Status) : String :=
  s.stream ++ ": " ++ intText s.bufferedChunks ++ "/" ++ intText s.maxChunks ++ " chunks (" ++
    fixedText 1 s.bufferedSeconds ++ "s, " ++ fixedText 0 (s.fillRatio * 100) ++ "% full), " ++
    intText s.listeners ++ " listeners" ++ if s.loading then ", preloading" else ""

end Status

def Stream.status (s : Stream) : Status :=
  let chunkSeconds := match s.vitals with
    | some v => v.chunkDuration
    | none => 0
  { stream := s.name
    bufferedChunks := s.store.length
    maxChunks := s.store.capacity
    bufferedSeconds := Decimal.ofCount s.store.length * chunkSeconds
    firstTs := s.store.oldest?.map Chunk.ts
    lastTs := s.store.newest?.map Chunk.ts
    vitals := s.vitals
    listeners := s.listenerCount
    loading := s.loading
    counters := s.store.counters }

end RewindRelay
