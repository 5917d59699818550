import RewindRelay.Decimal.Binary
/-!
# Delivery statistics

What a listener has been given: payload bytes, seconds of audio and chunks.  The same record is
kept for the whole session and for the interval since the last report.

* `ListenStats` — the record.
* `ListenStats.record` — one more chunk.
* `ListenStats.kbps` — the average bit rate.
-/

namespace RewindRelay

/-- Audio delivered to a listener. -/
structure ListenStats where
  bytes : Nat := 0
  seconds : Float := 0
  chunks : Nat := 0

namespace ListenStats

/-- Adds a chunk of so many bytes that plays for so many milliseconds. -/
def record (s : ListenStats) (bytes : Nat) (duration : Float) : ListenStats :=
  { bytes := s.bytes + bytes, seconds := s.seconds + duration / 1000, chunks := s.chunks + 1 }

/-- The average rate in kilobits per second; zero before any audio was delivered. -/
def kbps (s : ListenStats) : Float :=
  if s.seconds ≤ 0 then 0 else Decimal.ofCount s.bytes * 8 / 1000 / s.seconds

end ListenStats

end RewindRelay
