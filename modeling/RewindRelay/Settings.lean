import RewindRelay.Decimal.Reader
import RewindRelay.Text.Blank
import RewindRelay.Dump.Writer
import RewindRelay.Error
/-!
# Settings

What an operator can tune.  Every setting has a default; environment variables override some of
them, and a variable that cannot be read is ignored.

* `Settings` — the settings of a relay.
* `Settings.forTesting` — a short window and fast housekeeping.
* `Settings.ofEnvironment` — the defaults under an environment.
* `Settings.validate` — refuses a window that is not positive.
-/

namespace RewindRelay

/-- How much audio a stream holds, and in what pieces it is handed out. -/
structure WindowSettings where
  /-- Seconds of audio that a stream is meant to hold. -/
  bufferSeconds : Float := 300
  /-- Seconds of audio that a new listener gets at once. -/
  burstSeconds : Float := 15
  /-- Bytes handed out at a time. -/
  readSize : Nat := defaultReadSize

/-- When listeners are reported on and when they count as too slow. -/
structure ListenerSettings where
  maxQueuedBytes : Nat := 8 * 1024 * 1024
  housekeepingMillis : Nat := 30000

/-- Where a replica gets its history from. -/
structure ReplicationSettings where
  masterUrl : Option String := none
  connectMillis : Nat := 10000

/-- The settings of a relay. -/
structure Settings where
  window : WindowSettings := {}
  listener : ListenerSettings := {}
  replication : ReplicationSettings := {}

namespace Settings

/-- A short window and fast housekeeping. -/
def forTesting : Settings :=
  { window := { bufferSeconds := 30, burstSeconds := 2, readSize := 4096 }
    listener := { maxQueuedBytes := 64 * 1024, housekeepingMillis := 50 }
    replication := { connectMillis := 1000 } }

/-- The address of a master, if the variable holds more than blanks. -/
def readMaster? (text : String) : Option String :=
  let trimmed := Text.trim text
  if trimmed.isEmpty then none else some trimmed

def environmentNames : List String :=
  ["BACKWASH_BUFFER_SECONDS", "BACKWASH_INITIAL_BURST", "BACKWASH_MAX_QUEUED_BYTES",
   "BACKWASH_MASTER_URL"]

/-- The defaults, with overrides from the environment. -/
def ofEnvironment (lookup : String → Option String) : Settings :=
  let read {α : Type} (name : String) (f : String → Option α) (fallback : α) : α :=
    ((lookup name).bind f).getD fallback
  let d : Settings := {}
  { d with
    window := { d.window with
      bufferSeconds := read "BACKWASH_BUFFER_SECONDS" Decimal.readDouble? d.window.bufferSeconds
      burstSeconds := read "BACKWASH_INITIAL_BURST" Decimal.readDouble? d.window.burstSeconds }
    listener := { d.listener with
      maxQueuedBytes :=
        read "BACKWASH_MAX_QUEUED_BYTES" Decimal.readCount? d.listener.maxQueuedBytes }
    replication := { d.replication with
      masterUrl := (lookup "BACKWASH_MASTER_URL").bind readMaster? } }

/-- Refuses settings that a relay cannot run with. -/
def validate (s : Settings) : Except RelayError Unit :=
  let seconds := s.window.bufferSeconds
  if seconds.isFinite && 0 < seconds then .ok ()
  else
    let written := Decimal.Layout.plain.text seconds
    .error (.configuration s!"buffer seconds must be positive, got {written}")

end Settings

end RewindRelay
