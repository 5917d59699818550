import RewindRelay.Dump.Document
import RewindRelay.Proofs.Broadcast.Run
/-!
# Vitals under the same stream key

Vitals that come under the current stream key mean that the encoding has not changed, and so the
audio may stay.  But with every vitals, whatever their key, the stream works out anew how many
chunks its window holds.  Longer chunks are fewer, and the oldest ones leave.

* `Stream.Keeps` — the answer is that the audio stays, and it does stay.
* `Stream.Narrowed` — what such vitals do in any case: the newest chunks stay, and the listeners
  notice nothing.
* `Stream.updateVitals_of_current` — vitals under the current key.
* `Broadcast.Reachable.keeps_iff` — **when the audio stays.**
-/

namespace RewindRelay

namespace Stream

variable {s : Stream} {current v : Vitals}

/-- The answer to the vitals is that they are compatible; the audio is as it was, and so is what
every listener has waiting and was given last. -/
structure Keeps (s : Stream) (v : Vitals) : Prop where
  answer : (s.updateVitals v).1 = .ok .compatible
  audio : (s.updateVitals v).2.store.chunks = s.store.chunks
  listeners : (s.updateVitals v).2.listeners = s.listeners

/-- The vitals are answered as compatible and taken over, and of the audio the newest chunks stay,
as many as the window holds now.  All else is as it was. -/
structure Narrowed (s : Stream) (v : Vitals) : Prop where
  answer : (s.updateVitals v).1 = .ok .compatible
  audio : (s.updateVitals v).2.store.chunks =
    s.store.chunks.rtake (lengthBound s.windowSeconds (some v))
  frame : (s.updateVitals v).2 =
    { s with vitals := some v, store := (s.updateVitals v).2.store }

lemma updateVitals_of_current (hcurrent : s.vitals = some current)
    (hkey : current.streamKey = v.streamKey) (usable : v.isUsable = true) :
    s.updateVitals v = (.ok .compatible, adjust { s with vitals := some v }) := by
  have hchange : s.vitalsChange v.streamKey = .compatible := by
    simp only [vitalsChange, hcurrent, hkey, if_true]
  simp only [updateVitals, usable, if_true, hchange]

lemma narrowed_of_current (hcurrent : s.vitals = some current)
    (hkey : current.streamKey = v.streamKey) (usable : v.isUsable = true) : s.Narrowed v := by
  have heq := updateVitals_of_current hcurrent hkey usable
  exact ⟨by rw [heq], by rw [heq]; rfl, by rw [heq]; rfl⟩

lemma Narrowed.keeps_iff_length_le (h : s.Narrowed v) :
    s.Keeps v ↔ s.store.length ≤ lengthBound s.windowSeconds (some v) := by
  have haudio : (s.updateVitals v).2.store.chunks = s.store.chunks ↔
      s.store.length ≤ lengthBound s.windowSeconds (some v) := by
    rw [h.audio]
    exact Store.rtake_eq_self_iff
  refine ⟨fun hkeeps => haudio.mp hkeeps.audio, fun hlen => ?_⟩
  exact ⟨h.answer, haudio.mpr hlen, by rw [h.frame]⟩

/-- In a stream in order nothing leaves unless the window holds fewer chunks than before. -/
lemma Sound.keeps (hs : s.Sound) (h : s.Narrowed v)
    (hbound : lengthBound s.windowSeconds s.vitals ≤ lengthBound s.windowSeconds (some v)) :
    s.Keeps v := by
  have hlen := hs.bounded
  rw [hs.capacity] at hlen
  exact h.keeps_iff_length_le.mpr (hlen.trans hbound)

end Stream

namespace Broadcast

/-- **When the audio stays.**  Usable vitals under the current key are always answered as
compatible, no listener notices them, and the newest chunks stay.  All chunks stay if and only if
the window holds as many; so they do if the chunk duration is the same. -/
theorem Reachable.keeps_iff {C : Codec} {b : Broadcast} (hb : Reachable C b) {current v : Vitals}
    (hcurrent : b.stream.vitals = some current) (hkey : current.streamKey = v.streamKey)
    (usable : v.isUsable = true) :
    (b.stream.Keeps v ↔
        b.stream.store.length ≤ Stream.lengthBound b.stream.windowSeconds (some v)) ∧
      b.stream.Narrowed v ∧ (current.chunkDuration = v.chunkDuration → b.stream.Keeps v) := by
  have hnarrowed := Stream.narrowed_of_current hcurrent hkey usable
  refine ⟨hnarrowed.keeps_iff_length_le, hnarrowed, fun hduration => ?_⟩
  refine hb.sound.keeps hnarrowed ?_
  rw [hcurrent, Stream.lengthBound, Stream.lengthBound, hduration]

def seconds : Vitals := { streamKey := "a", chunkDuration := 1 }

def labelled : Vitals := { seconds with contentType := some "audio/aac" }

def longer : Vitals := { seconds with chunkDuration := 2 }

/-- Four chunks of a second each, and a window that is full with them. -/
def brimming : Broadcast :=
  (new "main" 300 65536).run .json (
    .operate (.updateVitals seconds) :: .operate (.setWindow 4) ::
    [0, 1000, 2000, 3000].map fun ts => .operate (.push ⟨ts, 1000, [0], none⟩))

lemma reachable_brimming : Reachable .json brimming :=
  reachable_run .json (.new "main" 300 65536) _

/-- A content type that is told later leaves all chunks where they are. -/
theorem keeps_brimming :
    Reachable .json brimming ∧ brimming.stream.vitals = some seconds ∧
      seconds.streamKey = labelled.streamKey ∧ labelled.isUsable = true ∧
      seconds.chunkDuration = labelled.chunkDuration ∧
      (brimming.stream.Keeps labelled ↔ brimming.stream.store.length ≤
        Stream.lengthBound brimming.stream.windowSeconds (some labelled)) ∧
      brimming.stream.Narrowed labelled ∧ brimming.stream.Keeps labelled :=
  have hvitals : brimming.stream.vitals = some seconds := rfl
  have hkey : seconds.streamKey = labelled.streamKey := rfl
  have husable : labelled.isUsable = true := by decide +kernel
  have ⟨hiff, hnarrowed, hsame⟩ := reachable_brimming.keeps_iff hvitals hkey husable
  ⟨reachable_brimming, hvitals, hkey, husable, rfl, hiff, hnarrowed, hsame rfl⟩

/-- Not all vitals under the current key keep the audio: when chunks become twice as long, two of
the four leave. -/
theorem not_forall_keeps :
    ¬ ∀ b, Reachable .json b → ∀ current v : Vitals, b.stream.vitals = some current →
      current.streamKey = v.streamKey → v.isUsable = true → b.stream.Keeps v := by
  intro hall
  have hkeeps : brimming.stream.Keeps longer :=
    hall brimming reachable_brimming seconds longer rfl rfl (by decide +kernel)
  have hlength := congrArg List.length hkeeps.audio
  exact absurd hlength (by decide +kernel)

end Broadcast

end RewindRelay
