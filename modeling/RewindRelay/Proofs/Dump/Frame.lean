import RewindRelay.Dump.Encoder
import RewindRelay.Proofs.Dump.Loader
/-!
# Frames read back

The encoder and the loader agree on the bytes of a frame that fits the limits, so what is written
one frame after the other is decoded to the same frames.

* `headerFrame_eq`, `chunkFrame_eq` — the bytes of a frame that fits the limits.
* `Loader.spells_headerBytes`, `Loader.spells_chunkBytes` — **what is written is found.**
* `Loader.Wire` — bytes that are frames and nothing else.
* `Loader.Wire.decodeAll_eq` — **they are decoded to these frames.**
-/

namespace RewindRelay

deriving instance DecidableEq for Chunk, Vitals, Header, Frame

variable {C : Codec}

/-! ## Writing -/

def headerBytes (C : Codec) (h : Header) : Bytes :=
  Bytes.littleEndian 4 (C.writeHeader h).length ++ C.writeHeader h

def chunkBytes (C : Codec) (c : Chunk) : Bytes :=
  Bytes.littleEndian 1 (C.writeHead c.head).length ++
    (C.writeHead c.head ++ (Bytes.littleEndian 2 c.size ++ c.data))

def Header.Fits (C : Codec) (h : Header) : Prop := (C.writeHeader h).length ≤ Frame.maxHeader

/-- The chunk fits its frame. -/
structure Chunk.Fits (C : Codec) (c : Chunk) : Prop where
  head : (C.writeHead c.head).length ≤ Frame.maxHead
  payload : c.size ≤ Frame.maxPayload

instance (h : Header) : Decidable (h.Fits C) :=
  inferInstanceAs (Decidable ((C.writeHeader h).length ≤ Frame.maxHeader))

instance (c : Chunk) : Decidable (c.Fits C) :=
  decidable_of_iff
    ((C.writeHead c.head).length ≤ Frame.maxHead ∧ c.size ≤ Frame.maxPayload)
    ⟨fun h => ⟨h.1, h.2⟩, fun h => ⟨h.head, h.payload⟩⟩

lemma headerFrame_eq {h : Header} (hf : h.Fits C) : headerFrame C h = .ok (headerBytes C h) := by
  simp only [headerFrame, if_neg (Nat.not_lt.mpr hf), headerBytes]

lemma chunkFrame_eq {c : Chunk} (hf : c.Fits C) : chunkFrame C c = .ok (chunkBytes C c) := by
  simp only [chunkFrame, if_neg (Nat.not_lt.mpr hf.head), if_neg (Nat.not_lt.mpr hf.payload),
    chunkBytes, List.append_assoc]

lemma headerFrame_eq_ok_iff {h : Header} {bytes : Bytes} :
    headerFrame C h = .ok bytes ↔ h.Fits C ∧ headerBytes C h = bytes := by
  by_cases hf : h.Fits C
  · simp [headerFrame_eq hf, hf]
  · simp [headerFrame, if_pos (Nat.lt_of_not_le hf), hf]

lemma chunkFrame_eq_ok_iff {c : Chunk} {bytes : Bytes} :
    chunkFrame C c = .ok bytes ↔ c.Fits C ∧ chunkBytes C c = bytes := by
  by_cases hf : c.Fits C
  · simp [chunkFrame_eq hf, hf]
  · have hnone : ∃ e, chunkFrame C c = .error e := by
      simp only [chunkFrame]
      split_ifs with hhead hpayload
      · exact ⟨_, rfl⟩
      · exact ⟨_, rfl⟩
      · exact absurd ⟨Nat.le_of_not_lt hhead, Nat.le_of_not_lt hpayload⟩ hf
    obtain ⟨e, he⟩ := hnone
    simp [he, hf]

lemma headerBytes_ne_nil (C : Codec) (h : Header) : headerBytes C h ≠ [] := by
  intro hnil
  have hlen := congrArg List.length hnil
  simp [headerBytes, Bytes.length_littleEndian] at hlen

lemma chunkBytes_ne_nil (C : Codec) (c : Chunk) : chunkBytes C c ≠ [] := by
  intro hnil
  have hlen := congrArg List.length hnil
  simp [chunkBytes, Bytes.length_littleEndian] at hlen

/-! ## Reading -/

namespace Loader

/-- **A header frame is found.** -/
theorem spells_headerBytes {h h' : Header} (hf : h.Fits C)
    (hread : C.readHeader (C.writeHeader h) = some h') :
    Spells C .header (headerBytes C h) (.header h') :=
  .header hf hread

/-- **A chunk frame is found.** -/
theorem spells_chunkBytes {c : Chunk} {head : ChunkHead} (hf : c.Fits C)
    (hread : C.readHead (C.writeHead c.head) = some head) :
    Spells C .chunk (chunkBytes C c) (.chunk (head.chunk c.data)) :=
  .chunk hf.head hf.payload hread

/-- The bytes are the frames and nothing else, for a loader that waits for the first of them.  A
dump ends where a chunk could begin. -/
structure Wire (C : Codec) (phase : LoaderPhase) (bytes : Bytes) (frames : List Frame) : Prop where
  spelled : Spelled C phase bytes frames []
  ended : phaseAfter phase frames = .chunk

lemma Wire.drain_eq {phase : LoaderPhase} {bytes : Bytes} {frames : List Frame}
    (h : Wire C phase bytes frames) (decoded : ℕ) :
    ∃ decoded', drain C ⟨bytes, phase, decoded⟩ = (frames, .ok (), ⟨[], .chunk, decoded'⟩) := by
  obtain ⟨decoded', hdrain⟩ := h.spelled.drain_eq decoded
  have hsettled : Settled C ⟨[], .chunk, decoded'⟩ := rfl
  rw [h.ended, drain_of_settled hsettled, List.append_nil] at hdrain
  exact ⟨decoded', hdrain⟩

/-- **Frames in a row are decoded.** -/
theorem Wire.decodeAll_eq {bytes : Bytes} {frames : List Frame} (h : Wire C .header bytes frames) :
    decodeAll C bytes = .ok frames := by
  obtain ⟨decoded, hdrain⟩ := h.drain_eq 0
  have hfeed : feed {} bytes = ⟨bytes, .header, 0⟩ := rfl
  rw [decodeAll, hfeed, hdrain]
  rfl

end Loader

end RewindRelay
