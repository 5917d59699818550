import RewindRelay.Proofs.Dump.Snapshot
/-!
# Which frames are read back

The encoder checks lengths and nothing else: a number that is not finite becomes `null`.  The reader
takes `null` for the end of a dump's audio, which may be missing, but for no other number.  So a
frame that was written is read back exactly if its numbers are finite, and a dump whose reads all
succeed is accepted exactly if this holds of each of its frames.

* `Frame.IsFinite` — the numbers that may not be missing are finite.
* `Frame.readBack` — what comes of a frame that was written: the frame, or an error.
* `Codec.readHeader_writeHeader_eq`, `Codec.readHead_writeHead_eq` — the texts, read back or
  refused.
* `Frame.nextFrame_eq` — **what a loader makes of a frame that was written.**
* `DumpWriter.fits_of_drains` — a dump whose reads all succeed fits the frames.
* `DumpWriter.accepted_iff` — **a frame or a dump is accepted exactly if its numbers are finite.**
-/

namespace RewindRelay

open Json
open Json.Value (ofText ofFloat ofInt ofOption optional?)

/-! ## Texts -/

/-- The numbers of vitals are finite. -/
def Vitals.IsFinite (v : Vitals) : Prop :=
  v.chunkDuration.isFinite = true ∧ v.framesPerSecond.isFinite = true

instance (v : Vitals) : Decidable v.IsFinite :=
  inferInstanceAs (Decidable (v.chunkDuration.isFinite = true ∧ v.framesPerSecond.isFinite = true))

lemma Json.double?_of_not_finite {x : Float} (h : ¬ x.isFinite = true) :
    (ofFloat x).double? = none := by
  rw [← readable_iff] at h
  exact Option.not_isSome_iff_eq_none.mp h

lemma Vitals.ofJson?_asRead_of_not {v : Vitals} (h : ¬ v.IsFinite) :
    Vitals.ofJson? v.asRead = none := by
  obtain ⟨key, duration, rate, contentType⟩ := v
  by_cases hd : duration.isFinite = true
  · have hf : (ofFloat rate).double? = none := double?_of_not_finite fun hf => h ⟨hd, hf⟩
    cases contentType <;>
      simp [Vitals.ofJson?, Vitals.asRead, record?, Slots.fill, hf]
  · have hd' : (ofFloat duration).double? = none := double?_of_not_finite hd
    cases contentType <;>
      simp [Vitals.ofJson?, Vitals.asRead, record?, Slots.fill, hd']

/-- **A header reads back or is refused.** -/
theorem Codec.readHeader_writeHeader_eq (h : Header) :
    Codec.json.readHeader (Codec.json.writeHeader h) =
      if h.vitals.IsFinite then some h.reread else none := by
  split
  · next hfinite =>
      exact Codec.readHeader_writeHeader ((readable_iff _).mpr hfinite.1)
        ((readable_iff _).mpr hfinite.2) fun x _ hx => (readable_iff x).mpr hx
  · next hfinite =>
      have hnone := Vitals.ofJson?_asRead_of_not hfinite
      simp only [Codec.json]
      rw [parse_render h.reads, Option.bind_some]
      simp [Header.ofJson?, Header.asRead, record?, Slots.fill, hnone]

/-- **A chunk head reads back or is refused.** -/
theorem Codec.readHead_writeHead_eq (h : ChunkHead) :
    Codec.json.readHead (Codec.json.writeHead h) =
      if h.duration.isFinite = true then some h.reread else none := by
  split
  · next hfinite => exact Codec.readHead_writeHead ((readable_iff _).mpr hfinite)
  · next hfinite =>
      have hnone := double?_of_not_finite hfinite
      obtain ⟨ts, duration, metadata⟩ := h
      simp only [Codec.json]
      rw [parse_render (ChunkHead.reads _), Option.bind_some]
      cases metadata <;>
        simp [ChunkHead.ofJson?, ChunkHead.asRead, record?, Slots.fill, hnone]

/-! ## Frames -/

namespace Frame

open Loader (nextFrame feed Damaged)

/-- The numbers of a frame that may not be missing are finite. -/
def IsFinite : Frame → Prop
  | .header h => h.vitals.IsFinite
  | .chunk c => c.duration.isFinite = true

instance (f : Frame) : Decidable f.IsFinite :=
  match f with
  | .header h => inferInstanceAs (Decidable h.vitals.IsFinite)
  | .chunk c => inferInstanceAs (Decidable (c.duration.isFinite = true))

/-- What a loader waits for that is to find the frame. -/
def awaited : Frame → LoaderPhase
  | .header _ => .header
  | .chunk _ => .chunk

/-- A frame with its numbers read again. -/
def reread : Frame → Frame
  | .header h => .header h.reread
  | .chunk c => .chunk c.reread

/-- What is said of a frame whose text is refused. -/
def refusal : Frame → FrameError
  | .header _ => .invalidHeader
  | .chunk _ => .invalidHead

/-- What comes of a frame that was written. -/
def readBack (f : Frame) : Except FrameError Frame :=
  if f.IsFinite then .ok f.reread else .error f.refusal

def bytes : Frame → Bytes
  | .header h => headerBytes .json h
  | .chunk c => chunkBytes .json c

def Fits : Frame → Prop
  | .header h => h.Fits .json
  | .chunk c => c.Fits .json

variable {f : Frame}

lemma encode_eq_ok_iff {written : Bytes} :
    f.encode .json = .ok written ↔ f.Fits ∧ f.bytes = written := by
  cases f with
  | header h => exact headerFrame_eq_ok_iff
  | chunk c => exact chunkFrame_eq_ok_iff

/-- The bytes of a frame whose numbers are finite are the frame, read again. -/
lemma spells_of_isFinite (hfits : f.Fits) (h : f.IsFinite) :
    Loader.Spells .json f.awaited f.bytes f.reread := by
  cases f with
  | header header =>
      refine Loader.spells_headerBytes hfits ?_
      rw [Codec.readHeader_writeHeader_eq]
      exact if_pos h
  | chunk c =>
      have hread : Codec.json.readHead (Codec.json.writeHead c.head) = some c.head.reread := by
        rw [Codec.readHead_writeHead_eq]
        exact if_pos h
      exact Loader.spells_chunkBytes hfits hread

/-- The text of any other frame is damage. -/
lemma damaged_of_not_isFinite (hfits : f.Fits) (h : ¬ f.IsFinite) (more : Bytes) :
    Damaged .json f.awaited (f.bytes ++ more) f.refusal := by
  cases f with
  | header header =>
      have hread : Codec.json.readHeader (Codec.json.writeHeader header) = none := by
        rw [Codec.readHeader_writeHeader_eq]
        exact if_neg h
      have hlength := Bytes.ofLittleEndian_littleEndian 4 (Codec.json.writeHeader header).length
        (Nat.lt_of_le_of_lt hfits (by decide))
      rw [bytes, headerBytes, List.append_assoc]
      exact .header (Bytes.length_littleEndian _ _) hlength hfits hread
  | chunk c =>
      have hread : Codec.json.readHead (Codec.json.writeHead c.head) = none := by
        rw [Codec.readHead_writeHead_eq]
        exact if_neg h
      have hhead : (UInt8.ofNat (Codec.json.writeHead c.head).length).toNat =
          (Codec.json.writeHead c.head).length :=
        UInt8.toNat_ofNat_of_lt' (Nat.lt_of_le_of_lt hfits.head (by decide))
      have hsize := Bytes.ofLittleEndian_littleEndian 2 c.data.length
        (Nat.lt_of_le_of_lt hfits.payload (by decide))
      simp only [bytes, chunkBytes, Loader.littleEndian_one, List.cons_append, List.nil_append,
        List.append_assoc]
      exact .head hhead (Bytes.length_littleEndian _ _) hsize hread

/-- **What a loader makes of a frame that was written**, whatever comes behind it. -/
theorem nextFrame_eq (hfits : f.Fits) (more : Bytes) (decoded : ℕ) :
    ∃ l', nextFrame .json ⟨f.bytes ++ more, f.awaited, decoded⟩ = (f.readBack.map some, l') ∧
      (f.IsFinite → l'.buffer = more ∧ l'.phase = .chunk) := by
  by_cases h : f.IsFinite
  · obtain ⟨decoded', hnext⟩ := (spells_of_isFinite hfits h).nextFrame_eq more decoded
    refine ⟨⟨more, .chunk, decoded'⟩, ?_, fun _ => ⟨rfl, rfl⟩⟩
    rw [hnext, readBack, if_pos h]
    rfl
  · have hnext : (nextFrame .json ⟨f.bytes ++ more, f.awaited, decoded⟩).1 = .error f.refusal :=
      Loader.nextFrame_eq_error_iff.mpr (damaged_of_not_isFinite hfits h more)
    refine ⟨_, Prod.ext ?_ rfl, fun hfinite => absurd hfinite h⟩
    rw [hnext, readBack, if_neg h]
    rfl

end Frame

/-! ## Dumps -/

namespace Loader

/-- What decoding comes to from here on. -/
def outcome (l : Loader) : Except FrameError (List Frame) :=
  (verdict (drain .json l).2).map fun _ => (drain .json l).1

lemma outcome_of_frame {l l' : Loader} {f : Frame}
    (h : l.nextFrame .json = (.ok (some f), l')) : l.outcome = l'.outcome.map (f :: ·) := by
  rw [outcome, drain_of_frame h, outcome]
  cases verdict (drain .json l').2 <;> rfl

lemma outcome_of_error {l l' : Loader} {e : FrameError}
    (h : l.nextFrame .json = (.error e, l')) : l.outcome = .error e := by
  rw [outcome, drain_of_error h]
  rfl

/-- One frame that was written, and what comes behind it. -/
lemma outcome_frame {f : Frame} (hfits : f.Fits) {more : Bytes} {rest : List Frame}
    (hrest : ∀ decoded, outcome ⟨more, .chunk, decoded⟩ = rest.mapM Frame.readBack)
    (decoded : ℕ) :
    outcome ⟨f.bytes ++ more, f.awaited, decoded⟩ = (f :: rest).mapM Frame.readBack := by
  obtain ⟨⟨buffer, phase, decoded'⟩, hnext, hleft⟩ := f.nextFrame_eq hfits more decoded
  rw [List.mapM_cons]
  by_cases h : f.IsFinite
  · obtain ⟨rfl, rfl⟩ := hleft h
    rw [Frame.readBack, if_pos h] at hnext ⊢
    rw [outcome_of_frame hnext, hrest]
    cases rest.mapM Frame.readBack <;> rfl
  · rw [Frame.readBack, if_neg h] at hnext ⊢
    rw [outcome_of_error hnext]
    rfl

lemma outcome_chunks {cs : List Chunk} (hfits : ∀ c ∈ cs, c.Fits .json) (decoded : ℕ) :
    outcome ⟨cs.flatMap (chunkBytes .json), .chunk, decoded⟩ =
      (cs.map Frame.chunk).mapM Frame.readBack := by
  induction cs generalizing decoded with
  | nil => rfl
  | cons c cs ih =>
      exact outcome_frame (f := .chunk c) (hfits c (by simp))
        (ih fun d hd => hfits d (by simp [hd])) decoded

end Loader

namespace DumpWriter

variable {C : Codec} {w : DumpWriter}

/-- The frames of a dump of which nothing has been read. -/
def allFrames (w : DumpWriter) : List Frame := .header w.header :: w.pending.map .chunk

lemma decodeAll_rest (hfits : w.Fits .json) (hfirst : w.headerSent = false) :
    decodeAll .json (w.rest .json) = w.allFrames.mapM Frame.readBack := by
  have hrest : w.rest .json =
      (Frame.header w.header).bytes ++ w.pending.flatMap (chunkBytes .json) := by
    simp only [rest, hfirst, Bool.false_eq_true, if_false, Frame.bytes]
  rw [Loader.decodeAll_eq, hrest]
  exact Loader.outcome_frame (f := .header w.header) hfits.header
    (Loader.outcome_chunks hfits.pending) 0

lemma gather_eq_ok {size gathered : ℕ} {cs left : List Chunk} {bytes : Bytes}
    (h : gather C size gathered cs = (.ok bytes, left)) :
    ∃ taken, cs = taken ++ left ∧ (∀ c ∈ taken, c.Fits C) ∧
      (bytes = [] → gathered < size → cs = []) := by
  induction cs generalizing gathered bytes with
  | nil =>
      cases h
      exact ⟨[], rfl, by simp, fun _ _ => rfl⟩
  | cons c rest ih =>
      rw [gather] at h
      split_ifs at h with hlt
      · split at h
        · next frame hframe =>
            obtain ⟨hfits, rfl⟩ := chunkFrame_eq_ok_iff.mp hframe
            rcases hmore : gather C size (gathered + (chunkBytes C c).length) rest with
              ⟨more, left'⟩
            rw [hmore] at h
            cases more with
            | error e => cases h
            | ok more =>
                cases h
                obtain ⟨taken, rfl, htaken, -⟩ := ih hmore
                refine ⟨c :: taken, rfl, by simpa [hfits] using htaken, fun hnil => ?_⟩
                exact absurd (List.append_eq_nil_iff.mp hnil).1 (chunkBytes_ne_nil C c)
        · cases h
      · cases h
        exact ⟨[], rfl, by simp, fun _ hless => absurd hless hlt⟩

lemma opening_eq_ok {first : Bytes} (h : w.opening C = .ok first) :
    (w.headerSent = false → w.header.Fits C) ∧ (first = [] → w.headerSent = true) := by
  unfold opening at h
  split at h
  · next hsent => exact ⟨fun hnot => absurd hsent (by simp [hnot]), fun _ => hsent⟩
  · obtain ⟨hfits, rfl⟩ := headerFrame_eq_ok_iff.mp h
    exact ⟨fun _ => hfits, fun hnil => absurd hnil (headerBytes_ne_nil C w.header)⟩

/-- A read that succeeds has found its frames to fit; one that finds nothing is at the end. -/
lemma read_eq_ok {size : ℕ} {answer : Option Bytes} {w' : DumpWriter} (hintact : w.failed = false)
    (h : w.read C size = (.ok answer, w')) :
    (w.headerSent = false → w.header.Fits C) ∧ (w'.headerSent = true ∧ w'.failed = false) ∧
      (∃ taken, w.pending = taken ++ w'.pending ∧ ∀ c ∈ taken, c.Fits C) ∧
      (answer = none → w.pending = []) := by
  simp only [read, hintact, Bool.false_eq_true, if_false] at h
  split at h
  · cases h
  · next first hopening =>
      obtain ⟨hheader, -⟩ := opening_eq_ok hopening
      split at h
      · cases h
      · next more pending hgather =>
          obtain ⟨taken, hpending, htaken, hend⟩ := gather_eq_ok hgather
          cases h
          refine ⟨hheader, ⟨rfl, rfl⟩, ⟨taken, hpending, htaken⟩, fun hnone => ?_⟩
          have hnil : first ++ more = [] := by simpa using hnone
          obtain ⟨rfl, rfl⟩ := List.append_eq_nil_iff.mp hnil
          exact hend rfl (Nat.lt_of_lt_of_le Nat.one_pos (le_max_right _ _))

/-- **A dump whose reads all succeed fits the frames.** -/
theorem fits_of_drains {sizes : List ℕ} {bytes : Bytes} (hd : Drains C w sizes bytes)
    (hintact : w.failed = false) :
    (w.headerSent = false → w.header.Fits C) ∧ ∀ c ∈ w.pending, c.Fits C := by
  induction hd with
  | ended hread =>
      obtain ⟨hheader, -, -, hend⟩ := read_eq_ok hintact hread
      exact ⟨hheader, by simp [hend rfl]⟩
  | more hread _ ih =>
      obtain ⟨hheader, ⟨-, hintact'⟩, ⟨taken, hpending, htaken⟩, -⟩ := read_eq_ok hintact hread
      obtain ⟨-, hrest⟩ := ih hintact'
      refine ⟨hheader, fun c hc => ?_⟩
      rw [hpending] at hc
      rcases List.mem_append.mp hc with hmem | hmem
      · exact htaken c hmem
      · exact hrest c hmem

lemma mapM_readBack_eq_ok_iff {fs : List Frame} :
    (∃ frames, fs.mapM Frame.readBack = .ok frames) ↔ ∀ f ∈ fs, f.IsFinite := by
  induction fs with
  | nil => exact ⟨fun _ f hf => absurd hf List.not_mem_nil, fun _ => ⟨[], rfl⟩⟩
  | cons f fs ih =>
      rw [List.mapM_cons, List.forall_mem_cons, ← ih]
      by_cases h : f.IsFinite
      · rw [Frame.readBack, if_pos h]
        cases fs.mapM Frame.readBack with
        | error e =>
            constructor
            · rintro ⟨frames, hcons⟩
              cases hcons
            · rintro ⟨-, frames, hrest⟩
              cases hrest
        | ok frames => exact ⟨fun _ => ⟨h, frames, rfl⟩, fun _ => ⟨f.reread :: frames, rfl⟩⟩
      · rw [Frame.readBack, if_neg h]
        refine ⟨fun hcons => ?_, fun hfinite => absurd hfinite.1 h⟩
        obtain ⟨frames, hframes⟩ := hcons
        cases hframes

/-- **A frame or a dump is accepted exactly if its numbers are finite.**  If the frame is written, a
loader that waits for it and is given its bytes reads it back, or fails and names its text.  If all
reads of the dump succeed, decoding its bytes reads every frame back, or fails as the first of them
does that is not read back. -/
theorem accepted_iff (f : Frame) (w : DumpWriter) :
    (∀ bytes decoded, f.encode .json = .ok bytes →
      (Loader.nextFrame .json (Loader.feed ⟨[], f.awaited, decoded⟩ bytes)).1 =
        f.readBack.map some ∧
      ((∃ f', (Loader.nextFrame .json (Loader.feed ⟨[], f.awaited, decoded⟩ bytes)).1 =
        .ok (some f')) ↔ f.IsFinite)) ∧
    ∀ sizes bytes, w.headerSent = false → w.failed = false → Drains .json w sizes bytes →
      decodeAll .json bytes = w.allFrames.mapM Frame.readBack ∧
      ((∃ frames, decodeAll .json bytes = .ok frames) ↔ ∀ g ∈ w.allFrames, g.IsFinite) := by
  refine ⟨fun bytes decoded hencode => ?_, fun sizes bytes hfirst hintact hdrains => ?_⟩
  · obtain ⟨hfits, rfl⟩ := Frame.encode_eq_ok_iff.mp hencode
    obtain ⟨l', hnext, -⟩ := f.nextFrame_eq hfits [] decoded
    have hfeed : Loader.feed ⟨[], f.awaited, decoded⟩ f.bytes =
        ⟨f.bytes ++ [], f.awaited, decoded⟩ := by
      cases f <;> simp [Loader.feed, Frame.awaited]
    rw [hfeed, hnext]
    refine ⟨rfl, ?_⟩
    by_cases h : f.IsFinite
    · rw [Frame.readBack, if_pos h]
      exact ⟨fun _ => h, fun _ => ⟨f.reread, rfl⟩⟩
    · rw [Frame.readBack, if_neg h]
      refine ⟨fun hsome => ?_, fun hfinite => absurd hfinite h⟩
      obtain ⟨f', hf'⟩ := hsome
      cases hf'
  · obtain ⟨hheader, hpending⟩ := fits_of_drains hdrains hintact
    have hfits : w.Fits .json := ⟨hintact, hheader hfirst, hpending⟩
    have hdecode : decodeAll .json bytes = w.allFrames.mapM Frame.readBack := by
      rw [hdrains.eq_rest hfits, decodeAll_rest hfits hfirst]
    rw [hdecode]
    exact ⟨rfl, mapM_readBack_eq_ok_iff⟩

/-- A chunk whose duration is not a number. -/
def unmeasured : Chunk := ⟨0, 0 / 0, [0], none⟩

/-- The dump of that chunk. -/
def unmeasuredDump : DumpWriter := ofChunks { streamKey := "a", chunkDuration := 1 } [unmeasured] 1

/-- The chunk is written, and so is its dump, and both are refused. -/
theorem unmeasured_refused :
    (Frame.chunk unmeasured).encode .json = .ok (chunkBytes .json unmeasured) ∧
      (Loader.nextFrame .json (Loader.feed ⟨[], .chunk, 0⟩ (chunkBytes .json unmeasured))).1 =
        .error .invalidHead ∧
      ∃ sizes, Drains .json unmeasuredDump sizes (unmeasuredDump.rest .json) ∧
        decodeAll .json (unmeasuredDump.rest .json) = .error .invalidHead := by
  have hfits : unmeasured.Fits .json := by decide +kernel
  have hencode : (Frame.chunk unmeasured).encode .json = .ok (chunkBytes .json unmeasured) :=
    Frame.encode_eq_ok_iff.mpr ⟨hfits, rfl⟩
  have hread : (Frame.chunk unmeasured).readBack = .error .invalidHead := if_neg (by decide +kernel)
  have hopen : (Frame.header unmeasuredDump.header).readBack =
      .ok (.header unmeasuredDump.header.reread) := if_pos (by decide +kernel)
  have hdump : unmeasuredDump.Fits .json := ⟨rfl, by decide +kernel, by decide +kernel⟩
  obtain ⟨reads, hdrains⟩ := exists_drains hdump fun _ => 1
  obtain ⟨hframe, hdecode⟩ := accepted_iff (.chunk unmeasured) unmeasuredDump
  refine ⟨hencode, ?_, _, hdrains, ?_⟩
  · refine (hframe _ 0 hencode).1.trans ?_
    rw [hread]
    rfl
  · have hframes : unmeasuredDump.allFrames =
        [.header unmeasuredDump.header, .chunk unmeasured] := rfl
    refine (hdecode _ _ rfl rfl hdrains).1.trans ?_
    rw [hframes, List.mapM_cons, List.mapM_cons, hopen, hread]
    rfl

/-- Not every frame that is written is read back, and not every dump whose reads all succeed is
accepted. -/
theorem not_forall_accepted :
    (¬ ∀ (f : Frame) (bytes : Bytes) (decoded : ℕ), f.encode .json = .ok bytes →
      ∃ f', (Loader.nextFrame .json (Loader.feed ⟨[], f.awaited, decoded⟩ bytes)).1 =
        .ok (some f')) ∧
    ¬ ∀ (w : DumpWriter) (sizes : List ℕ) (bytes : Bytes), w.headerSent = false →
      w.failed = false → Drains .json w sizes bytes →
      ∃ frames, decodeAll .json bytes = .ok frames := by
  have hfits : unmeasured.Fits .json := by decide +kernel
  have hnot : ¬ (Frame.chunk unmeasured).IsFinite := by decide +kernel
  refine ⟨fun h => ?_, fun h => ?_⟩
  · obtain ⟨f', hf'⟩ := h (.chunk unmeasured) _ 0 (Frame.encode_eq_ok_iff.mpr ⟨hfits, rfl⟩)
    obtain ⟨l', hnext, -⟩ := Frame.nextFrame_eq (f := .chunk unmeasured) hfits [] 0
    rw [List.append_nil, Frame.readBack, if_neg hnot] at hnext
    have hanswer := congrArg Prod.fst hnext
    exact absurd (hf'.symm.trans hanswer) (by simp [Except.map])
  · have hdump : unmeasuredDump.Fits .json :=
      ⟨rfl, by decide +kernel, by simpa [unmeasuredDump, ofChunks] using hfits⟩
    obtain ⟨reads, hdrains⟩ := exists_drains hdump fun _ => 1
    obtain ⟨frames, hframes⟩ := h _ _ _ rfl rfl hdrains
    rw [decodeAll_rest hdump rfl] at hframes
    have hall := mapM_readBack_eq_ok_iff.mp ⟨frames, hframes⟩
    exact hnot (hall _ (by simp [allFrames, unmeasuredDump, ofChunks]))

end DumpWriter

end RewindRelay
