import RewindRelay.Dump.Loader
import RewindRelay.Proofs.Bytes
/-!
# What a loader finds

A loader looks at the front of its buffer and decides: there is no whole frame yet, there is
damage, or there is a frame.  Two facts about that decision carry all that is said about decoding.
A frame is found exactly where its bytes are, with the lengths that they declare; and a decision
stands, whatever bytes come later.

* `Loader.Spells` — the bytes that are a frame.
* `Loader.spells_of_nextFrame`, `Loader.Spells.nextFrame_eq` — **a frame is found exactly where its
  bytes are.**
* `Loader.nextFrame_feed` — **a decision stands, whatever follows.**
* `Loader.Settled`, `Loader.drainInduction` — decoding one frame after another.
* `Loader.Contents`, `Loader.contents_drain`, `Loader.Contents.drain_eq` — **the frames that an
  input holds are those that are drained.**
-/

namespace RewindRelay.Loader

variable {C : Codec} {l l' : Loader}

/-! ## Frames and their bytes -/

/-- The bytes are the frame, for a loader in this phase. -/
inductive Spells (C : Codec) : LoaderPhase → Bytes → Frame → Prop
  | header {text : Bytes} {h : Header} (length : text.length ≤ Frame.maxHeader)
    (read : C.readHeader text = some h) :
    Spells C .header (Bytes.littleEndian 4 text.length ++ text) (.header h)
  | chunk {text data : Bytes} {head : ChunkHead} (length : text.length ≤ Frame.maxHead)
    (size : data.length ≤ Frame.maxPayload) (read : C.readHead text = some head) :
    Spells C .chunk
      (Bytes.littleEndian 1 text.length ++ (text ++ (Bytes.littleEndian 2 data.length ++ data)))
      (.chunk (head.chunk data))

lemma littleEndian_one (n : ℕ) : Bytes.littleEndian 1 n = [UInt8.ofNat n] := rfl

lemma headerAt_spelled {text : Bytes} {h : Header} (hlen : text.length ≤ Frame.maxHeader)
    (hread : C.readHeader text = some h) (rest : Bytes) :
    headerAt C (Bytes.littleEndian 4 text.length ++ text ++ rest) = .whole h rest := by
  have hfield : Bytes.ofLittleEndian (Bytes.littleEndian 4 text.length) = text.length :=
    Bytes.ofLittleEndian_littleEndian _ _ (Nat.lt_of_le_of_lt hlen (by decide))
  simp only [headerAt, List.append_assoc, Bytes.cut_append (Bytes.length_littleEndian _ _), hfield,
    if_neg (Nat.not_lt.mpr hlen), Bytes.cut_append rfl, hread]

lemma chunkAt_spelled {text data : Bytes} {head : ChunkHead}
    (hlen : text.length ≤ Frame.maxHead) (hsize : data.length ≤ Frame.maxPayload)
    (hread : C.readHead text = some head) (rest : Bytes) :
    chunkAt C (Bytes.littleEndian 1 text.length ++
      (text ++ (Bytes.littleEndian 2 data.length ++ data)) ++ rest) =
        .whole (head.chunk data) rest := by
  have hhead : (UInt8.ofNat text.length).toNat = text.length :=
    UInt8.toNat_ofNat_of_lt' (Nat.lt_of_le_of_lt hlen (by decide))
  have hfield : Bytes.ofLittleEndian (Bytes.littleEndian 2 data.length) = data.length :=
    Bytes.ofLittleEndian_littleEndian _ _ (Nat.lt_of_le_of_lt hsize (by decide))
  simp only [chunkAt, littleEndian_one, List.cons_append, List.nil_append, List.append_assoc, hhead,
    Bytes.cut_append rfl, Bytes.cut_append (Bytes.length_littleEndian _ _), hfield, hread]

lemma spells_of_headerAt {input rest : Bytes} {h : Header}
    (hfront : headerAt C input = .whole h rest) :
    ∃ bytes, input = bytes ++ rest ∧ Spells C .header bytes (.header h) := by
  simp only [headerAt] at hfront
  split at hfront
  · cases hfront
  · next field text hfield =>
      obtain ⟨rfl, hlen⟩ := Bytes.cut_eq_some_iff.mp hfield
      split_ifs at hfront with hle
      split at hfront
      · cases hfront
      · next document rest' hdocument =>
          obtain ⟨rfl, hlength⟩ := Bytes.cut_eq_some_iff.mp hdocument
          split at hfront
          · next h' hread =>
              cases hfront
              have hwritten := Bytes.littleEndian_ofLittleEndian field
              rw [hlen, ← hlength] at hwritten
              refine ⟨field ++ document, (List.append_assoc _ _ _).symm, ?_⟩
              rw [← hwritten]
              exact .header (by omega) hread
          · cases hfront

lemma spells_of_chunkAt {input rest : Bytes} {c : Chunk}
    (hfront : chunkAt C input = .whole c rest) :
    ∃ bytes, input = bytes ++ rest ∧ Spells C .chunk bytes (.chunk c) := by
  simp only [chunkAt] at hfront
  split at hfront
  · cases hfront
  · next length tail =>
      split at hfront
      · cases hfront
      · next text afterText htext =>
          obtain ⟨rfl, hlength⟩ := Bytes.cut_eq_some_iff.mp htext
          split at hfront
          · cases hfront
          · next field afterField hfield =>
              obtain ⟨rfl, hwidth⟩ := Bytes.cut_eq_some_iff.mp hfield
              split at hfront
              · cases hfront
              · next data rest' hdata =>
                  obtain ⟨rfl, hsize⟩ := Bytes.cut_eq_some_iff.mp hdata
                  split at hfront
                  · next head hread =>
                      cases hfront
                      have hbyte : length.toNat < 256 := length.toNat_lt
                      have hfirst : Bytes.littleEndian 1 text.length = [length] := by
                        rw [littleEndian_one, hlength, UInt8.ofNat_toNat]
                      have hlt := Bytes.ofLittleEndian_lt field
                      have hwritten := Bytes.littleEndian_ofLittleEndian field
                      rw [hwidth] at hlt
                      rw [hwidth, ← hsize] at hwritten
                      refine ⟨length :: (text ++ (field ++ data)),
                        by simp only [List.cons_append, List.append_assoc], ?_⟩
                      rw [← hwritten, ← List.singleton_append, ← hfirst]
                      refine .chunk ?_ ?_ hread
                      · rw [hlength]
                        exact Nat.le_of_lt_succ hbyte
                      · rw [hsize]
                        exact Nat.le_of_lt_succ hlt
                  · cases hfront

/-- **What is found is there.** -/
theorem spells_of_nextFrame {f : Frame} (h : l.nextFrame C = (.ok (some f), l')) :
    l'.phase = .chunk ∧ ∃ bytes, l.buffer = bytes ++ l'.buffer ∧ Spells C l.phase bytes f := by
  obtain ⟨buffer, phase, decoded⟩ := l
  cases phase with
  | spent => cases h
  | header =>
      simp only [nextFrame] at h
      split at h
      · cases h
      · cases h
      · next hfront =>
          cases h
          exact ⟨rfl, spells_of_headerAt hfront⟩
  | chunk =>
      simp only [nextFrame] at h
      split at h
      · cases h
      · cases h
      · next hfront =>
          cases h
          exact ⟨rfl, spells_of_chunkAt hfront⟩

/-- **What is there is found.** -/
theorem Spells.nextFrame_eq {phase : LoaderPhase} {bytes : Bytes} {f : Frame}
    (h : Spells C phase bytes f) (rest : Bytes) (decoded : ℕ) :
    ∃ decoded', nextFrame C ⟨bytes ++ rest, phase, decoded⟩ =
      (.ok (some f), ⟨rest, .chunk, decoded'⟩) := by
  cases h with
  | header length read =>
      exact ⟨decoded, by simp only [nextFrame, headerAt_spelled length read rest]⟩
  | chunk length size read =>
      exact ⟨decoded + 1, by simp only [nextFrame, chunkAt_spelled length size read rest]⟩

lemma Spells.ne_nil {phase : LoaderPhase} {bytes : Bytes} {f : Frame} (h : Spells C phase bytes f) :
    bytes ≠ [] := by
  cases h <;> simp [Bytes.littleEndian]

lemma buffered_lt_of_nextFrame {f : Frame} (h : l.nextFrame C = (.ok (some f), l')) :
    l'.buffered < l.buffered := by
  obtain ⟨-, bytes, hbuffer, hspells⟩ := spells_of_nextFrame h
  have hpos := List.length_pos_iff.mpr hspells.ne_nil
  rw [buffered, buffered, hbuffer, List.length_append]
  omega

/-! ## More input -/

@[simp] lemma feed_nil (l : Loader) : l.feed [] = l := by
  simp only [feed, List.append_nil, ite_self]

lemma feed_feed (l : Loader) (first second : Bytes) :
    (l.feed first).feed second = l.feed (first ++ second) := by
  by_cases hspent : l.phase = .spent
  · simp only [feed, hspent, if_true]
  · simp only [feed, hspent, if_false, List.append_assoc]

lemma feed_of_spent (h : l.phase = .spent) (more : Bytes) : l.feed more = l := if_pos h

/-- The front of an input that goes on. -/
def Front.extend {α : Type} (more : Bytes) : Front α → Front α
  | .incomplete => .incomplete
  | .damaged e => .damaged e
  | .whole a rest => .whole a (rest ++ more)

lemma headerAt_append {input : Bytes} {front : Front Header} (hfront : headerAt C input = front)
    (h : front ≠ .incomplete) (more : Bytes) :
    headerAt C (input ++ more) = front.extend more := by
  subst hfront
  unfold headerAt at h ⊢
  cases hfield : Bytes.cut 4 input with
  | none => simp [hfield] at h
  | some cutField =>
      obtain ⟨field, tail⟩ := cutField
      simp only [hfield, Bytes.cut_append_of_eq_some hfield more] at h ⊢
      split_ifs at h ⊢ with hlarge
      · rfl
      · cases htext : Bytes.cut (Bytes.ofLittleEndian field) tail with
        | none => simp [htext] at h
        | some cutText =>
            obtain ⟨text, rest⟩ := cutText
            simp only [Bytes.cut_append_of_eq_some htext more]
            cases C.readHeader text <;> rfl

lemma chunkAt_append {input : Bytes} {front : Front Chunk} (hfront : chunkAt C input = front)
    (h : front ≠ .incomplete) (more : Bytes) :
    chunkAt C (input ++ more) = front.extend more := by
  subst hfront
  cases input with
  | nil => exact absurd rfl h
  | cons length tail =>
      simp only [chunkAt, List.cons_append] at h ⊢
      cases htext : Bytes.cut length.toNat tail with
      | none => simp [htext] at h
      | some cutText =>
          obtain ⟨text, afterText⟩ := cutText
          simp only [htext, Bytes.cut_append_of_eq_some htext more] at h ⊢
          cases hfield : Bytes.cut 2 afterText with
          | none => simp [hfield] at h
          | some cutField =>
              obtain ⟨field, afterField⟩ := cutField
              simp only [hfield, Bytes.cut_append_of_eq_some hfield more] at h ⊢
              cases hdata : Bytes.cut (Bytes.ofLittleEndian field) afterField with
              | none => simp [hdata] at h
              | some cutData =>
                  obtain ⟨data, rest⟩ := cutData
                  simp only [Bytes.cut_append_of_eq_some hdata more]
                  cases C.readHead text <;> rfl

/-- **A decision stands, whatever follows.** -/
theorem nextFrame_feed (h : (l.nextFrame C).1 ≠ .ok none) (more : Bytes) :
    (l.feed more).nextFrame C = ((l.nextFrame C).1, (l.nextFrame C).2.feed more) := by
  obtain ⟨buffer, phase, decoded⟩ := l
  cases phase with
  | spent => exact absurd rfl h
  | header =>
      have hfeed : feed ⟨buffer, .header, decoded⟩ more = ⟨buffer ++ more, .header, decoded⟩ := rfl
      cases hfront : headerAt C buffer with
      | incomplete => exact absurd (by simp only [nextFrame, hfront]) h
      | damaged e =>
          have hmore := headerAt_append hfront (by simp) more
          simp only [hfeed, nextFrame, hfront, hmore, Front.extend]
          rfl
      | whole header rest =>
          have hmore := headerAt_append hfront (by simp) more
          simp only [hfeed, nextFrame, hfront, hmore, Front.extend]
          rfl
  | chunk =>
      have hfeed : feed ⟨buffer, .chunk, decoded⟩ more = ⟨buffer ++ more, .chunk, decoded⟩ := rfl
      cases hfront : chunkAt C buffer with
      | incomplete => exact absurd (by simp only [nextFrame, hfront]) h
      | damaged e =>
          have hmore := chunkAt_append hfront (by simp) more
          simp only [hfeed, nextFrame, hfront, hmore, Front.extend]
          rfl
      | whole c rest =>
          have hmore := chunkAt_append hfront (by simp) more
          simp only [hfeed, nextFrame, hfront, hmore, Front.extend]
          rfl

lemma nextFrame_feed_of_eq {answer : Except FrameError (Option Frame)}
    (h : l.nextFrame C = (answer, l')) (hne : answer ≠ .ok none) (more : Bytes) :
    (l.feed more).nextFrame C = (answer, l'.feed more) := by
  rw [nextFrame_feed (by rwa [h]), h]

lemma phase_feed (l : Loader) (bytes : Bytes) : (l.feed bytes).phase = l.phase := by
  unfold feed
  split <;> rfl

/-! ## One frame after another -/

/-- Nothing more comes out of the loader. -/
def Settled (C : Codec) (l : Loader) : Prop := (l.nextFrame C).1 = .ok none

instance : Decidable (Settled C l) :=
  match h : (l.nextFrame C).1 with
  | .ok none => .isTrue h
  | .ok (some _) => .isFalse (by simp [Settled, h])
  | .error _ => .isFalse (by simp [Settled, h])

lemma eq_of_nextFrame_none (h : l.nextFrame C = (.ok none, l')) : l' = l := by
  simp only [nextFrame] at h
  split at h
  · cases h
    rfl
  · split at h <;> cases h
    rfl
  · split at h <;> cases h
    rfl

lemma Settled.nextFrame_eq (h : Settled C l) : l.nextFrame C = (.ok none, l) := by
  rcases hnext : l.nextFrame C with ⟨answer, l'⟩
  obtain rfl : answer = .ok none := by rw [← h, hnext]
  rw [eq_of_nextFrame_none hnext]

lemma settled_of_spent (h : l.phase = .spent) : Settled C l := by
  simp only [Settled, nextFrame, h]

lemma eq_of_nextFrame_error {e : FrameError} (h : l.nextFrame C = (.error e, l')) :
    l' = l.spend := by
  simp only [nextFrame] at h
  split at h
  · cases h
  · split at h <;> cases h
    rfl
  · split at h <;> cases h
    rfl

lemma spent_of_nextFrame {e : FrameError} (h : l.nextFrame C = (.error e, l')) :
    l'.phase = .spent := by
  rw [eq_of_nextFrame_error h]
  rfl

/-- A loader gives one frame after another until it settles or fails. -/
@[elab_as_elim]
theorem drainInduction {motive : Loader → Prop} (settled : ∀ l, Settled C l → motive l)
    (failed : ∀ l l' e, l.nextFrame C = (.error e, l') → motive l)
    (frame : ∀ l l' f, l.nextFrame C = (.ok (some f), l') → motive l' → motive l) (l : Loader) :
    motive l := by
  induction hn : l.buffered using Nat.strongRecOn generalizing l with
  | _ n ih =>
      rcases hnext : l.nextFrame C with ⟨e | _ | f, l'⟩
      · exact failed l l' e hnext
      · exact settled l (by rw [Settled, hnext])
      · exact frame l l' f hnext (ih _ (hn ▸ buffered_lt_of_nextFrame hnext) l' rfl)

lemma drainUpTo_of_frame {f : Frame} (h : l.nextFrame C = (.ok (some f), l')) (n : ℕ) :
    drainUpTo C (n + 1) l = (f :: (drainUpTo C n l').1, (drainUpTo C n l').2) := by
  rw [drainUpTo, h]

/-- A limit above the number of bytes is never reached. -/
lemma drainUpTo_succ {n : ℕ} (h : l.buffered ≤ n) : drainUpTo C (n + 1) l = drain C l := by
  induction l using drainInduction (C := C) generalizing n with
  | settled l hsettled => simp only [drain, drainUpTo, hsettled.nextFrame_eq]
  | failed l l' e hnext => simp only [drain, drainUpTo, hnext]
  | frame l l' f hnext ih =>
      have hlt := buffered_lt_of_nextFrame hnext
      obtain ⟨k, hk⟩ := Nat.exists_eq_add_one.mpr (Nat.zero_lt_of_lt hlt)
      obtain ⟨m, rfl⟩ := Nat.exists_eq_add_one.mpr (Nat.lt_of_lt_of_le (hk ▸ k.succ_pos) h)
      rw [drain, hk, drainUpTo_of_frame hnext, drainUpTo_of_frame hnext,
        ih (show l'.buffered ≤ m by omega), ih (show l'.buffered ≤ k by omega)]

lemma drain_of_settled (h : Settled C l) : drain C l = ([], .ok (), l) := by
  simp only [drain, drainUpTo, h.nextFrame_eq]

lemma drain_of_error {e : FrameError} (h : l.nextFrame C = (.error e, l')) :
    drain C l = ([], .error e, l') := by
  simp only [drain, drainUpTo, h]

lemma drain_of_frame {f : Frame} (h : l.nextFrame C = (.ok (some f), l')) :
    drain C l = (f :: (drain C l').1, (drain C l').2) := by
  have hlt := buffered_lt_of_nextFrame h
  obtain ⟨k, hk⟩ := Nat.exists_eq_add_one.mpr (Nat.zero_lt_of_lt hlt)
  rw [drain, hk, drainUpTo_of_frame h, drainUpTo_succ (show l'.buffered ≤ k by omega)]

/-! ## What an input holds -/

/-- The input is these frames, one after the other, and a rest. -/
inductive Spelled (C : Codec) : LoaderPhase → Bytes → List Frame → Bytes → Prop
  | nil (phase : LoaderPhase) (rest : Bytes) : Spelled C phase rest [] rest
  | cons {phase : LoaderPhase} {bytes input rest : Bytes} {f : Frame} {frames : List Frame} :
    Spells C phase bytes f → Spelled C .chunk input frames rest →
      Spelled C phase (bytes ++ input) (f :: frames) rest

lemma Spelled.exists_chunks {input rest : Bytes} {frames : List Frame}
    (h : Spelled C .chunk input frames rest) :
    ∃ chunks : List Chunk, frames = chunks.map .chunk := by
  generalize hphase : LoaderPhase.chunk = phase at h
  induction h with
  | nil phase rest => exact ⟨[], rfl⟩
  | cons hspells _ ih =>
      subst hphase
      obtain ⟨chunks, rfl⟩ := ih rfl
      cases hspells with
      | @chunk text data head length size read => exact ⟨head.chunk data :: chunks, rfl⟩

/-- The frames of a dump are a header and chunks, unless there are none. -/
lemma Spelled.dump_cases {input rest : Bytes} {frames : List Frame}
    (h : Spelled C .header input frames rest) :
    frames = [] ∨ ∃ (header : Header) (chunks : List Chunk),
      frames = .header header :: chunks.map .chunk := by
  cases h with
  | nil => exact Or.inl rfl
  | cons hspells hrest =>
      obtain ⟨chunks, rfl⟩ := hrest.exists_chunks
      cases hspells with
      | @header text header length read => exact Or.inr ⟨header, chunks, rfl⟩

/-- What a loader waits for after some frames. -/
def phaseAfter (phase : LoaderPhase) : List Frame → LoaderPhase
  | [] => phase
  | _ :: _ => .chunk

/-- What is drained from frames in a row, and from the rest behind them. -/
lemma Spelled.drain_eq {phase : LoaderPhase} {input rest : Bytes} {frames : List Frame}
    (h : Spelled C phase input frames rest) (decoded : ℕ) :
    ∃ decoded', drain C ⟨input, phase, decoded⟩ =
      (frames ++ (drain C ⟨rest, phaseAfter phase frames, decoded'⟩).1,
        (drain C ⟨rest, phaseAfter phase frames, decoded'⟩).2) := by
  induction h generalizing decoded with
  | nil phase rest => exact ⟨decoded, rfl⟩
  | @cons phase bytes input rest f frames hspells hspelled ih =>
      obtain ⟨decoded₁, hnext⟩ := hspells.nextFrame_eq input decoded
      obtain ⟨decoded₂, hdrain⟩ := ih decoded₁
      have hphase : phaseAfter .chunk frames = phaseAfter phase (f :: frames) := by
        cases frames <;> rfl
      rw [hphase] at hdrain
      exact ⟨decoded₂, by rw [drain_of_frame hnext, hdrain]; rfl⟩

/-- The whole frames at the front of an input, and the rest, which begins with no other one. -/
structure Contents (C : Codec) (phase : LoaderPhase) (input : Bytes) (frames : List Frame)
    (rest : Bytes) : Prop where
  spelled : Spelled C phase input frames rest
  maximal : ∀ bytes more f, rest = bytes ++ more → ¬ Spells C (phaseAfter phase frames) bytes f

lemma maximal_of_nextFrame (h : ∀ f l', l.nextFrame C ≠ (.ok (some f), l')) (bytes more : Bytes)
    (f : Frame) (hbuffer : l.buffer = bytes ++ more) : ¬ Spells C l.phase bytes f := by
  intro hspells
  obtain ⟨decoded, hnext⟩ := hspells.nextFrame_eq more l.chunksDecoded
  rw [← hbuffer] at hnext
  exact h _ _ hnext

/-- **What is drained is what the input holds.** -/
theorem contents_drain (l : Loader) : ∃ rest, Contents C l.phase l.buffer (drain C l).1 rest := by
  induction l using drainInduction (C := C) with
  | settled l hsettled =>
      rw [drain_of_settled hsettled]
      refine ⟨l.buffer, .nil _ _, maximal_of_nextFrame fun f l' => ?_⟩
      rw [hsettled.nextFrame_eq]
      simp
  | failed l l' e hnext =>
      rw [drain_of_error hnext]
      refine ⟨l.buffer, .nil _ _, maximal_of_nextFrame fun f l' => ?_⟩
      rw [hnext]
      simp
  | frame l l' f hnext ih =>
      obtain ⟨rest, hrest⟩ := ih
      obtain ⟨hphase, bytes, hbuffer, hspells⟩ := spells_of_nextFrame hnext
      rw [drain_of_frame hnext]
      rw [hphase] at hrest
      refine ⟨rest, by rw [hbuffer]; exact .cons hspells hrest.spelled, ?_⟩
      cases hframes : (drain C l').1 with
      | nil =>
          rw [hframes] at hrest
          exact hrest.maximal
      | cons g frames =>
          rw [hframes] at hrest
          exact hrest.maximal

/-- **An input holds one list of frames.** -/
theorem Contents.drain_eq {phase : LoaderPhase} {input rest : Bytes} {frames : List Frame}
    (h : Contents C phase input frames rest) (decoded : ℕ) :
    (drain C ⟨input, phase, decoded⟩).1 = frames := by
  obtain ⟨decoded', hdrain⟩ := h.spelled.drain_eq decoded
  rw [hdrain]
  rcases hnext : nextFrame C ⟨rest, phaseAfter phase frames, decoded'⟩ with ⟨e | _ | f, l'⟩
  · rw [drain_of_error hnext, List.append_nil]
  · rw [drain_of_settled (by rw [Settled, hnext]), List.append_nil]
  · obtain ⟨-, bytes, hbuffer, hspells⟩ := spells_of_nextFrame hnext
    exact absurd hspells (h.maximal bytes l'.buffer f hbuffer)

end RewindRelay.Loader
