import RewindRelay.Proofs.Dump.Delivery
import RewindRelay.Proofs.Dump.Grammar
/-!
# How far a loader gets, and how much it holds

Whoever sends a dump decides what the length fields say.  A loader asks nothing of them but that a
header be no longer than its limit, and two things follow from their widths alone.  No frame is
empty, so that taking frames until there is none comes to an end; and no frame is longer than its
fields can say, so that a loader which waits for the rest of one holds less than the longest.

* `Loader.declared` — the length that the fields at the front of an input declare.
* `Loader.takes_of_nextFrame` — **a frame takes what it declares**, and three bytes at least.
* `Loader.StopsAfter`, `Loader.stopsAfter_drain` — **the loop over all frames ends.**
* `Loader.Taken`, `Loader.failed_or_taken` — **nothing is lost**, unless there has been an error.
* `Loader.Unfinished.length_le` — **an unfinished frame is not long.**
* `Loader.progress` — **any calls, on any bytes.**
-/

namespace RewindRelay.Loader

variable {C : Codec} {l l' : Loader} {phase : LoaderPhase} {input : Bytes}

/-! ## One frame -/

/-- The length of the first frame, its length fields included, as these fields have it. -/
def declared : LoaderPhase → Bytes → ℕ
  | .header, input => 4 + Bytes.ofLittleEndian (input.take 4)
  | .chunk, input =>
    let head := Bytes.ofLittleEndian (input.take 1)
    1 + head + 2 + Bytes.ofLittleEndian ((input.drop (1 + head)).take 2)
  | .spent, _ => 0

/-- A frame is taken off the front of the buffer, with the length that it declares. -/
structure Takes (l l' : Loader) : Prop where
  atLeastThree : 3 ≤ declared l.phase l.buffer
  isThere : declared l.phase l.buffer ≤ l.buffered
  rest : l'.buffer = l.buffer.drop (declared l.phase l.buffer)

lemma Spells.declared_eq {bytes : Bytes} {f : Frame} (h : Spells C phase bytes f) (rest : Bytes) :
    declared phase (bytes ++ rest) = bytes.length := by
  cases h with
  | @header text _ length read =>
      have hfield : Bytes.ofLittleEndian (Bytes.littleEndian 4 text.length) = text.length :=
        Bytes.ofLittleEndian_littleEndian _ _ (Nat.lt_of_le_of_lt length (by decide))
      rw [declared, List.append_assoc, List.take_left' (Bytes.length_littleEndian _ _), hfield,
        List.length_append, Bytes.length_littleEndian]
  | @chunk text data _ length size read =>
      have hhead : Bytes.ofLittleEndian (Bytes.littleEndian 1 text.length) = text.length :=
        Bytes.ofLittleEndian_littleEndian _ _ (Nat.lt_of_le_of_lt length (by decide))
      have hfield : Bytes.ofLittleEndian (Bytes.littleEndian 2 data.length) = data.length :=
        Bytes.ofLittleEndian_littleEndian _ _ (Nat.lt_of_le_of_lt size (by decide))
      have hskip : (Bytes.littleEndian 1 text.length ++ text).length = 1 + text.length := by
        rw [List.length_append, Bytes.length_littleEndian]
      simp only [declared, List.append_assoc, List.take_left' (Bytes.length_littleEndian _ _),
        hhead]
      rw [← List.append_assoc, List.drop_left' hskip,
        List.take_left' (Bytes.length_littleEndian _ _), hfield]
      simp only [List.length_append, Bytes.length_littleEndian]
      omega

lemma Spells.three_le_length {bytes : Bytes} {f : Frame} (h : Spells C phase bytes f) :
    3 ≤ bytes.length := by
  cases h <;> simp only [List.length_append, Bytes.length_littleEndian] <;> omega

/-- **A frame takes what it declares.** -/
theorem takes_of_nextFrame {f : Frame} (h : l.nextFrame C = (.ok (some f), l')) : Takes l l' := by
  obtain ⟨-, bytes, hbuffer, hspells⟩ := spells_of_nextFrame h
  have hdeclared := hspells.declared_eq l'.buffer
  rw [← hbuffer] at hdeclared
  refine ⟨hdeclared ▸ hspells.three_le_length, ?_, ?_⟩
  · rw [hdeclared, buffered, hbuffer, List.length_append]
    exact Nat.le_add_right _ _
  · rw [hdeclared, hbuffer, List.drop_left]

lemma Takes.three_add_buffered_le (h : Takes l l') : 3 + l'.buffered ≤ l.buffered := by
  have hthree := h.atLeastThree
  have hthere := h.isThere
  have hrest : l'.buffered = l.buffered - declared l.phase l.buffer := by
    rw [buffered, h.rest, List.length_drop, buffered]
  omega

/-! ## One frame after another -/

/-- Asking for frames until there is none, or there is an error, takes this many calls. -/
inductive StopsAfter (C : Codec) : Loader → ℕ → Prop
  | last {l : Loader} (none : ∀ f l', l.nextFrame C ≠ (.ok (some f), l')) : StopsAfter C l 1
  | more {l l' : Loader} {f : Frame} {n : ℕ} : l.nextFrame C = (.ok (some f), l') →
    StopsAfter C l' n → StopsAfter C l (n + 1)

/-- **The loop over all frames ends**, one call behind the last frame, and there is a frame for
every three bytes at most. -/
theorem stopsAfter_drain (C : Codec) (l : Loader) :
    StopsAfter C l ((drain C l).1.length + 1) ∧ (drain C l).1.length ≤ l.buffered / 3 := by
  induction l using drainInduction (C := C) with
  | settled l hsettled =>
      rw [drain_of_settled hsettled]
      refine ⟨.last fun f l' => ?_, Nat.zero_le _⟩
      rw [hsettled.nextFrame_eq]
      nofun
  | failed l l' e hnext =>
      rw [drain_of_error hnext]
      refine ⟨.last fun f l' => ?_, Nat.zero_le _⟩
      rw [hnext]
      nofun
  | frame l l' f hnext ih =>
      have hfewer := (takes_of_nextFrame hnext).three_add_buffered_le
      rw [drain_of_frame hnext]
      refine ⟨.more hnext ih.1, ?_⟩
      have hle := ih.2
      simp only [List.length_cons]
      omega

/-! ## All that has been fed -/

/-- The frames that the calls give, with their bytes.  With what is left, these bytes are all that
there was. -/
structure Taken (C : Codec) (l : Loader) (calls : List Call) (parts : List (Bytes × Frame)) :
    Prop where
  row : Row C l.phase parts
  given : (perform C l calls).1 = parts.map fun part => .ok part.2
  whole : joined parts ++ (perform C l calls).2.buffer = l.buffer ++ fed calls
  awaits : (perform C l calls).2.phase = phaseAfter l.phase (parts.map Prod.snd)

/-- There has been an error, and nothing is left. -/
structure Failed (C : Codec) (l : Loader) (calls : List Call) : Prop where
  error : ∃ e, .error e ∈ (perform C l calls).1
  empty : (perform C l calls).2.buffer = []

lemma buffer_of_nextFrame_error {e : FrameError} (h : l.nextFrame C = (.error e, l')) :
    l'.buffer = [] := by
  rw [eq_of_nextFrame_error h]
  rfl

/-- Nothing is given and nothing is left over while bytes are fed. -/
lemma Taken.feed {bytes : Bytes} {calls : List Call} {parts : List (Bytes × Frame)}
    (hphase : l.phase ≠ .spent) (h : Taken C (l.feed bytes) calls parts) :
    Taken C l (.feed bytes :: calls) parts := by
  have hbuffer : (l.feed bytes).buffer = l.buffer ++ bytes := by rw [Loader.feed, if_neg hphase]
  refine ⟨?_, h.given, ?_, ?_⟩
  · rw [← phase_feed l bytes]
    exact h.row
  · rw [perform, h.whole, hbuffer, fed, List.append_assoc]
  · rw [perform, h.awaits, phase_feed]

/-- One more frame in front. -/
lemma Taken.next {f : Frame} {calls : List Call} {parts : List (Bytes × Frame)}
    (hnext : l.nextFrame C = (.ok (some f), l')) (h : Taken C l' calls parts) :
    ∃ bytes, Taken C l (.next :: calls) ((bytes, f) :: parts) := by
  obtain ⟨hchunk, bytes, hbuffer, hspells⟩ := spells_of_nextFrame hnext
  have hrow := h.row
  rw [hchunk] at hrow
  refine ⟨bytes, .cons hspells hrow, ?_, ?_, ?_⟩
  · rw [perform_next_of_frame hnext, h.given]
    rfl
  · rw [perform_next_of_frame hnext, fed, hbuffer, List.append_assoc, ← h.whole,
      ← List.append_assoc]
    rfl
  · rw [perform_next_of_frame hnext, h.awaits, hchunk, phaseAfter_chunk]
    rfl

/-- **Nothing is lost.**  Unless there has been an error, all that was fed is in the frames or still
there. -/
theorem failed_or_taken (hphase : l.phase ≠ .spent) (calls : List Call) :
    Failed C l calls ∨ ∃ parts, Taken C l calls parts := by
  induction calls generalizing l with
  | nil => exact Or.inr ⟨[], .nil _, rfl, (List.append_nil _).symm, rfl⟩
  | cons call rest ih =>
      cases call with
      | feed bytes =>
          rcases ih (l := l.feed bytes) (by rwa [phase_feed]) with hfailed | ⟨parts, htaken⟩
          · exact Or.inl ⟨hfailed.error, hfailed.empty⟩
          · exact Or.inr ⟨parts, htaken.feed hphase⟩
      | next =>
          rcases hnext : l.nextFrame C with ⟨e | _ | f, l'⟩
          · have hall := perform_next_of_error hnext rest
            refine Or.inl ⟨⟨e, ?_⟩, ?_⟩
            · rw [hall]
              exact List.mem_singleton_self _
            · rw [hall]
              exact buffer_of_nextFrame_error hnext
          · have hall := perform_next_of_none hnext rest
            rcases ih hphase with ⟨herror, hempty⟩ | ⟨parts, hrow, hgiven, hwhole, hawaits⟩
            · exact Or.inl ⟨hall ▸ herror, hall ▸ hempty⟩
            · exact Or.inr ⟨parts, hrow, hall ▸ hgiven, hall ▸ hwhole, hall ▸ hawaits⟩
          · have hall := perform_next_of_frame hnext rest
            have hawake : l'.phase ≠ .spent := by
              rw [(spells_of_nextFrame hnext).1]
              nofun
            rcases ih hawake with ⟨⟨e, he⟩, hempty⟩ | ⟨parts, htaken⟩
            · refine Or.inl ⟨⟨e, ?_⟩, ?_⟩
              · rw [hall]
                exact List.mem_cons_of_mem _ he
              · rw [hall]
                exact hempty
            · obtain ⟨bytes, hmore⟩ := htaken.next hnext
              exact Or.inr ⟨_, hmore⟩

/-! ## What is held while there is no frame -/

/-- **An unfinished frame is not long.** -/
theorem Unfinished.length_le (h : Unfinished phase input) :
    phase = .header ∧ input.length ≤ 3 + Frame.maxHeader ∨
      phase = .chunk ∧ input.length ≤ 2 + Frame.maxHead + Frame.maxPayload := by
  cases h with
  | headerLength some short =>
      exact Or.inl ⟨rfl, Nat.le_trans (Nat.le_of_lt_succ short) (by decide)⟩
  | headerText width small short =>
      refine Or.inl ⟨rfl, ?_⟩
      rw [List.length_append]
      omega
  | @head length text short =>
      have hbyte : length.toNat < 256 := length.toNat_lt
      refine Or.inr ⟨rfl, ?_⟩
      rw [List.length_cons, Frame.maxHead, Frame.maxPayload]
      omega
  | @payload length text field data head width short =>
      have hbyte : length.toNat < 256 := length.toNat_lt
      have hfield := Bytes.ofLittleEndian_lt field
      rw [width] at hfield
      have hwide : Nat.pow 256 2 = 65536 := rfl
      refine Or.inr ⟨rfl, ?_⟩
      rw [List.length_cons, List.length_append, List.length_append, Frame.maxHead,
        Frame.maxPayload]
      omega

/-- How much a loader holds that has just had no frame to give: little before the header, less
after it, and nothing after an error. -/
structure Scant (given : List (Except FrameError Frame)) (held : ℕ) : Prop where
  unopened : given = [] → held ≤ 3 + Frame.maxHeader
  opened : given ≠ [] → held ≤ 2 + Frame.maxHead + Frame.maxPayload
  failed : ∀ e, .error e ∈ given → held = 0

lemma scant_of_nil (given : List (Except FrameError Frame)) (h : l.buffer = []) :
    Scant given l.buffered := by
  rw [buffered, h, List.length_nil]
  exact ⟨fun _ => Nat.zero_le _, fun _ => Nat.zero_le _, fun _ _ => rfl⟩

lemma Taken.scant {calls : List Call} {parts : List (Bytes × Frame)}
    (h : Taken C {} calls parts) (hsettled : Settled C (perform C {} calls).2) :
    Scant (perform C {} calls).1 (perform C {} calls).2.buffered := by
  have hawaits : (perform C {} calls).2.phase = phaseAfter .header (parts.map Prod.snd) := h.awaits
  have hphase : (perform C {} calls).2.phase ≠ .spent := hawaits ▸ phaseAfter_header_ne_spent _
  rcases (settled_iff hphase).mp hsettled with hnil | hunfinished
  · exact scant_of_nil _ hnil
  · have hlimit := hunfinished.length_le
    rw [hawaits] at hlimit
    rw [h.given]
    refine ⟨fun hnone => ?_, fun hsome => ?_, fun e he => ?_⟩
    · rw [List.map_eq_nil_iff.mp hnone] at hlimit
      exact (hlimit.resolve_right nofun).2
    · obtain ⟨part, rest, rfl⟩ := List.exists_cons_of_ne_nil (mt List.map_eq_nil_iff.mpr hsome)
      exact (hlimit.resolve_left nofun).2
    · obtain ⟨part, -, hpart⟩ := List.mem_map.mp he
      cases hpart

/-! ## Any calls -/

/-- What becomes of a loader that has given these, and is asked for a frame once more.  A frame
takes what it declares, without one there is little, and with an error nothing is left. -/
def Bounded (C : Codec) (given : List (Except FrameError Frame)) (l : Loader) : Prop :=
  match l.nextFrame C with
  | (.ok (some _), l') => Takes l l'
  | (.ok none, l') => Scant given l'.buffered
  | (.error _, l') => l'.buffered = 0

lemma bounded_perform (C : Codec) (calls : List Call) :
    Bounded C (perform C {} calls).1 (perform C {} calls).2 := by
  rcases hnext : (perform C {} calls).2.nextFrame C with ⟨e | _ | f, l'⟩
  · simp only [Bounded, hnext, buffered, buffer_of_nextFrame_error hnext, List.length_nil]
  · obtain rfl := eq_of_nextFrame_none hnext
    have hsettled : Settled C (perform C {} calls).2 := by rw [Settled, hnext]
    simp only [Bounded, hnext]
    rcases failed_or_taken (C := C) (l := {}) (by decide) calls with hfailed | ⟨parts, htaken⟩
    · exact scant_of_nil _ hfailed.empty
    · exact htaken.scant hsettled
  · simp only [Bounded, hnext, takes_of_nextFrame hnext]

lemma Taken.length_fed {calls : List Call} {parts : List (Bytes × Frame)}
    (h : Taken C {} calls parts) : (fed calls).length =
      (parts.map fun part => part.1.length).sum + (perform C {} calls).2.buffered := by
  have hwhole : joined parts ++ (perform C {} calls).2.buffer = fed calls := h.whole
  rw [← hwhole, List.length_append, joined, List.length_flatten, List.map_map]
  rfl

/-- **Any calls, on any bytes.**  Every frame takes three bytes or more and just as many as it
declares; what has been fed is as long as the frames that were given and what is left, unless there
has been an error; the loop over all frames ends, after a call for every three bytes that are left
and one more at most; and a loader that has no frame to give holds no more than the limits allow. -/
theorem progress (C : Codec) (calls : List Call) :
    Bounded C (perform C {} calls).1 (perform C {} calls).2 ∧
    (Failed C {} calls ∨ ∃ parts, Taken C {} calls parts ∧ (fed calls).length =
      (parts.map fun part => part.1.length).sum + (perform C {} calls).2.buffered) ∧
    ∃ n, StopsAfter C (perform C {} calls).2 n ∧ n ≤ (perform C {} calls).2.buffered / 3 + 1 := by
  refine ⟨bounded_perform C calls, ?_, ?_⟩
  · exact (failed_or_taken (l := {}) (by decide) calls).imp_right fun ⟨parts, htaken⟩ =>
      ⟨parts, htaken, htaken.length_fed⟩
  · obtain ⟨hstops, hle⟩ := stopsAfter_drain C (perform C {} calls).2
    exact ⟨_, hstops, Nat.succ_le_succ hle⟩

end RewindRelay.Loader
