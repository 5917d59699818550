import RewindRelay.Proofs.Dump.Frame
/-!
# Appending frames

A length field has room for so many digits and drops the others without a word, so it is right only
because no text and no payload is too long for it when it is written.  The encoder makes sure of
that before it writes anything.  A frame is appended as a whole, with lengths that are true, or the
buffer stays as it is and the error says how long the text or the payload was that is too long.

* `Frame.Refused` — why a frame cannot be written.
* `Frame.Written` — the bytes of a frame, with lengths that are true.
* `Frame.encode_eq_error_iff`, `Frame.written_of_encode` — **one frame** is refused exactly then,
  and written so.
* `Frame.appendAll`, `Frame.Entry` — one frame after the other, and what becomes of each.
* `Frame.appendAll_atomic` — **any frames, appended to any buffer.**
-/

namespace RewindRelay.Frame

variable {C : Codec} {f : Frame} {e : FrameError} {bytes : Bytes}

/-! ## One frame -/

/-- Something about the frame is too long.  Of a chunk whose head and payload are both too long, it
is the head that is named. -/
inductive Refused (C : Codec) : Frame → FrameError → Prop
  | header {h : Header} (long : maxHeader < (C.writeHeader h).length) :
    Refused C (.header h) (.headerTooLarge (C.writeHeader h).length)
  | head {c : Chunk} (long : maxHead < (C.writeHead c.head).length) :
    Refused C (.chunk c) (.headTooLarge (C.writeHead c.head).length)
  | payload {c : Chunk} (head : (C.writeHead c.head).length ≤ maxHead)
    (long : maxPayload < c.data.length) : Refused C (.chunk c) (.payloadTooLarge c.data.length)

/-- The bytes are the texts and the payload of the frame, and before each of them stands a field of
its own width that reads as its length. -/
inductive Written (C : Codec) : Frame → Bytes → Prop
  | header {h : Header} {field : Bytes} (width : field.length = 4)
    (length : Bytes.ofLittleEndian field = (C.writeHeader h).length) :
    Written C (.header h) (field ++ C.writeHeader h)
  | chunk {c : Chunk} {field field' : Bytes} (width : field.length = 1)
    (head : Bytes.ofLittleEndian field = (C.writeHead c.head).length) (width' : field'.length = 2)
    (payload : Bytes.ofLittleEndian field' = c.data.length) :
    Written C (.chunk c) (field ++ C.writeHead c.head ++ field' ++ c.data)

/-- **A frame is refused exactly when something is too long.** -/
theorem encode_eq_error_iff : f.encode C = .error e ↔ Refused C f e := by
  constructor
  · intro h
    cases f with
    | header header =>
        simp only [encode, headerFrame] at h
        split_ifs at h with hlong
        cases h
        exact .header hlong
    | chunk c =>
        simp only [encode, chunkFrame] at h
        split_ifs at h with hhead hpayload
        · cases h
          exact .head hhead
        · cases h
          exact .payload (Nat.le_of_not_lt hhead) hpayload
  · intro h
    cases h with
    | header long => simp only [encode, headerFrame, if_pos long]
    | head long => simp only [encode, chunkFrame, if_pos long]
    | payload head long =>
        simp only [encode, chunkFrame, if_neg (Nat.not_lt.mpr head)]
        exact if_pos long

/-- **A frame is written with true lengths.** -/
theorem written_of_encode (h : f.encode C = .ok bytes) : Written C f bytes := by
  cases f with
  | header header =>
      obtain ⟨hfits, rfl⟩ := headerFrame_eq_ok_iff.mp h
      exact .header (Bytes.length_littleEndian _ _)
        (Bytes.ofLittleEndian_littleEndian _ _ (Nat.lt_of_le_of_lt hfits (by decide)))
  | chunk c =>
      obtain ⟨hfits, rfl⟩ := chunkFrame_eq_ok_iff.mp h
      rw [chunkBytes, ← List.append_assoc, ← List.append_assoc]
      exact .chunk (Bytes.length_littleEndian _ _)
        (Bytes.ofLittleEndian_littleEndian _ _ (Nat.lt_of_le_of_lt hfits.head (by decide)))
        (Bytes.length_littleEndian _ _)
        (Bytes.ofLittleEndian_littleEndian _ _ (Nat.lt_of_le_of_lt hfits.payload (by decide)))

/-! ## One frame after the other -/

/-- Appends one frame after the other, whatever becomes of those before, and keeps what is
answered. -/
def appendAll (C : Codec) : Bytes → List Frame → List (Option FrameError) × Bytes
  | out, [] => ([], out)
  | out, f :: rest =>
    ((f.appendTo C out).1 :: (appendAll C (f.appendTo C out).2 rest).1,
      (appendAll C (f.appendTo C out).2 rest).2)

/-- A frame that was to be appended, what was answered, and what the buffer has gained. -/
structure Entry where
  frame : Frame
  answer : Option FrameError
  added : Bytes

/-- An error is answered exactly if something about the frame is too long, and then the buffer has
gained nothing.  If there is no error it has gained the frame. -/
structure Entry.Sound (C : Codec) (x : Entry) : Prop where
  refused : ∀ e, x.answer = some e ↔ Refused C x.frame e
  unchanged : x.answer ≠ none → x.added = []
  written : x.answer = none → Written C x.frame x.added

/-- What becomes of a frame. -/
def entry (C : Codec) (f : Frame) : Entry :=
  match f.encode C with
  | .ok bytes => ⟨f, none, bytes⟩
  | .error e => ⟨f, some e, []⟩

lemma frame_entry (C : Codec) (f : Frame) : (f.entry C).frame = f := by
  rw [entry]
  split <;> rfl

lemma sound_entry (C : Codec) (f : Frame) : (f.entry C).Sound C := by
  rw [entry]
  split
  · next bytes hok =>
      refine ⟨fun e => ?_, fun hne => absurd rfl hne, fun _ => written_of_encode hok⟩
      rw [← encode_eq_error_iff, hok]
      exact ⟨nofun, nofun⟩
  · next e herror =>
      refine ⟨fun e' => ?_, fun _ => rfl, nofun⟩
      rw [← encode_eq_error_iff, herror, Option.some.injEq, Except.error.injEq]

lemma appendTo_eq (C : Codec) (out : Bytes) (f : Frame) :
    f.appendTo C out = ((f.entry C).answer, out ++ (f.entry C).added) := by
  cases hencode : f.encode C with
  | ok bytes => simp only [appendTo, entry, hencode]
  | error e => simp only [appendTo, entry, hencode, List.append_nil]

lemma appendAll_eq (C : Codec) (out : Bytes) (frames : List Frame) :
    appendAll C out frames =
      ((frames.map (entry C)).map Entry.answer,
        out ++ ((frames.map (entry C)).map Entry.added).flatten) := by
  induction frames generalizing out with
  | nil => exact congrArg (Prod.mk _) (List.append_nil out).symm
  | cons f rest ih =>
      rw [appendAll, appendTo_eq, ih]
      simp only [List.map_cons, List.flatten_cons, List.append_assoc]

/-- **Any frames, appended to any buffer.**  At every moment the buffer holds what it held in the
beginning, and behind it the frames that were written, in order and with true lengths.  A frame that
is refused adds nothing, and the frames that are refused are those of which something is too long,
with the length that it has. -/
theorem appendAll_atomic (C : Codec) (out : Bytes) (frames : List Frame) :
    ∃ entries : List Entry, entries.map Entry.frame = frames ∧ (∀ x ∈ entries, x.Sound C) ∧
      ∀ k, appendAll C out (frames.take k) =
        ((entries.take k).map Entry.answer, out ++ ((entries.take k).map Entry.added).flatten) := by
  refine ⟨frames.map (entry C), ?_, fun x hx => ?_, fun k => ?_⟩
  · rw [List.map_map]
    exact (List.map_congr_left fun f _ => frame_entry C f).trans (List.map_id frames)
  · obtain ⟨f, -, rfl⟩ := List.mem_map.mp hx
    exact sound_entry C f
  · rw [appendAll_eq, List.map_take]

end RewindRelay.Frame
