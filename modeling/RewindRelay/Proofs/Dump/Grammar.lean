import RewindRelay.Proofs.Dump.Frame
/-!
# The grammar of a dump

A string of bytes is a dump when it can be cut into a header frame and chunk frames with nothing
left over.  Decoding accepts the dumps and nothing else, and what it gives are the frames of the
only cut there is.  Any other input is whole frames up to a place where something is wrong, and the
error names what is wrong there: nothing is there at all, a frame is damaged, or the input ends
inside a frame.

* `Loader.Row`, `Loader.IsDump` — bytes, cut into frames.
* `Loader.Bare`, `Loader.Row.unique` — **there is one cut at most.**
* `Loader.Damaged`, `Loader.Unfinished`, `Loader.Fault` — what can be wrong at the front of an
  input.
* `Loader.nextFrame_eq_error_iff`, `Loader.settled_iff` — what a loader makes of it.
* `Loader.decodeAll_grammar` — **decoding accepts exactly the dumps, and names the first fault.**
-/

namespace RewindRelay.Loader

variable {C : Codec} {phase : LoaderPhase} {input rest : Bytes} {e : FrameError}

/-! ## Cuts -/

/-- Frames with their bytes: the first one is for a loader in this phase, the others are chunks. -/
inductive Row (C : Codec) : LoaderPhase → List (Bytes × Frame) → Prop
  | nil (phase : LoaderPhase) : Row C phase []
  | cons {phase : LoaderPhase} {bytes : Bytes} {f : Frame} {parts : List (Bytes × Frame)} :
    Spells C phase bytes f → Row C .chunk parts → Row C phase ((bytes, f) :: parts)

/-- The bytes of all parts. -/
def joined (parts : List (Bytes × Frame)) : Bytes := (parts.map Prod.fst).flatten

/-- The bytes are a dump that is cut into these parts: a header, and then chunks. -/
structure IsDump (C : Codec) (bytes : Bytes) (parts : List (Bytes × Frame)) : Prop where
  row : Row C .header parts
  ne_nil : parts ≠ []
  whole : joined parts = bytes

/-- At most one frame is spelled at the front of an input. -/
lemma Spells.unique {bytes bytes' rest' : Bytes} {f f' : Frame} (h : Spells C phase bytes f)
    (h' : Spells C phase bytes' f') (heq : bytes ++ rest = bytes' ++ rest') :
    bytes = bytes' ∧ f = f' ∧ rest = rest' := by
  obtain ⟨decoded, hnext⟩ := h.nextFrame_eq rest 0
  obtain ⟨decoded', hnext'⟩ := h'.nextFrame_eq rest' 0
  rw [heq, hnext'] at hnext
  cases hnext
  exact ⟨List.append_cancel_right heq, rfl, rfl⟩

/-- No frame is spelled at the front of the input. -/
def Bare (C : Codec) (phase : LoaderPhase) (input : Bytes) : Prop :=
  ∀ bytes more f, input = bytes ++ more → ¬ Spells C phase bytes f

lemma bare_nil (C : Codec) (phase : LoaderPhase) : Bare C phase [] := by
  intro bytes more f hnil hspells
  exact hspells.ne_nil (List.append_eq_nil_iff.mp hnil.symm).1

lemma phaseAfter_chunk (frames : List Frame) : phaseAfter .chunk frames = .chunk := by
  cases frames <;> rfl

/-- **There is one cut at most**, of all frames that are there. -/
theorem Row.unique {parts parts' : List (Bytes × Frame)} {rest' : Bytes} (h : Row C phase parts)
    (h' : Row C phase parts') (hbare : Bare C (phaseAfter phase (parts.map Prod.snd)) rest)
    (hbare' : Bare C (phaseAfter phase (parts'.map Prod.snd)) rest')
    (heq : joined parts ++ rest = joined parts' ++ rest') : parts = parts' ∧ rest = rest' := by
  induction h generalizing parts' with
  | nil phase =>
      cases h' with
      | nil => exact ⟨rfl, heq⟩
      | @cons _ bytes f tail hspells _ =>
          exact absurd hspells (hbare bytes (joined tail ++ rest') f
            (heq.trans (List.append_assoc _ _ _)))
  | @cons phase bytes f tail hspells _ ih =>
      have hfirst : bytes ++ (joined tail ++ rest) = joined parts' ++ rest' :=
        (List.append_assoc _ _ _).symm.trans heq
      cases h' with
      | nil => exact absurd hspells (hbare' bytes (joined tail ++ rest) f hfirst.symm)
      | @cons _ bytes' f' tail' hspells' hrow' =>
          obtain ⟨rfl, rfl, hrest⟩ :=
            hspells.unique hspells' (hfirst.trans (List.append_assoc _ _ _))
          rw [List.map_cons, phaseAfter] at hbare hbare'
          rw [← phaseAfter_chunk (tail.map Prod.snd)] at hbare
          rw [← phaseAfter_chunk (tail'.map Prod.snd)] at hbare'
          obtain ⟨rfl, rfl⟩ := ih hrow' hbare hbare' hrest
          exact ⟨rfl, rfl⟩

lemma Row.spelled {parts : List (Bytes × Frame)} (h : Row C phase parts) (rest : Bytes) :
    Spelled C phase (joined parts ++ rest) (parts.map Prod.snd) rest := by
  induction h with
  | nil phase => exact .nil phase rest
  | @cons phase bytes f parts hspells _ ih =>
      have hbytes : joined ((bytes, f) :: parts) ++ rest = bytes ++ (joined parts ++ rest) :=
        List.append_assoc _ _ _
      rw [hbytes]
      exact .cons hspells ih

lemma Spelled.exists_row {frames : List Frame} (h : Spelled C phase input frames rest) :
    ∃ parts, Row C phase parts ∧ joined parts ++ rest = input ∧ parts.map Prod.snd = frames := by
  induction h with
  | nil phase rest => exact ⟨[], .nil phase, rfl, rfl⟩
  | @cons phase bytes input rest f frames hspells _ ih =>
      obtain ⟨parts, hrow, rfl, rfl⟩ := ih
      exact ⟨(bytes, f) :: parts, .cons hspells hrow, List.append_assoc _ _ _, rfl⟩

/-- Chunk frames in a row. -/
lemma row_chunks {α : Type} {encode : α → Bytes} {frame : α → Frame} {items : List α}
    (h : ∀ a ∈ items, Spells C .chunk (encode a) (frame a)) :
    Row C .chunk (items.map fun a => (encode a, frame a)) := by
  induction items with
  | nil => exact .nil .chunk
  | cons a items ih => exact .cons (h a (by simp)) (ih fun b hb => h b (by simp [hb]))

lemma IsDump.wire {bytes : Bytes} {parts : List (Bytes × Frame)} (h : IsDump C bytes parts) :
    Wire C .header bytes (parts.map Prod.snd) := by
  have hspelled := h.row.spelled []
  rw [List.append_nil, h.whole] at hspelled
  refine ⟨hspelled, ?_⟩
  cases parts with
  | nil => exact absurd rfl h.ne_nil
  | cons part parts => rfl

/-! ## Faults -/

/-- A frame at the front of the input is damaged.  A header that declares too much is not waited
for; all other damage is in a frame that is there as a whole. -/
inductive Damaged (C : Codec) : LoaderPhase → Bytes → FrameError → Prop
  | tooLarge {field more : Bytes} (width : field.length = 4)
    (large : Frame.maxHeader < Bytes.ofLittleEndian field) :
    Damaged C .header (field ++ more) (.headerTooLarge (Bytes.ofLittleEndian field))
  | header {field text more : Bytes} (width : field.length = 4)
    (length : Bytes.ofLittleEndian field = text.length) (small : text.length ≤ Frame.maxHeader)
    (unread : C.readHeader text = none) :
    Damaged C .header (field ++ (text ++ more)) .invalidHeader
  | head {length : UInt8} {text field data more : Bytes} (head : length.toNat = text.length)
    (width : field.length = 2) (size : Bytes.ofLittleEndian field = data.length)
    (unread : C.readHead text = none) :
    Damaged C .chunk (length :: (text ++ (field ++ (data ++ more)))) .invalidHead

/-- The input ends inside its first frame. -/
inductive Unfinished : LoaderPhase → Bytes → Prop
  | headerLength {field : Bytes} (some : field ≠ []) (short : field.length < 4) :
    Unfinished .header field
  | headerText {field text : Bytes} (width : field.length = 4)
    (small : Bytes.ofLittleEndian field ≤ Frame.maxHeader)
    (short : text.length < Bytes.ofLittleEndian field) : Unfinished .header (field ++ text)
  | head {length : UInt8} {text : Bytes} (short : text.length < length.toNat + 2) :
    Unfinished .chunk (length :: text)
  | payload {length : UInt8} {text field data : Bytes} (head : length.toNat = text.length)
    (width : field.length = 2) (short : data.length < Bytes.ofLittleEndian field) :
    Unfinished .chunk (length :: (text ++ (field ++ data)))

/-- What is wrong with an input that begins with no frame, and is no end of a dump. -/
inductive Fault (C : Codec) : LoaderPhase → Bytes → FrameError → Prop
  | missing : Fault C .header [] .missingHeader
  | damaged {phase : LoaderPhase} {input : Bytes} {e : FrameError} :
    Damaged C phase input e → Fault C phase input e
  | unfinished {phase : LoaderPhase} {input : Bytes} :
    Unfinished phase input → Fault C phase input (.truncated input.length)

/-! ## What a loader makes of them -/

lemma headerAt_eq_incomplete_iff :
    headerAt C input = .incomplete ↔ input = [] ∨ Unfinished .header input := by
  constructor
  · intro h
    by_cases hnil : input = []
    · exact Or.inl hnil
    refine Or.inr ?_
    unfold headerAt at h
    cases hfield : Bytes.cut 4 input with
    | none => exact .headerLength hnil (Bytes.cut_eq_none_iff.mp hfield)
    | some cutField =>
        obtain ⟨field, tail⟩ := cutField
        obtain ⟨rfl, hwidth⟩ := Bytes.cut_eq_some_iff.mp hfield
        simp only [hfield] at h
        split_ifs at h with hlarge
        cases htext : Bytes.cut (Bytes.ofLittleEndian field) tail with
        | none =>
            exact .headerText hwidth (Nat.le_of_not_lt hlarge) (Bytes.cut_eq_none_iff.mp htext)
        | some cutText =>
            simp only [htext] at h
            split at h <;> cases h
  · rintro (rfl | h)
    · rfl
    · cases h with
      | headerLength some short => simp only [headerAt, Bytes.cut_eq_none_iff.mpr short]
      | headerText width small short =>
          simp only [headerAt, Bytes.cut_append width, if_neg (Nat.not_lt.mpr small),
            Bytes.cut_eq_none_iff.mpr short]

lemma headerAt_eq_damaged_iff : headerAt C input = .damaged e ↔ Damaged C .header input e := by
  constructor
  · intro h
    unfold headerAt at h
    cases hfield : Bytes.cut 4 input with
    | none => simp [hfield] at h
    | some cutField =>
        obtain ⟨field, tail⟩ := cutField
        obtain ⟨rfl, hwidth⟩ := Bytes.cut_eq_some_iff.mp hfield
        simp only [hfield] at h
        split_ifs at h with hlarge
        · cases h
          exact .tooLarge hwidth hlarge
        · cases htext : Bytes.cut (Bytes.ofLittleEndian field) tail with
          | none => simp [htext] at h
          | some cutText =>
              obtain ⟨text, more⟩ := cutText
              obtain ⟨rfl, hlength⟩ := Bytes.cut_eq_some_iff.mp htext
              simp only [htext] at h
              cases hread : C.readHeader text with
              | some header => simp [hread] at h
              | none =>
                  simp only [hread, Front.damaged.injEq] at h
                  subst h
                  exact .header hwidth hlength.symm (by omega) hread
  · intro h
    cases h with
    | tooLarge width large => simp only [headerAt, Bytes.cut_append width, if_pos large]
    | header width length small unread =>
        simp only [headerAt, Bytes.cut_append width, length, if_neg (Nat.not_lt.mpr small),
          Bytes.cut_append rfl, unread]

lemma chunkAt_eq_incomplete_iff :
    chunkAt C input = .incomplete ↔ input = [] ∨ Unfinished .chunk input := by
  constructor
  · intro h
    cases input with
    | nil => exact Or.inl rfl
    | cons length tail =>
        refine Or.inr ?_
        simp only [chunkAt] at h
        cases htext : Bytes.cut length.toNat tail with
        | none =>
            have hshort := Bytes.cut_eq_none_iff.mp htext
            exact .head (by omega)
        | some cutText =>
            obtain ⟨text, afterText⟩ := cutText
            obtain ⟨rfl, hhead⟩ := Bytes.cut_eq_some_iff.mp htext
            simp only [htext] at h
            cases hfield : Bytes.cut 2 afterText with
            | none =>
                have hshort := Bytes.cut_eq_none_iff.mp hfield
                exact .head (by rw [List.length_append]; omega)
            | some cutField =>
                obtain ⟨field, afterField⟩ := cutField
                obtain ⟨rfl, hwidth⟩ := Bytes.cut_eq_some_iff.mp hfield
                simp only [hfield] at h
                cases hdata : Bytes.cut (Bytes.ofLittleEndian field) afterField with
                | none => exact .payload hhead.symm hwidth (Bytes.cut_eq_none_iff.mp hdata)
                | some cutData =>
                    simp only [hdata] at h
                    split at h <;> cases h
  · rintro (rfl | h)
    · rfl
    · cases h with
      | @head length text short =>
          simp only [chunkAt]
          cases htext : Bytes.cut length.toNat text with
          | none => rfl
          | some cutText =>
              obtain ⟨front, afterText⟩ := cutText
              obtain ⟨rfl, hhead⟩ := Bytes.cut_eq_some_iff.mp htext
              rw [List.length_append] at short
              simp only [Bytes.cut_eq_none_iff.mpr (show afterText.length < 2 by omega)]
      | payload head width short =>
          simp only [chunkAt, head, Bytes.cut_append rfl, Bytes.cut_append width,
            Bytes.cut_eq_none_iff.mpr short]

lemma chunkAt_eq_damaged_iff : chunkAt C input = .damaged e ↔ Damaged C .chunk input e := by
  constructor
  · intro h
    cases input with
    | nil => cases h
    | cons length tail =>
        simp only [chunkAt] at h
        cases htext : Bytes.cut length.toNat tail with
        | none => simp [htext] at h
        | some cutText =>
            obtain ⟨text, afterText⟩ := cutText
            obtain ⟨rfl, hhead⟩ := Bytes.cut_eq_some_iff.mp htext
            simp only [htext] at h
            cases hfield : Bytes.cut 2 afterText with
            | none => simp [hfield] at h
            | some cutField =>
                obtain ⟨field, afterField⟩ := cutField
                obtain ⟨rfl, hwidth⟩ := Bytes.cut_eq_some_iff.mp hfield
                simp only [hfield] at h
                cases hdata : Bytes.cut (Bytes.ofLittleEndian field) afterField with
                | none => simp [hdata] at h
                | some cutData =>
                    obtain ⟨data, more⟩ := cutData
                    obtain ⟨rfl, hsize⟩ := Bytes.cut_eq_some_iff.mp hdata
                    simp only [hdata] at h
                    cases hread : C.readHead text with
                    | some head => simp [hread] at h
                    | none =>
                        simp only [hread, Front.damaged.injEq] at h
                        subst h
                        exact .head hhead.symm hwidth hsize.symm hread
  · intro h
    cases h with
    | head head width size unread =>
        simp only [chunkAt, head, Bytes.cut_append rfl, Bytes.cut_append width, size, unread]

/-- **A loader fails exactly where a frame is damaged.** -/
theorem nextFrame_eq_error_iff {decoded : ℕ} :
    (nextFrame C ⟨input, phase, decoded⟩).1 = .error e ↔ Damaged C phase input e := by
  cases phase with
  | spent => exact ⟨fun h => (by cases h), fun h => (by cases h)⟩
  | header =>
      rw [← headerAt_eq_damaged_iff]
      simp only [nextFrame]
      cases headerAt C input <;> simp
  | chunk =>
      rw [← chunkAt_eq_damaged_iff]
      simp only [nextFrame]
      cases chunkAt C input <;> simp

/-- **A loader waits exactly where the input ends**, in a frame or before it. -/
theorem settled_iff {decoded : ℕ} (hphase : phase ≠ .spent) :
    Settled C ⟨input, phase, decoded⟩ ↔ input = [] ∨ Unfinished phase input := by
  cases phase with
  | spent => exact absurd rfl hphase
  | header =>
      rw [← headerAt_eq_incomplete_iff (C := C)]
      simp only [Settled, nextFrame]
      cases headerAt C input <;> simp
  | chunk =>
      rw [← chunkAt_eq_incomplete_iff (C := C)]
      simp only [Settled, nextFrame]
      cases chunkAt C input <;> simp

/-! ## All of the input -/

/-- What is said of an input whose frames have been drained. -/
def verdict : Except FrameError Unit × Loader → Except FrameError Unit
  | (.error e, _) => .error e
  | (.ok (), l) => l.finish

lemma decodeAll_eq (bytes : Bytes) :
    decodeAll C bytes =
      (verdict (drain C (feed {} bytes)).2).map fun _ => (drain C (feed {} bytes)).1 := by
  rw [decodeAll]
  rcases drain C (feed {} bytes) with ⟨frames, e | _, l⟩ <;> rfl

lemma Unfinished.ne_nil (h : Unfinished phase input) : input ≠ [] := by
  intro hnil
  have hlen := congrArg List.length hnil
  cases h with
  | headerLength some short => exact some hnil
  | headerText width small short => simp [width] at hlen
  | head short => cases hnil
  | payload head width short => cases hnil

/-- An input that begins with no frame is at its end, or there is a fault. -/
lemma Bare.fault (h : Bare C phase input) (hphase : phase ≠ .spent) :
    input = [] ∧ phase = .chunk ∨ ∃ e, Fault C phase input e := by
  rcases hnext : nextFrame C ⟨input, phase, 0⟩ with ⟨e | _ | f, l'⟩
  · have hdamaged : Damaged C phase input e := nextFrame_eq_error_iff.mp (congrArg Prod.fst hnext)
    exact Or.inr ⟨e, .damaged hdamaged⟩
  · rcases (settled_iff (C := C) hphase).mp (congrArg Prod.fst hnext) with rfl | hunfinished
    · cases phase with
      | spent => exact absurd rfl hphase
      | header => exact Or.inr ⟨_, .missing⟩
      | chunk => exact Or.inl ⟨rfl, rfl⟩
    · exact Or.inr ⟨_, .unfinished hunfinished⟩
  · obtain ⟨-, bytes, hbuffer, hspells⟩ := spells_of_nextFrame hnext
    exact absurd hspells (h bytes l'.buffer f hbuffer)

/-- Where there is a fault there is no frame, and the fault is what is said of the input. -/
lemma Fault.drain_eq (h : Fault C phase input e) (decoded : ℕ) :
    ∃ halted, drain C ⟨input, phase, decoded⟩ = ([], halted) ∧ verdict halted = .error e := by
  cases h with
  | missing => exact ⟨_, rfl, rfl⟩
  | damaged hdamaged =>
      rcases hnext : nextFrame C ⟨input, phase, decoded⟩ with ⟨answer, l'⟩
      have hanswer : (nextFrame C ⟨input, phase, decoded⟩).1 = .error e :=
        nextFrame_eq_error_iff.mpr hdamaged
      rw [hnext] at hanswer
      obtain rfl : answer = .error e := hanswer
      exact ⟨_, drain_of_error hnext, rfl⟩
  | unfinished hunfinished =>
      have hphase : phase ≠ .spent := by
        rintro rfl
        cases hunfinished
      have hne := hunfinished.ne_nil
      refine ⟨_, drain_of_settled ((settled_iff hphase).mpr (Or.inr hunfinished)), ?_⟩
      simp only [verdict, finish, List.isEmpty_iff, if_neg hne, buffered]

lemma Fault.bare (h : Fault C phase input e) : Bare C phase input := by
  rintro bytes more f rfl hspells
  obtain ⟨decoded, hnext⟩ := hspells.nextFrame_eq more 0
  obtain ⟨halted, hdrain, -⟩ := h.drain_eq 0
  rw [drain_of_frame hnext] at hdrain
  cases hdrain

lemma phaseAfter_header_ne_spent (frames : List Frame) : phaseAfter .header frames ≠ .spent := by
  cases frames <;> simp [phaseAfter]

/-- Frames, and a fault behind them. -/
structure FaultAt (C : Codec) (bytes : Bytes) (parts : List (Bytes × Frame)) (rest : Bytes)
    (e : FrameError) : Prop where
  row : Row C .header parts
  whole : joined parts ++ rest = bytes
  fault : Fault C (phaseAfter .header (parts.map Prod.snd)) rest e

variable {bytes : Bytes} {parts parts' : List (Bytes × Frame)}

lemma IsDump.decodeAll_eq (h : IsDump C bytes parts) :
    decodeAll C bytes = .ok (parts.map Prod.snd) :=
  h.wire.decodeAll_eq

lemma FaultAt.decodeAll_eq (h : FaultAt C bytes parts rest e) : decodeAll C bytes = .error e := by
  obtain ⟨decoded, hfront⟩ := (h.row.spelled rest).drain_eq 0
  obtain ⟨halted, hhalted, hverdict⟩ := h.fault.drain_eq decoded
  have hfeed : feed {} bytes = ⟨bytes, .header, 0⟩ := rfl
  rw [h.whole] at hfront
  rw [Loader.decodeAll_eq, hfeed, hfront, hhalted, hverdict]
  rfl

lemma IsDump.unique (h : IsDump C bytes parts) (h' : IsDump C bytes parts') : parts = parts' := by
  have heq : joined parts ++ [] = joined parts' ++ [] := by rw [h.whole, h'.whole]
  exact (h.row.unique h'.row (bare_nil C _) (bare_nil C _) heq).1

lemma FaultAt.unique {rest' : Bytes} {e' : FrameError} (h : FaultAt C bytes parts rest e)
    (h' : FaultAt C bytes parts' rest' e') : parts = parts' ∧ rest = rest' :=
  h.row.unique h'.row h.fault.bare h'.fault.bare (h.whole.trans h'.whole.symm)

/-- Every input is a dump, or there is a fault behind its frames. -/
lemma isDump_or_faultAt (C : Codec) (bytes : Bytes) :
    (∃ parts, IsDump C bytes parts) ∨ ∃ parts rest e, FaultAt C bytes parts rest e := by
  obtain ⟨rest, hcontents⟩ := contents_drain (C := C) (feed {} bytes)
  have hfeed : feed {} bytes = ⟨bytes, .header, 0⟩ := rfl
  rw [hfeed] at hcontents
  obtain ⟨parts, hrow, hwhole, hframes⟩ := hcontents.spelled.exists_row
  have hbare : Bare C (phaseAfter .header (parts.map Prod.snd)) rest := by
    rw [hframes]
    exact hcontents.maximal
  rcases hbare.fault (phaseAfter_header_ne_spent _) with ⟨rfl, hphase⟩ | ⟨e, hfault⟩
  · refine Or.inl ⟨parts, hrow, ?_, by rwa [List.append_nil] at hwhole⟩
    rintro rfl
    cases hphase
  · exact Or.inr ⟨parts, rest, e, hrow, hwhole, hfault⟩

/-- **The grammar of a dump.**  Decoding accepts a string of bytes exactly when it is a dump, and
gives the frames of the only cut there is.  It fails exactly when there is a fault behind the whole
frames at the front, which can be at one place only, and names that fault.  The readers of the texts
may be any. -/
theorem decodeAll_grammar (C : Codec) (bytes : Bytes) :
    (∀ frames, decodeAll C bytes = .ok frames ↔
      ∃ parts, IsDump C bytes parts ∧ parts.map Prod.snd = frames) ∧
    (∀ parts parts', IsDump C bytes parts → IsDump C bytes parts' → parts = parts') ∧
    (∀ e, decodeAll C bytes = .error e ↔ ∃ parts rest, FaultAt C bytes parts rest e) ∧
    ∀ parts parts' rest rest' e e', FaultAt C bytes parts rest e →
      FaultAt C bytes parts' rest' e' → parts = parts' ∧ rest = rest' := by
  refine ⟨fun frames => ⟨fun h => ?_, ?_⟩, fun _ _ h h' => h.unique h',
    fun e => ⟨fun h => ?_, ?_⟩, fun _ _ _ _ _ _ h h' => h.unique h'⟩
  · rcases isDump_or_faultAt C bytes with ⟨parts, hdump⟩ | ⟨parts, rest, e, hfault⟩
    · rw [hdump.decodeAll_eq, Except.ok.injEq] at h
      exact ⟨parts, hdump, h⟩
    · rw [hfault.decodeAll_eq] at h
      cases h
  · rintro ⟨parts, hdump, rfl⟩
    exact hdump.decodeAll_eq
  · rcases isDump_or_faultAt C bytes with ⟨parts, hdump⟩ | ⟨parts, rest, e', hfault⟩
    · rw [hdump.decodeAll_eq] at h
      cases h
    · rw [hfault.decodeAll_eq, Except.error.injEq] at h
      exact ⟨parts, rest, h ▸ hfault⟩
  · rintro ⟨parts, rest, hfault⟩
    exact hfault.decodeAll_eq

end RewindRelay.Loader
