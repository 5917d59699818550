import RewindRelay.Proofs.Dump.Delivery
import RewindRelay.Proofs.Dump.Grammar
/-!
# A dump that is cut short

When only the first bytes of a dump arrive, the frames that end within them are there, and what is
left is a part of the next one.  The loader waits for the rest of it, so nothing that is decoded
depends on where inside a frame the cut is.

* `ends`, `endedBy`, `lastEnd` — where the parts of an input end, and which of them end in time.
* `mem_ends_iff` — a place where a part ends.
* `Loader.settled_of_spells` — **a loader waits for the rest of a frame.**
* `Loader.Row.drain_take` — **what is decoded from the first bytes.**
* `Loader.Severed`, `Loader.Row.severed` — what a loader gives, and what it says at the end.
-/

namespace RewindRelay

/-! ## Where parts end -/

/-- Where each of the parts ends, if the first one begins here. -/
def ends : ℕ → List Bytes → List ℕ
  | _, [] => []
  | start, part :: parts => (start + part.length) :: ends (start + part.length) parts

/-- How many of the parts end at a place or before it. -/
def endedBy (start : ℕ) (parts : List Bytes) (place : ℕ) : ℕ :=
  (ends start parts).countP (· ≤ place)

/-- The end of the last part that ends at a place or before it. -/
def lastEnd (start : ℕ) (parts : List Bytes) (place : ℕ) : ℕ :=
  start + (parts.take (endedBy start parts place)).flatten.length

variable {start place : ℕ} {part : Bytes} {parts : List Bytes}

lemma length_ends (start : ℕ) (parts : List Bytes) : (ends start parts).length = parts.length := by
  induction parts generalizing start with
  | nil => rfl
  | cons part parts ih => rw [ends, List.length_cons, ih, List.length_cons]

lemma endedBy_le (start : ℕ) (parts : List Bytes) (place : ℕ) :
    endedBy start parts place ≤ parts.length :=
  List.countP_le_length.trans_eq (length_ends start parts)

lemma le_of_mem_ends {stop : ℕ} (h : stop ∈ ends start parts) : start ≤ stop := by
  induction parts generalizing start with
  | nil => cases h
  | cons part parts ih =>
      rcases List.mem_cons.mp h with rfl | h
      · exact Nat.le_add_right _ _
      · exact (Nat.le_add_right _ _).trans (ih h)

lemma endedBy_cons_of_le (h : start + part.length ≤ place) :
    endedBy start (part :: parts) place = endedBy (start + part.length) parts place + 1 := by
  rw [endedBy, ends, List.countP_cons_of_pos (by simpa using h), endedBy]

/-- No part ends before the first one does. -/
lemma endedBy_cons_of_lt (h : place < start + part.length) :
    endedBy start (part :: parts) place = 0 := by
  refine List.countP_eq_zero.mpr fun stop hstop => ?_
  rcases List.mem_cons.mp hstop with rfl | hstop
  · simpa using h
  · have hle := le_of_mem_ends hstop
    simp only [decide_eq_true_eq]
    omega

lemma lastEnd_cons_of_le (h : start + part.length ≤ place) :
    lastEnd start (part :: parts) place = lastEnd (start + part.length) parts place := by
  rw [lastEnd, endedBy_cons_of_le h, List.take_succ_cons, List.flatten_cons, List.length_append,
    ← Nat.add_assoc, lastEnd]

lemma lastEnd_cons_of_lt (h : place < start + part.length) :
    lastEnd start (part :: parts) place = start := by
  rw [lastEnd, endedBy_cons_of_lt h]
  rfl

lemma lastEnd_le (h : start ≤ place) (parts : List Bytes) : lastEnd start parts place ≤ place := by
  induction parts generalizing start with
  | nil => exact h
  | cons part parts ih =>
      rcases Nat.lt_or_ge place (start + part.length) with hlt | hle
      · rwa [lastEnd_cons_of_lt hlt]
      · rw [lastEnd_cons_of_le hle]
        exact ih hle

/-- A part ends at a place exactly when some part has ended there and the last of them does. -/
lemma mem_ends_iff : place ∈ ends start parts ↔
    0 < endedBy start parts place ∧ lastEnd start parts place = place := by
  induction parts generalizing start with
  | nil => simp [ends, endedBy]
  | cons part parts ih =>
      rcases Nat.lt_or_ge place (start + part.length) with hlt | hle
      · rw [endedBy_cons_of_lt hlt]
        refine iff_of_false (fun hmem => ?_) (by simp)
        rcases List.mem_cons.mp hmem with rfl | hmem
        · exact Nat.lt_irrefl _ hlt
        · exact Nat.not_lt.mpr (le_of_mem_ends hmem) hlt
      · rw [ends, endedBy_cons_of_le hle, lastEnd_cons_of_le hle, List.mem_cons, ih]
        have hlast := lastEnd_le hle parts
        refine ⟨?_, fun ⟨_, heq⟩ => ?_⟩
        · rintro (rfl | ⟨-, heq⟩)
          · exact ⟨Nat.succ_pos _, Nat.le_antisymm hlast (Nat.le_add_right _ _)⟩
          · exact ⟨Nat.succ_pos _, heq⟩
        · rcases Nat.eq_zero_or_pos (endedBy (start + part.length) parts place) with hnone | hpos
          · rw [lastEnd, hnone] at heq
            exact Or.inl heq.symm
          · exact Or.inr ⟨hpos, heq⟩

namespace Loader

variable {C : Codec} {phase : LoaderPhase} {parts : List (Bytes × Frame)} {start place : ℕ}

/-! ## What is decoded -/

lemma Spells.phase_ne {bytes : Bytes} {f : Frame} (h : Spells C phase bytes f) :
    phase ≠ .spent := by
  cases h <;> simp

/-- **A loader waits for the rest of a frame.** -/
theorem settled_of_spells {front more : Bytes} {f : Frame} (h : Spells C phase (front ++ more) f)
    (hmore : more ≠ []) (decoded : ℕ) : Settled C ⟨front, phase, decoded⟩ := by
  rcases hnext : nextFrame C ⟨front, phase, decoded⟩ with ⟨e | _ | f', l'⟩
  · -- damage in the front would still be there when the rest has come
    obtain ⟨decoded', hwhole⟩ := h.nextFrame_eq [] decoded
    have hfed := nextFrame_feed_of_eq hnext (by simp) more
    rw [feed, if_neg h.phase_ne, ← List.append_nil (front ++ more), hwhole] at hfed
    cases hfed
  · rw [Settled, hnext]
  · -- two frames would begin at the same place
    obtain ⟨-, bytes, hbuffer, hspells⟩ := spells_of_nextFrame hnext
    have heq : front ++ more ++ [] = bytes ++ (l'.buffer ++ more) := by
      rw [List.append_nil, ← List.append_assoc, ← hbuffer]
    obtain ⟨-, -, hrest⟩ := h.unique hspells heq
    exact absurd (List.append_eq_nil_iff.mp hrest.symm).2 hmore

/-- The frames that end in time. -/
def wholeBy (start : ℕ) (parts : List (Bytes × Frame)) (place : ℕ) : List Frame :=
  (parts.take (endedBy start (parts.map Prod.fst) place)).map Prod.snd

lemma wholeBy_cons_of_le {bytes : Bytes} {f : Frame} (h : start + bytes.length ≤ place) :
    wholeBy start ((bytes, f) :: parts) place =
      f :: wholeBy (start + bytes.length) parts place := by
  rw [wholeBy, List.map_cons, endedBy_cons_of_le h]
  rfl

lemma joined_cons (bytes : Bytes) (f : Frame) (parts : List (Bytes × Frame)) :
    joined ((bytes, f) :: parts) = bytes ++ joined parts := rfl

/-- **What is decoded from the first bytes.**  The frames that end in time are decoded; the bytes
behind them are waiting for the rest of their frame. -/
theorem Row.drain_take (h : Row C phase parts) (hstart : start ≤ place)
    (hplace : place ≤ start + (joined parts).length) (decoded : ℕ) :
    ∃ rest decoded', drain C ⟨(joined parts).take (place - start), phase, decoded⟩ =
        (wholeBy start parts place, .ok (),
          ⟨rest, phaseAfter phase (wholeBy start parts place), decoded'⟩) ∧
      rest.length = place - lastEnd start (parts.map Prod.fst) place := by
  induction h generalizing start decoded with
  | nil phase =>
      have hsettled : Settled C ⟨[], phase, decoded⟩ := by cases phase <;> rfl
      have hnil : (joined []).take (place - start) = [] := List.take_nil
      refine ⟨[], decoded, by rw [hnil, drain_of_settled hsettled]; rfl, ?_⟩
      rw [show place = start from Nat.le_antisymm hplace hstart]
      exact (Nat.sub_self start).symm
  | @cons phase bytes f tail hspells hrow ih =>
      rw [joined_cons] at hplace ⊢
      rcases Nat.lt_or_ge place (start + bytes.length) with hlt | hle
      · have hfront : bytes = bytes.take (place - start) ++ bytes.drop (place - start) :=
          (List.take_append_drop _ _).symm
        rw [hfront] at hspells
        have hsettled := settled_of_spells hspells
          (by simp only [ne_eq, List.drop_eq_nil_iff]; omega) decoded
        rw [wholeBy, List.map_cons, endedBy_cons_of_lt hlt, lastEnd_cons_of_lt hlt,
          List.take_append_of_le_length (by omega)]
        refine ⟨_, decoded, drain_of_settled hsettled, ?_⟩
        rw [List.length_take]
        omega
      · obtain ⟨decoded₁, hnext⟩ := hspells.nextFrame_eq
          ((joined tail).take (place - (start + bytes.length))) decoded
        rw [List.length_append, ← Nat.add_assoc] at hplace
        obtain ⟨rest, decoded₂, hdrain, hrest⟩ := ih hle hplace decoded₁
        rw [phaseAfter_chunk] at hdrain
        refine ⟨rest, decoded₂, ?_, ?_⟩
        · rw [List.take_append, List.take_of_length_le (by omega), Nat.sub_sub,
            drain_of_frame hnext, hdrain, wholeBy_cons_of_le hle]
          rfl
        · rw [List.map_cons, lastEnd_cons_of_le hle, hrest]

variable {bytes : Bytes}

lemma IsDump.drain_take (h : IsDump C bytes parts) (hplace : place ≤ bytes.length) :
    ∃ rest decoded, drain C (feed {} (bytes.take place)) =
        (wholeBy 0 parts place, .ok (),
          ⟨rest, phaseAfter .header (wholeBy 0 parts place), decoded⟩) ∧
      rest.length = place - lastEnd 0 (parts.map Prod.fst) place := by
  rw [← h.whole] at hplace ⊢
  have hdrain := h.row.drain_take (Nat.zero_le place) (by rwa [Nat.zero_add]) 0
  rwa [Nat.sub_zero] at hdrain

/-! ## What is given, and what is said at the end -/

/-- What a loader has given, and what it says, when only the bytes before a place have come of a
dump with these parts. -/
structure Severed (parts : List Bytes) (place : ℕ) (frames : List Frame)
    (result : List (Except FrameError Frame) × Loader) : Prop where
  given : result.1 = frames.map .ok
  missing : place = 0 → result.2.finish = .error .missingHeader
  /-- The cut is at the end of a frame. -/
  whole : result.2.finish = .ok () ↔ place ∈ ends 0 parts
  /-- The cut is inside a frame, so many bytes behind the last one that is whole. -/
  torn : 0 < place → place ∉ ends 0 parts →
    result.2.finish = .error (.truncated (place - lastEnd 0 parts place))

lemma finish_phaseAfter (rest : Bytes) (frames : List Frame) (decoded : ℕ) :
    finish ⟨rest, phaseAfter .header frames, decoded⟩ =
      if rest = [] then if frames = [] then .error .missingHeader else .ok ()
      else .error (.truncated rest.length) := by
  have hphase : phaseAfter .header frames = .header ↔ frames = [] := by
    cases frames <;> simp [phaseAfter]
  simp only [finish, List.isEmpty_iff, hphase, buffered]

lemma wholeBy_eq_nil_iff :
    wholeBy start parts place = [] ↔ endedBy start (parts.map Prod.fst) place = 0 := by
  have hle := endedBy_le start (parts.map Prod.fst) place
  rw [List.length_map] at hle
  rw [wholeBy, List.map_eq_nil_iff, List.take_eq_nil_iff]
  refine ⟨fun h => h.elim id fun hnil => ?_, Or.inl⟩
  rw [hnil]
  rfl

/-- No frame is there before the first byte is. -/
lemma Row.endedBy_zero (h : Row C phase parts) : endedBy 0 (parts.map Prod.fst) 0 = 0 := by
  cases h with
  | nil => rfl
  | cons hspells _ =>
      refine endedBy_cons_of_lt ?_
      rw [Nat.zero_add]
      exact List.length_pos_iff.mpr hspells.ne_nil

/-- **What is left of a dump that is cut short**, at any place of it. -/
theorem IsDump.severed (h : IsDump C bytes parts) (hplace : place ≤ bytes.length) :
    Severed (parts.map Prod.fst) place (wholeBy 0 parts place)
      (takeAll C (feed {} (bytes.take place))) := by
  obtain ⟨rest, decoded, hdrain, hrest⟩ := h.drain_take hplace
  have htake : takeAll C (feed {} (bytes.take place)) =
      ((wholeBy 0 parts place).map .ok,
        ⟨rest, phaseAfter .header (wholeBy 0 parts place), decoded⟩) := by
    simp only [takeAll, hdrain]
  have hlast := lastEnd_le (Nat.zero_le place) (parts.map Prod.fst)
  -- nothing is left over exactly when the last whole frame ends at the cut
  have hnil : rest = [] ↔ lastEnd 0 (parts.map Prod.fst) place = place := by
    rw [← List.length_eq_zero_iff, hrest]
    omega
  rw [htake]
  constructor
  · rfl
  · rintro rfl
    have hnone := h.row.endedBy_zero
    have hzero : lastEnd 0 (parts.map Prod.fst) 0 = 0 := Nat.le_zero.mp hlast
    simp only [finish_phaseAfter, if_pos (hnil.mpr hzero), if_pos (wholeBy_eq_nil_iff.mpr hnone)]
  · rw [finish_phaseAfter, mem_ends_iff, Nat.pos_iff_ne_zero, ne_eq, ← wholeBy_eq_nil_iff, ← hnil]
    by_cases hleft : rest = [] <;> by_cases hnone : wholeBy 0 parts place = [] <;>
      simp [hleft, hnone]
  · intro hpos hnot
    have hleft : rest ≠ [] := by
      intro hempty
      have hend := hnil.mp hempty
      refine hnot (mem_ends_iff.mpr ⟨Nat.pos_iff_ne_zero.mpr fun hnone => ?_, hend⟩)
      rw [lastEnd, hnone] at hend
      exact hpos.ne hend
    rw [finish_phaseAfter, if_neg hleft, hrest]

end Loader

end RewindRelay
