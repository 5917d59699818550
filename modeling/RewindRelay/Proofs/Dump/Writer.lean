import RewindRelay.Dump.Writer
import RewindRelay.Proofs.Dump.Frame
/-!
# Reading a dump

A dump is read in pieces whose sizes the reader chooses, one by one.  Whatever they are, the dump
comes to its end, and the pieces are the same bytes.

* `DumpWriter.frames`, `DumpWriter.rest` — the frames that are still to be read, and their bytes.
* `DumpWriter.gather_append` — **gathering goes on** behind chunks that it takes in any case.
* `DumpWriter.read_of_taken` — a read, up to the chunks that it has not looked at.
* `DumpWriter.read_spec` — one read hands out a `Portion` of them.
* `DumpWriter.Drains` — a dump that is read to its end.
* `DumpWriter.exists_drains`, `DumpWriter.Drains.eq_rest` — **every reader comes to the end, and
  has the same bytes.**
* `DumpWriter.exists_groups` — **what each read of a schedule hands out.**
-/

namespace RewindRelay.DumpWriter

variable {C : Codec} {w : DumpWriter}

/-- The bytes that are still to be read. -/
def rest (C : Codec) (w : DumpWriter) : Bytes :=
  (if w.headerSent then [] else headerBytes C w.header) ++ w.pending.flatMap (chunkBytes C)

/-- The same, one frame at a time. -/
def frames (C : Codec) (w : DumpWriter) : List Bytes :=
  (if w.headerSent then [] else [headerBytes C w.header]) ++ w.pending.map (chunkBytes C)

lemma flatten_frames (C : Codec) (w : DumpWriter) : (w.frames C).flatten = w.rest C := by
  rw [frames, rest, List.flatten_append, List.flatMap_def]
  split <;> simp

lemma ne_nil_of_mem_frames {f : Bytes} (hf : f ∈ w.frames C) : f ≠ [] := by
  rcases List.mem_append.mp hf with hf | hf
  · split at hf
    · cases hf
    · rw [List.mem_singleton.mp hf]
      exact headerBytes_ne_nil C w.header
  · obtain ⟨c, -, rfl⟩ := List.mem_map.mp hf
    exact chunkBytes_ne_nil C c

/-- Nothing has gone wrong, and nothing will. -/
structure Fits (C : Codec) (w : DumpWriter) : Prop where
  intact : w.failed = false
  header : w.header.Fits C
  pending : ∀ c ∈ w.pending, c.Fits C

/-! ## One read -/

/-- As few chunks off the front as it takes to have the asked number of bytes. -/
structure Taken (C : Codec) (size gathered : ℕ) (taken left : List Chunk) : Prop where
  /-- Without the last one it would fall short. -/
  short : taken ≠ [] → gathered + (taken.dropLast.flatMap (chunkBytes C)).length < size
  reached : left ≠ [] → size ≤ gathered + (taken.flatMap (chunkBytes C)).length

lemma exists_taken (C : Codec) (size gathered : ℕ) (cs : List Chunk) :
    ∃ taken left, cs = taken ++ left ∧ Taken C size gathered taken left := by
  induction cs generalizing gathered with
  | nil => exact ⟨[], [], rfl, fun hne => absurd rfl hne, fun hne => absurd rfl hne⟩
  | cons c rest ih =>
      by_cases hlt : gathered < size
      · obtain ⟨taken, left, rfl, htaken⟩ := ih (gathered + (chunkBytes C c).length)
        refine ⟨c :: taken, left, rfl, fun _ => ?_, fun hne => ?_⟩
        · cases taken with
          | nil => simpa using hlt
          | cons d taken =>
              have hrest := htaken.short (List.cons_ne_nil _ _)
              rw [List.dropLast_cons_cons, List.flatMap_cons, List.length_append]
              omega
        · have hrest := htaken.reached hne
          rw [List.flatMap_cons, List.length_append]
          omega
      · exact ⟨[], c :: rest, rfl, fun hne => absurd rfl hne, fun _ => by simpa using hlt⟩

lemma gather_of_le {size gathered : ℕ} (h : size ≤ gathered) (cs : List Chunk) :
    gather C size gathered cs = (.ok [], cs) := by
  cases cs with
  | nil => rfl
  | cons c rest => rw [gather, if_neg (Nat.not_lt.mpr h)]

/-- Gathering goes on behind the chunks that it takes in any case. -/
lemma gather_append {size gathered : ℕ} {taken : List Chunk} (h : ∀ c ∈ taken, c.Fits C)
    (hshort : taken ≠ [] → gathered + (taken.dropLast.flatMap (chunkBytes C)).length < size)
    (more : List Chunk) :
    gather C size gathered (taken ++ more) =
      ((gather C size (gathered + (taken.flatMap (chunkBytes C)).length) more).1.map
          (taken.flatMap (chunkBytes C) ++ ·),
        (gather C size (gathered + (taken.flatMap (chunkBytes C)).length) more).2) := by
  induction taken generalizing gathered with
  | nil =>
      rcases hrest : gather C size gathered more with ⟨_ | _, left⟩ <;>
        simp [hrest, Except.map]
  | cons c taken ih =>
      have hlt : gathered < size := by
        have hall := hshort (List.cons_ne_nil _ _)
        omega
      have hshort' : taken ≠ [] → gathered + (chunkBytes C c).length +
          (taken.dropLast.flatMap (chunkBytes C)).length < size := fun hne => by
        have hall := hshort (List.cons_ne_nil _ _)
        rw [List.dropLast_cons_of_ne_nil hne, List.flatMap_cons, List.length_append] at hall
        omega
      rw [List.cons_append, gather, if_pos hlt, chunkFrame_eq (h c List.mem_cons_self)]
      simp only [ih (fun d hd => h d (List.mem_cons_of_mem c hd)) hshort', List.flatMap_cons,
        List.length_append, Nat.add_assoc]
      rcases gather C size _ more with ⟨_ | _, left⟩ <;> simp [Except.map]

/-- Gathering stops when the size is reached or nothing is left. -/
lemma gather_of_reached {size gathered : ℕ} {left : List Chunk} (h : left ≠ [] → size ≤ gathered) :
    gather C size gathered left = (.ok [], left) := by
  by_cases hnil : left = []
  · rw [hnil]
    rfl
  · exact gather_of_le (h hnil) left

/-- The frame that is written before the chunks of a read. -/
def opener (C : Codec) (w : DumpWriter) : List Bytes :=
  if w.headerSent then [] else [headerBytes C w.header]

lemma frames_eq (C : Codec) (w : DumpWriter) :
    w.frames C = w.opener C ++ w.pending.map (chunkBytes C) := rfl

lemma opening_eq (h : w.header.Fits C) : w.opening C = .ok (w.opener C).flatten := by
  unfold opening opener
  split
  · rfl
  · rw [headerFrame_eq h, List.flatten_singleton]

lemma flatten_opener_append (C : Codec) (w : DumpWriter) (taken : List Chunk) :
    (w.opener C ++ taken.map (chunkBytes C)).flatten =
      (w.opener C).flatten ++ taken.flatMap (chunkBytes C) := by
  rw [List.flatten_append, List.flatMap_def]

/-- A read, when it has taken these chunks. -/
lemma read_of_taken (hintact : w.failed = false) (hheader : w.header.Fits C) {size : ℕ}
    {taken more : List Chunk} (hpending : w.pending = taken ++ more) (hfits : ∀ c ∈ taken, c.Fits C)
    (hshort : taken ≠ [] → (w.opener C).flatten.length +
      (taken.dropLast.flatMap (chunkBytes C)).length < max size 1) :
    w.read C size =
      match gather C (max size 1) (w.opener C ++ taken.map (chunkBytes C)).flatten.length more with
      | (.error e, pending) => (.error e, { w with headerSent := true, pending, failed := true })
      | (.ok bytes, pending) =>
        let group := (w.opener C ++ taken.map (chunkBytes C)).flatten
        (.ok (if (group ++ bytes).isEmpty then none else some (group ++ bytes)),
          { w with headerSent := true, pending }) := by
  simp only [read, hintact, Bool.false_eq_true, if_false, opening_eq hheader, hpending,
    gather_append hfits hshort, flatten_opener_append, List.length_append]
  rcases gather C (max size 1) _ more with ⟨_ | bytes, left⟩
  · rfl
  · simp only [Except.map, List.append_assoc]

/-- The frames of a read without the last one, when it has taken these chunks. -/
lemma length_dropLast_lt (C : Codec) (w : DumpWriter) {size : ℕ} {taken : List Chunk}
    (hshort : taken ≠ [] → (w.opener C).flatten.length +
      (taken.dropLast.flatMap (chunkBytes C)).length < max size 1) :
    (w.opener C ++ taken.map (chunkBytes C)).dropLast.flatten.length < max size 1 := by
  by_cases htaken : taken = []
  · have honly : (w.opener C ++ taken.map (chunkBytes C)).dropLast = [] := by
      rw [htaken, opener]
      split <;> rfl
    rw [honly]
    exact Nat.lt_of_lt_of_le Nat.one_pos (le_max_right _ _)
  · have hlast := hshort htaken
    rwa [List.dropLast_append_of_ne_nil (by simpa using htaken), ← List.map_dropLast,
      flatten_opener_append, List.length_append]

/-- The frames that a read of this size hands out when these are still to be read: no more than it
takes to reach the size. -/
structure Portion (size : ℕ) (group left : List Bytes) : Prop where
  ne_nil : group ≠ []
  /-- Without its last frame it would fall short. -/
  short : group.dropLast.flatten.length < max size 1
  reached : left ≠ [] → max size 1 ≤ group.flatten.length

/-- **One read.**  It hands out some frames, and leaves the others; at the end it finds none. -/
theorem read_spec (h : w.Fits C) (size : ℕ) :
    ∃ w', w'.Fits C ∧
      (w.frames C = [] ∧ w'.frames C = [] ∧ w.read C size = (.ok none, w') ∨
        ∃ group, w.frames C = group ++ w'.frames C ∧ Portion size group (w'.frames C) ∧
          w.read C size = (.ok (some group.flatten), w')) := by
  obtain ⟨taken, left, hpending, htaken⟩ :=
    exists_taken C (max size 1) (w.opener C).flatten.length w.pending
  have hfits : ∀ c ∈ taken, c.Fits C := fun c hc => h.pending c (by rw [hpending]; simp [hc])
  have hread := read_of_taken h.intact h.header hpending hfits htaken.short
  have hshort := length_dropLast_lt C w htaken.short
  have hreached := htaken.reached
  rw [← List.length_append, ← flatten_opener_append] at hreached
  have hframes : w.frames C =
      w.opener C ++ taken.map (chunkBytes C) ++ left.map (chunkBytes C) := by
    rw [frames_eq, hpending, List.map_append, List.append_assoc]
  generalize w.opener C ++ taken.map (chunkBytes C) = group at hread hshort hreached hframes
  rw [gather_of_reached hreached] at hread
  simp only [List.append_nil] at hread
  have hleft :
      frames C { w with headerSent := true, pending := left } = left.map (chunkBytes C) := by
    simp only [frames, if_true, List.nil_append]
  refine ⟨{ w with headerSent := true, pending := left },
    ⟨h.intact, h.header, fun c hc => h.pending c (by rw [hpending]; simp [hc])⟩, ?_⟩
  rw [hleft, hread]
  by_cases hnil : group = []
  · -- nothing was taken, so there was nothing to take
    have hend : left = [] := by
      by_contra hne
      have hsize := hreached hne
      rw [hnil] at hsize
      simp at hsize
    rw [hend, List.map_nil, hnil]
    rw [hnil, hend] at hframes
    exact Or.inl ⟨hframes, rfl, rfl⟩
  · have hne : group.flatten ≠ [] := by
      obtain ⟨f, more, hcons⟩ := List.exists_cons_of_ne_nil hnil
      have hmem : f ∈ w.frames C := by rw [hframes, hcons]; simp
      have hf := ne_nil_of_mem_frames hmem
      rw [hcons, List.flatten_cons]
      exact fun hempty => hf (List.append_eq_nil_iff.mp hempty).1
    exact Or.inr ⟨group, hframes,
      ⟨hnil, hshort, fun hmore => hreached fun hempty => hmore (by rw [hempty, List.map_nil])⟩,
      by rw [if_neg (by simpa using hne)]⟩

lemma Portion.length_pos {size : ℕ} {group left : List Bytes} (h : Portion size group left) :
    0 < group.length :=
  List.length_pos_iff.mpr h.ne_nil

lemma rest_eq_append {w' : DumpWriter} {group : List Bytes}
    (h : w.frames C = group ++ w'.frames C) : w.rest C = group.flatten ++ w'.rest C := by
  rw [← flatten_frames, h, List.flatten_append, flatten_frames]

/-! ## All reads -/

/-- Reads of these sizes come to the end of the dump, and give these bytes. -/
inductive Drains (C : Codec) : DumpWriter → List ℕ → Bytes → Prop
  | ended {w w' : DumpWriter} {size : ℕ} :
    w.read C size = (.ok none, w') → Drains C w [size] []
  | more {w w' : DumpWriter} {size : ℕ} {sizes : List ℕ} {bytes rest : Bytes} :
    w.read C size = (.ok (some bytes), w') → Drains C w' sizes rest →
      Drains C w (size :: sizes) (bytes ++ rest)

/-- **Whatever is read is the same.** -/
theorem Drains.eq_rest {sizes : List ℕ} {bytes : Bytes} (hd : Drains C w sizes bytes)
    (h : w.Fits C) : bytes = w.rest C := by
  induction hd with
  | @ended w w' size hread =>
      obtain ⟨w₁, -, ⟨hnil, -, -⟩ | ⟨group, -, -, hsome⟩⟩ := read_spec h size
      · rw [← flatten_frames, hnil, List.flatten_nil]
      · rw [hread] at hsome
        cases hsome
  | @more w w' size sizes bytes rest hread hdrains ih =>
      obtain ⟨w₁, hfits, ⟨-, -, hnone⟩ | ⟨group, hframes, -, hsome⟩⟩ := read_spec h size
      · rw [hread] at hnone
        cases hnone
      · rw [hread] at hsome
        cases hsome
        rw [rest_eq_append hframes, ih hfits]

/-- **Every reader comes to the end.** -/
theorem exists_drains (h : w.Fits C) (sizes : ℕ → ℕ) :
    ∃ reads, Drains C w ((List.range reads).map sizes) (w.rest C) := by
  induction hlen : (w.frames C).length using Nat.strongRecOn generalizing w sizes with
  | _ n ih =>
      obtain ⟨w', hfits, ⟨hnil, -, hread⟩ | ⟨group, hframes, hportion, hread⟩⟩ :=
        read_spec h (sizes 0)
      · refine ⟨1, ?_⟩
        rw [← flatten_frames, hnil, List.flatten_nil]
        exact .ended hread
      · have hpos := hportion.length_pos
        have hshorter : (w'.frames C).length < n := by
          rw [← hlen, hframes, List.length_append]
          omega
        obtain ⟨reads, hdrains⟩ := ih _ hshorter hfits (fun i => sizes (i + 1)) rfl
        refine ⟨reads + 1, ?_⟩
        have hsizes : (List.range (reads + 1)).map sizes =
            sizes 0 :: (List.range reads).map fun i => sizes (i + 1) := by
          rw [List.range_succ_eq_map, List.map_cons, List.map_map]
          rfl
        rw [hsizes, rest_eq_append hframes]
        exact .more hread hdrains

/-! ## A schedule of reads -/

/-- The dump after so many reads of these sizes. -/
def after (C : Codec) (w : DumpWriter) (sizes : ℕ → ℕ) : ℕ → DumpWriter
  | 0 => w
  | n + 1 => ((after C w sizes n).read C (sizes n)).2

/-- Reads of these sizes hand out these groups of frames. -/
structure Groups (frames : List Bytes) (sizes : ℕ → ℕ) (groups : List (List Bytes)) : Prop where
  flatten : groups.flatten = frames
  portion : ∀ i group, groups[i]? = some group →
    Portion (sizes i) group (groups.drop (i + 1)).flatten

lemma after_succ (w : DumpWriter) (sizes : ℕ → ℕ) (n : ℕ) :
    w.after C sizes (n + 1) = after C (w.read C (sizes 0)).2 (fun i => sizes (i + 1)) n := by
  induction n with
  | zero => rfl
  | succ n ih => rw [after, ih, after]

lemma read_of_nil (h : w.Fits C) (hnil : w.frames C = []) (size : ℕ) :
    ∃ w', w'.Fits C ∧ w'.frames C = [] ∧ w.read C size = (.ok none, w') := by
  obtain ⟨w', hfits, ⟨-, hnil', hread⟩ | ⟨group, hframes, hportion, -⟩⟩ := read_spec h size
  · exact ⟨w', hfits, hnil', hread⟩
  · rw [hnil] at hframes
    exact absurd (List.append_eq_nil_iff.mp hframes.symm).1 hportion.ne_nil

lemma read_after_of_nil (h : w.Fits C) (hnil : w.frames C = []) (sizes : ℕ → ℕ) (n : ℕ) :
    ((w.after C sizes n).read C (sizes n)).1 = .ok none := by
  obtain ⟨w', hfits, hnil', hread⟩ := read_of_nil h hnil (sizes 0)
  induction n generalizing w w' sizes with
  | zero => rw [after, hread]
  | succ n ih =>
      obtain ⟨w'', hfits', hnil'', hread'⟩ := read_of_nil hfits hnil' (sizes 1)
      rw [after_succ, hread]
      exact ih hfits hnil' (fun i => sizes (i + 1)) w'' hfits' hnil'' hread'

/-- **All reads.**  Whatever their sizes are, none fails; they hand out all frames in order, each as
few as it takes to reach its size, and find the end from then on. -/
theorem exists_groups (h : w.Fits C) (sizes : ℕ → ℕ) :
    ∃ groups, Groups (w.frames C) sizes groups ∧
      ∀ i, ((w.after C sizes i).read C (sizes i)).1 = .ok (groups[i]?.map List.flatten) := by
  -- every read hands out a frame at least, as the size counts as one byte or more
  induction hlen : (w.frames C).length using Nat.strongRecOn generalizing w sizes with
  | _ n ih =>
      obtain ⟨w', hfits, ⟨hnil, -, -⟩ | ⟨group, hframes, hportion, hread⟩⟩ := read_spec h (sizes 0)
      · refine ⟨[], ⟨by rw [hnil, List.flatten_nil], by simp⟩, fun i => ?_⟩
        rw [read_after_of_nil h hnil sizes i]
        rfl
      · have hpos := hportion.length_pos
        have hshorter : (w'.frames C).length < n := by
          rw [← hlen, hframes, List.length_append]
          omega
        obtain ⟨groups, hgroups, hreads⟩ := ih _ hshorter hfits (fun i => sizes (i + 1)) rfl
        refine ⟨group :: groups, ⟨?_, fun i g hg => ?_⟩, fun i => ?_⟩
        · rw [List.flatten_cons, hgroups.flatten, hframes]
        · cases i with
          | zero =>
              cases hg
              rw [List.drop_succ_cons, List.drop_zero, hgroups.flatten]
              exact hportion
          | succ i => exact hgroups.portion i g hg
        · cases i with
          | zero => rw [after, hread]; rfl
          | succ i =>
              rw [after_succ, hread]
              exact hreads i

end RewindRelay.DumpWriter
