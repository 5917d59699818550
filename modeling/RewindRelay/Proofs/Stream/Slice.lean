import RewindRelay.Proofs.Stream.Seat
/-!
# Slices of the store

A slice between two positions is only there if the positions are in order and the store reaches
that far; asking for any other is an error that nothing catches.  So here is what a stream reads
from its store, once more, with every slice checked.  No check ever fails.

* `Store.slice?` — a slice, if it is there.
* `Store.range?`, `Stream.due?`, `Stream.chunksBehind?`, `Stream.seed?` — what reads the store.
* `Stream.due?_eq`, `Stream.seed?_eq` — **every slice that is asked for lies inside the store.**
-/

namespace RewindRelay

/-! ## Positions -/

namespace Store

variable (s : Store)

lemma lt_of_indexOfTimestamp? {ts : Int64} {i : ℕ} (h : s.indexOfTimestamp? ts = .ok (some i)) :
    i < s.length := by
  have hlt := lt_of_nearest h
  rwa [List.length_map] at hlt

lemma lt_of_indexBehind? {offset i : ℕ} (h : s.indexBehind? offset = some i) : i < s.length := by
  unfold indexBehind? at h
  split at h
  · cases h
  · cases h
    omega

lemma lt_of_resolve? {q : Query} {i : ℕ} (h : s.resolve? q = .ok (some i)) : i < s.length := by
  cases q with
  | offset chunks => exact s.lt_of_indexBehind? (Except.ok.inj h)
  | timestamp ts => exact s.lt_of_indexOfTimestamp? h

/-! ## Checked slices -/

/-- The chunks from one position up to another, if that lies inside the store. -/
def slice? (first last : ℕ) : Option (List Chunk) :=
  if first ≤ last ∧ last ≤ s.length then some (s.slice first last) else none

lemma slice?_eq {first last : ℕ} (hfirst : first ≤ last) (hlast : last ≤ s.length) :
    s.slice? first last = some (s.slice first last) :=
  if_pos ⟨hfirst, hlast⟩

/-- The chunks from a position on. -/
def onward? (position : Option ℕ) (length : ℕ) : Option (List Chunk) :=
  match position with
  | some first => s.slice? first (min (first + length) s.length)
  | none => some []

lemma onward?_eq {position : Option ℕ} (h : ∀ first ∈ position, first < s.length) (length : ℕ) :
    s.onward? position length = some (s.onward position length) := by
  cases position with
  | none => rfl
  | some first =>
      have hlt := h first rfl
      exact s.slice?_eq (by omega) (Nat.min_le_right _ _)

def range? (q : Query) (length : ℕ) : Except Fault (Option (List Chunk)) :=
  (s.resolve? q).map fun position => s.onward? position length

lemma range?_eq (q : Query) (length : ℕ) : s.range? q length = (s.range q length).map some := by
  cases hposition : s.resolve? q with
  | error e => simp only [range?, range, hposition, Fault.map_error]
  | ok position =>
      have hinside : ∀ first ∈ position, first < s.length := by
        rintro first rfl
        exact s.lt_of_resolve? hposition
      simp only [range?, range, hposition, Fault.map_ok, s.onward?_eq hinside]

def behind? (offset length : ℕ) : Option (List Chunk) :=
  s.onward? (s.indexBehind? offset) length

lemma behind?_eq (offset length : ℕ) : s.behind? offset length = some (s.behind offset length) :=
  s.onward?_eq (fun _ h => s.lt_of_indexBehind? h) length

end Store

/-! ## What a stream reads -/

namespace Stream

/-- The chunks that a listener in this seat is due, with the slice checked.  Where the first of them
would come after the last, nothing is asked for. -/
def due? (store : Store) (seat : Seat) : Option (List Chunk) :=
  match store.indexOfOffset? seat.offset with
  | none => some []
  | some position =>
    let first := match seat.cursor with
      | some ts => store.indexAfter ts
      | none => position
    if position < first then some [] else store.slice? first (position + 1)

/-- **Every slice that a delivery asks for lies inside the store.** -/
theorem due?_eq (store : Store) (seat : Seat) : due? store seat = some (due store seat) := by
  obtain ⟨offset, cursor⟩ := seat
  cases hposition : store.indexOfOffset? offset with
  | none => simp only [due?, due, hposition]
  | some position =>
      have hlt : position < store.length := by
        unfold Store.indexOfOffset? at hposition
        split at hposition
        · cases hposition
          omega
        · cases hposition
      have hslice : ∀ first, (if position < first then some []
          else store.slice? first (position + 1)) = some (store.slice first (position + 1)) := by
        intro first
        split
        · next hpast =>
            have hlen := List.length_take_le (position + 1) store.chunks
            rw [Store.slice, List.drop_eq_nil_of_le (by omega)]
        · next horder => exact store.slice?_eq (by omega) hlt
      cases cursor with
      | none => simp only [due?, due, hposition, hslice]
      | some ts => simp only [due?, due, hposition, hslice]

variable (s : Stream)

def chunksBehind? (offset length : ℕ) : Option (List Chunk) :=
  if offset = 0 ∨ length = 0 then some []
  else s.store.behind? (s.clampOffset offset) length

lemma chunksBehind?_eq (offset length : ℕ) :
    s.chunksBehind? offset length = some (s.chunksBehind offset length) := by
  unfold chunksBehind? chunksBehind
  split_ifs
  · rfl
  · exact s.store.behind?_eq _ _

/-- The first audio of a listener, with the slice checked. -/
def seed? (o : ListenOptions) (offset : ℕ) : Option (List Chunk) :=
  let burst := s.chunksIn o.burstSeconds
  match o.timestamp with
  | some _ => s.store.behind? offset burst
  | none => s.chunksBehind? (if offset = 0 then burst else offset) burst

/-- **Every slice that a new listener asks for lies inside the store.** -/
theorem seed?_eq (o : ListenOptions) (offset : ℕ) : s.seed? o offset = some (s.seed o offset) := by
  cases hts : o.timestamp with
  | some ts => simp only [seed?, seed, hts, s.store.behind?_eq]
  | none => simp only [seed?, seed, hts, s.chunksBehind?_eq]

end Stream

end RewindRelay
