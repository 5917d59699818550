import RewindRelay.Proofs.Broadcast.Roster
/-!
# The order in which listeners are served

Deliveries and housekeeping go through the table of a stream seat by seat, and a table has no
order of its own.  They do the same work at every seat, and what they do there depends on nothing
that they do elsewhere, so any order comes to the same as serving all listeners at once.

* `Stream.amend`, `Stream.visit` — one seat after the other.
* `Stream.visit_eq_map` — **the order makes no difference.**
* `Stream.Operation.applyIn` — the operations that go through the table, in a given order.
* `Broadcast.Ordered` — runs in which each of them takes an order of its own.
* `Broadcast.ordered_iff` — **all of them end alike.**
-/

namespace RewindRelay

namespace Stream

variable {s : Stream} {f : Listener → Listener}

/-! ## Visits -/

/-- Something is done to one listener; nothing when there is no such listener. -/
def amend (f : Listener → Listener) (s : Stream) (id : ListenerId) : Stream :=
  match s.listener? id with
  | some l => s.put (f l)
  | none => s

/-- The same is done to one listener after the other. -/
def visit (s : Stream) (f : Listener → Listener) (order : List ListenerId) : Stream :=
  order.foldl (amend f) s

/-- The numbers of the seated listeners, in the order of the table. -/
def seatedIds (s : Stream) : List ListenerId := s.seated.map Listener.id

/-- No other listener has the number of the one that is visited. -/
lemma amend_eq (h : s.Numbered) (hf : ∀ l, (f l).id = l.id) (id : ListenerId) :
    s.amend f id =
      { s with listeners := s.listeners.map fun l => if l.id = id then f l else l } := by
  unfold amend
  cases hl : s.listener? id with
  | none =>
      have hnone : ∀ l ∈ s.listeners, (if l.id = id then f l else l) = l := by
        intro l hmem
        have hne : l.id ≠ id := by simpa using List.find?_eq_none.mp hl l hmem
        exact if_neg hne
      simp only [List.map_congr_left hnone, List.map_id']
  | some l =>
      have hid := listener?_id hl
      have hput : ∀ l' ∈ s.listeners, (if l'.id = (f l).id then f l else l') =
          if l'.id = id then f l' else l' := by
        intro l' hmem
        rw [hf, hid]
        split
        · next heq =>
            have hsame : s.listener? id = some l' := (listener?_eq_some_iff h).mpr ⟨hmem, heq⟩
            rw [hl] at hsame
            cases hsame
            rfl
        · rfl
      exact congrArg (fun ls => { s with listeners := ls }) (List.map_congr_left hput)

lemma numbered_map (h : s.Numbered) (hf : ∀ l, (f l).id = l.id) :
    Numbered { s with listeners := s.listeners.map f } :=
  h.of_eq (ids_eq_of_map rfl hf) rfl

/-- What was done at the seats that have been visited, and nothing else. -/
lemma visit_eq (h : s.Numbered) (hf : ∀ l, (f l).id = l.id) {order : List ListenerId}
    (hnodup : order.Nodup) :
    s.visit f order =
      { s with listeners := s.listeners.map fun l => if l.id ∈ order then f l else l } := by
  induction order generalizing s with
  | nil => simp [visit]
  | cons id rest ih =>
      obtain ⟨hfresh, hrest⟩ := List.nodup_cons.mp hnodup
      have hkeeps : ∀ l : Listener, (if l.id = id then f l else l).id = l.id := by
        intro l
        split
        · exact hf l
        · rfl
      rw [visit, List.foldl_cons, ← visit, amend_eq h hf, ih (numbered_map h hkeeps) hrest]
      simp only [List.map_map]
      congr 2
      funext l
      simp only [Function.comp_apply, hkeeps, List.mem_cons]
      by_cases hid : l.id = id
      · -- visited now, and not a second time
        rw [if_neg (by rwa [hid]), if_pos hid, if_pos (Or.inl hid)]
      · simp only [hid, if_false, false_or]

/-- **The order makes no difference**: every seat of the table is visited once, in whatever order,
and that is the same as serving all at once. -/
theorem visit_eq_map (h : s.Numbered) (hf : ∀ l, (f l).id = l.id)
    (hunseated : ∀ l, l.isSeated = false → f l = l) {order : List ListenerId}
    (horder : order.Perm s.seatedIds) :
    s.visit f order = { s with listeners := s.listeners.map f } := by
  have hnodup : s.seatedIds.Nodup :=
    h.nodup.sublist ((List.filter_sublist (l := s.listeners)).map Listener.id)
  have hall : ∀ l ∈ s.listeners, (if l.id ∈ order then f l else l) = f l := by
    intro l hmem
    split
    · rfl
    · next hnot =>
        refine (hunseated l ?_).symm
        by_contra hseated
        rw [Bool.not_eq_false] at hseated
        exact hnot (horder.mem_iff.mpr
          (List.mem_map_of_mem (List.mem_filter.mpr ⟨hmem, hseated⟩)))
  rw [visit_eq h hf (horder.nodup_iff.mpr hnodup)]
  exact congrArg (fun ls => { s with listeners := ls }) (List.map_congr_left hall)

/-! ## Operations that go through the table -/

/-- Takes a live chunk, and delivers to the listeners in this order. -/
def pushIn (s : Stream) (order : List ListenerId) (c : Chunk) : Stream :=
  if s.destroyed then s
  else
    let (outcome, stored) := s.onStore fun store => store.insert c
    match outcome with
    | .appended =>
      visit { stored with nowPlaying := stored.playing c } (deliverTo stored.store) order
    | .outOfOrder | .prepended | .duplicate => stored

/-- An operation that goes through the table in this order. -/
def Operation.applyIn (s : Stream) (order : List ListenerId) : Operation → Stream
  | .push c => s.pushIn order c
  | .reports => s.visit (fun l => if l.isSeated then l.takeInterval.2 else l) order
  | .disconnectSlow maxBytes => s.visit (fun l => if isSlow maxBytes l then l.unseat else l) order
  | op => op.apply s

lemma deliverTo_of_unseated (store : Store) {l : Listener} (h : l.isSeated = false) :
    deliverTo store l = l := by
  have hseat : l.seat = none := by simpa [Listener.isSeated] using h
  rw [deliverTo, hseat]

lemma pushIn_eq (h : s.Numbered) {order : List ListenerId} (horder : order.Perm s.seatedIds)
    (c : Chunk) : s.pushIn order c = (s.push c).2 := by
  simp only [pushIn, push, onStore_eq]
  split
  · rfl
  · cases (s.store.insert c).1 with
    | appended =>
        exact visit_eq_map
          (s := { s with store := (s.store.insert c).2, nowPlaying := s.playing c })
          (h.of_eq rfl rfl) (Listener.id_deliverTo _) (fun _ => deliverTo_of_unseated _) horder
    | prepended => rfl
    | duplicate => rfl
    | outOfOrder => rfl

lemma applyIn_eq (h : s.Numbered) {order : List ListenerId} (horder : order.Perm s.seatedIds)
    (op : Operation) : op.applyIn s order = op.apply s := by
  cases op with
  | push c => exact pushIn_eq h horder c
  | reports =>
      refine visit_eq_map h (fun l => ?_) (fun l hl => ?_) horder
      · split <;> rfl
      · rw [hl]
        rfl
  | disconnectSlow maxBytes =>
      refine visit_eq_map h (fun l => ?_) (fun l hl => ?_) horder
      · split <;> rfl
      · rw [isSlow, hl]
        rfl
  | _ => rfl

end Stream

namespace Broadcast

/-! ## Runs -/

/-- One event, in which the table is gone through in this order. -/
def stepIn (C : Codec) (b : Broadcast) (order : List ListenerId) : Event → Broadcast
  | .operate op => { b with stream := op.applyIn b.stream order }
  | event => b.step C event

/-- What a list of events can do when the table is gone through in another order every time. -/
inductive Ordered (C : Codec) : Broadcast → List Event → Broadcast → Prop
  | nil (b : Broadcast) : Ordered C b [] b
  | cons {b b' : Broadcast} {event : Event} {rest : List Event} {order : List ListenerId}
      (perm : order.Perm b.stream.seatedIds) (next : Ordered C (b.stepIn C order event) rest b') :
      Ordered C b (event :: rest) b'

lemma stepIn_eq (C : Codec) {b : Broadcast} (h : b.stream.Numbered) {order : List ListenerId}
    (horder : order.Perm b.stream.seatedIds) (event : Event) :
    b.stepIn C order event = b.step C event := by
  cases event with
  | operate op => rw [stepIn, Stream.applyIn_eq h horder]; rfl
  | start => rfl
  | preload id a => rfl

/-- **All of them end alike.** -/
theorem ordered_iff (C : Codec) {b b' : Broadcast} (h : b.stream.Numbered) (events : List Event) :
    Ordered C b events b' ↔ b' = b.run C events := by
  induction events generalizing b with
  | nil =>
      constructor
      · rintro ⟨⟩
        rfl
      · rintro rfl
        exact .nil _
  | cons event rest ih =>
      have hnext := ih (numbered_step h C event)
      constructor
      · rintro (_ | ⟨hperm, hrest⟩)
        rw [stepIn_eq C h hperm] at hrest
        exact hnext.mp hrest
      · intro heq
        refine .cons (List.Perm.refl _) ?_
        rw [stepIn_eq C h (List.Perm.refl _)]
        exact hnext.mpr heq

end Broadcast

end RewindRelay
