import RewindRelay.Proofs.Broadcast.Merge
import RewindRelay.Proofs.Broadcast.Passage
/-!
# Deliveries go forward in time

What a listener is given is read off a store that changes all the time: a preload empties it and
fills it with chunks that the listener may have had before, history enters it, and a smaller window
cuts it short.  Only the cursor of the listener stays through all that, and it is enough: nothing is
due that is as old as the cursor, so nothing is given twice, and nothing is given late, until the
stream starts over.

* `Stream.Onward` — the invariant: the cursor has kept up with all that was given.
* `Stream.Onward.step` — **every event that does not make the stream start over keeps it.**
* `Broadcast.Reachable.supply_ascending` — **deliveries go forward in time.**
-/

namespace RewindRelay

open Chunk (Ascending)

namespace Stream

/-- The cursor of a listener has kept up with all that it was given. -/
structure Onward (s : Stream) (id : ListenerId) (queued : List Chunk) : Prop where
  ascending : Ascending queued
  /-- Who was given something has a number. -/
  known : queued ≠ [] → id < s.nextListener
  seeded : ∀ l, s.listener? id = some l → queued ≠ [] → l.phase ≠ .seeding
  behind : ∀ l seat, s.listener? id = some l → l.seat = some seat → ∀ c ∈ queued,
    ∃ ts, seat.cursor = some ts ∧ c.ts ≤ ts

variable {s s' : Stream} {id : ListenerId} {queued : List Chunk}

lemma onward_nil (s : Stream) (id : ListenerId) : s.Onward id [] where
  ascending := Chunk.ascending_nil
  known := fun hne => absurd rfl hne
  seeded := fun _ _ hne => absurd rfl hne
  behind := fun _ _ _ _ _ hc => absurd hc List.not_mem_nil

/-- A listener that is not seeded yet was given nothing. -/
lemma Onward.eq_nil_of_new (h : s.Onward id queued) {l : Listener}
    (hl : s.listener? id = some l) (hnew : l.phase = .seeding) : queued = [] := by
  by_contra hne
  exact h.seeded l hl hne hnew

/-- Nothing is given, and the listener stands as before or has no seat. -/
lemma Onward.of_same (h : s.Onward id queued) (hnext : s.nextListener ≤ s'.nextListener)
    (hseeded : ∀ l', s'.listener? id = some l' → queued ≠ [] → l'.phase ≠ .seeding)
    (hseat : ∀ l' seat, s'.listener? id = some l' → l'.seat = some seat →
      ∃ l, s.listener? id = some l ∧ l.seat = some seat) : s'.Onward id queued where
  ascending := h.ascending
  known := fun hne => Nat.lt_of_lt_of_le (h.known hne) hnext
  seeded := hseeded
  behind := fun l' seat hl' hs' => by
    obtain ⟨l, hl, hs⟩ := hseat l' seat hl' hs'
    exact h.behind l seat hl hs

/-- The first audio of a listener goes forward in time, and its cursor is that of the last of it. -/
lemma ascending_seed (ho : Ascending s.store.chunks) (o : ListenOptions) (offset : ℕ) :
    Ascending (s.seed o offset) ∧ ∀ c ∈ s.seed o offset, ∃ ts,
      (s.seed o offset).getLast?.map Chunk.ts = some ts ∧ c.ts ≤ ts := by
  have hstretch := s.seed_infix o offset
  have hseed : Ascending (s.seed o offset) := ho.sublist hstretch.sublist
  refine ⟨hseed, fun c hc => ?_⟩
  have hlast := List.getLast?_eq_some_getLast (List.ne_nil_of_mem hc)
  exact ⟨_, by rw [hlast]; rfl, hseed.ts_le_getLast? hc hlast⟩

/-- What a listener is due comes after all that it was given, and its cursor moves on to it. -/
lemma Onward.due (h : s.Onward id queued) {l : Listener} {seat : Seat}
    (hl : s.listener? id = some l) (hseat : l.seat = some seat) {store : Store}
    (ho : Ascending store.chunks) :
    Ascending (queued ++ Stream.due store seat) ∧
      ∀ c ∈ queued ++ Stream.due store seat, ∃ ts,
        ((Stream.due store seat).getLast?.map Chunk.ts).or seat.cursor = some ts ∧ c.ts ≤ ts := by
  obtain ⟨offset, cursor⟩ := seat
  have hdue : Ascending (Stream.due store ⟨offset, cursor⟩) :=
    ho.sublist (due_sublist store ⟨offset, cursor⟩)
  have hafter : ∀ a ∈ queued, ∀ c ∈ Stream.due store ⟨offset, cursor⟩, a.ts < c.ts := by
    intro a ha c hc
    obtain ⟨ts, hcursor, hle⟩ := h.behind l _ hl hseat a ha
    simp only at hcursor
    subst hcursor
    exact Int64.lt_of_le_of_lt hle (ts_lt_of_mem_due ho hc)
  refine ⟨Chunk.ascending_append.mpr ⟨h.ascending, hdue, hafter⟩, fun c hc => ?_⟩
  cases hlast : (Stream.due store ⟨offset, cursor⟩).getLast? with
  | none =>
      rw [List.getLast?_eq_none_iff.mp hlast, List.append_nil] at hc
      exact h.behind l _ hl hseat c hc
  | some last =>
      refine ⟨last.ts, rfl, ?_⟩
      rcases List.mem_append.mp hc with hc | hc
      · exact Int64.le_of_lt (hafter c hc last (List.mem_of_getLast? hlast))
      · exact hdue.ts_le_getLast? hc hlast

end Stream

namespace Broadcast

variable {C : Codec} {b : Broadcast} {id : ListenerId} {event : Event} {queued : List Chunk}

/-- **Every event that does not make the stream start over keeps the invariant.** -/
lemma onward_step (h : b.stream.Onward id queued) (hb : Reachable C b)
    (hevent : ¬ b.StartsOver C event) :
    (b.step C event).stream.Onward id (queued ++ b.given C id event) := by
  have hpassage := passage_step (C := C) hb.regular id event
  have hnext := nextListener_le_step C b event
  generalize hl' : (b.step C event).stream.listener? id = l?' at hpassage
  generalize hl : b.stream.listener? id = l? at hpassage
  generalize b.given C id event = given at hpassage ⊢
  cases hpassage with
  | absent =>
      rw [List.append_nil]
      exact h.of_same hnext (by simp [hl']) (by simp [hl'])
  | @arrives l number regular new =>
      -- the number is new, so nothing was given under it
      have hnil : queued = [] := by
        by_contra hne
        exact Nat.ne_of_lt (h.known hne) number
      rw [hnil]
      exact Stream.onward_nil _ _
  | @passes l l' same stays =>
      rw [List.append_nil]
      refine h.of_same hnext (fun x hx hne => ?_) fun x seat hx hseat => ⟨l, hl, ?_⟩
      · cases hl'.symm.trans hx
        rw [same.phase]
        exact h.seeded l hl hne
      · cases hl'.symm.trans hx
        exact same.seat.symm.trans hseat
  | @joins l l' _ new joined seats =>
      rw [h.eq_nil_of_new hl new, List.nil_append]
      obtain ⟨hascending, hbehind⟩ := Stream.ascending_seed hb.sound.ascending l.options _
      refine
        { ascending := hascending
          known := fun _ => Nat.lt_of_lt_of_le (hb.regular.numbered.lt_of_listener? hl) hnext
          seeded := fun x hx _ => ?_
          behind := fun x seat hx hseat c hc => ?_ }
      · cases hl'.symm.trans hx
        rw [joined.phase]
        nofun
      · cases hl'.symm.trans hx
        rw [joined.seat, ((hb.regular.listener id l hl).new new).1] at hseat
        split at hseat
        · cases hseat
        · cases hseat
          exact hbehind c hc
  | @refused l new =>
      rw [h.eq_nil_of_new hl new]
      exact Stream.onward_nil _ _
  | @served l l' seat c pushed alive place seated phase closed lastCall moved =>
      have ho := Store.ascending_insert hb.sound.ascending c
      obtain ⟨hascending, hbehind⟩ := h.due hl seated ho
      have hphase : l.phase = .streaming :=
        ((hb.regular.listener id l hl).seated (by rw [Listener.isSeated, seated]; rfl)).1
      refine
        { ascending := hascending
          known := fun _ => Nat.lt_of_lt_of_le (hb.regular.numbered.lt_of_listener? hl) hnext
          seeded := fun x hx _ => ?_
          behind := fun x seat' hx hseat a ha => ?_ }
      · cases hl'.symm.trans hx
        rw [phase, hphase]
        nofun
      · cases hl'.symm.trans hx
        rw [moved] at hseat
        cases hseat
        exact hbehind a ha
  | forgets renewed => exact absurd renewed hevent
  | @leaves l l' phase seat closed spent ends =>
      rw [List.append_nil]
      refine h.of_same hnext (fun x hx _ => ?_) fun x seat' hx hseat => ?_
      · cases hl'.symm.trans hx
        exact phase
      · cases hl'.symm.trans hx
        rw [seat] at hseat
        cases hseat
  | departs ends =>
      rw [List.append_nil]
      exact h.of_same hnext (by simp [hl']) (by simp [hl'])

/-- **Deliveries go forward in time.**  Whatever is done to a stream, all that it queues for one
listener, the first audio included, is strictly newer from one chunk to the next, as long as the
stream does not start over. -/
theorem Reachable.supply_ascending (hb : Reachable C b) (id : ListenerId) (events : List Event)
    (hevents : Never (Broadcast.step C) b events (StartsOver C)) :
    Ascending (supply C id b events) := by
  suffices honward : (b.run C events).stream.Onward id (supply C id b events) from
    honward.ascending
  induction events using List.reverseRecOn with
  | nil => exact Stream.onward_nil _ _
  | append_singleton events event ih =>
      have hpast : Never (Broadcast.step C) b events (StartsOver C) := fun past e hpre =>
        hevents past e (hpre.trans (List.prefix_append _ _))
      rw [run_append, supply_concat]
      exact onward_step (ih hpast) (reachable_run C hb events)
        (hevents events event (List.prefix_refl _))

/-- A listener is given three chunks.  Then a preload replaces the audio, by two of the same chunks,
and one more chunk is pushed. -/
def replaced : List Event :=
  [.operate (.updateVitals { streamKey := "a", chunkDuration := 1 }), .operate (.push (second 1)),
    .operate (.push (second 2)), .operate (.push (second 3)), .operate (.join .live 65536),
    .operate (.serve 0 .pump), .start, .preload 0 (.transport (.bytes
      (dumpParts { streamKey := "a", chunkDuration := 1 } [second 3, second 2]).flatten)),
    .preload 0 .advance, .preload 0 .advance, .preload 0 .advance, .operate (.push (second 4))]

theorem supply_replaced : Ascending (supply .json 0 (new "main" 3 65536) replaced) :=
  Reachable.supply_ascending (.new "main" 3 65536) 0 replaced (by decide +kernel)

example :
    (supply .json 0 (new "main" 3 65536) replaced).map Chunk.ts = [1000, 2000, 3000, 4000] := by
  decide +kernel

end Broadcast

end RewindRelay
