import RewindRelay.Proofs.Broadcast.Gapless
import RewindRelay.Proofs.Broadcast.Roster
import RewindRelay.Proofs.Stream.Ended
import RewindRelay.Proofs.Stream.Turn
/-!
# What an event does to one listener

A stream has many listeners, and most of what happens on it concerns only some of them.  This module
follows one listener, by its number, through one event: what becomes of it, and what the stream
queues for it.  All laws about listeners are read off the few cases that there are.

* `Broadcast.Seats`, `Broadcast.Ends` — the event lets the listener in to stay, or ends it.
* `Broadcast.StartsOver` — the event discards the audio of the stream, so that it starts over.
* `Broadcast.given`, `Broadcast.supply` — the chunks that an event, or a run, queues for the
  listener.
* `Broadcast.Passage`, `Broadcast.passage_step` — **all that an event can do to a listener.**
* `Stream.Regular` — what number, phase, seat and queue of a listener tell of each other.
* `Broadcast.Reachable.regular` — so it is in every stream in use.
-/

namespace RewindRelay

namespace Stream

/-- The operation lets a listener in, to stay: it asks for its first audio and is not refused. -/
def Seats (s : Stream) (id : ListenerId) : Operation → Prop
  | .serve k a => k = id ∧ a.asks = true ∧ ∃ l ∈ s.listener? id, l.phase = .seeding ∧
      (s.pumpListener l).1.isOk = true ∧ l.options.pumpAndFinish = false
  | _ => False

instance (s : Stream) (id : ListenerId) : (op : Operation) → Decidable (s.Seats id op)
  | .serve k a => inferInstanceAs (Decidable (k = id ∧ a.asks = true ∧ ∃ l ∈ s.listener? id,
      l.phase = .seeding ∧ (s.pumpListener l).1.isOk = true ∧ l.options.pumpAndFinish = false))
  | .push _ | .updateVitals _ | .setWindow _ | .adjust | .reset | .destroy | .join _ _ | .drop _
  | .reports | .disconnectSlow _ => isFalse not_false

/-- The operation ends a listener: it leaves or goes out of use, it is ended because it is slow, or
the stream is destroyed. -/
def Ends (s : Stream) (id : ListenerId) : Operation → Prop
  | .serve k .leave | .drop k => k = id ∧ id ∈ s.ids
  | .disconnectSlow maxBytes => id ∈ (s.disconnectSlow maxBytes).1
  | .destroy => True
  | _ => False

instance (s : Stream) (id : ListenerId) : (op : Operation) → Decidable (s.Ends id op)
  | .serve k .leave | .drop k => inferInstanceAs (Decidable (k = id ∧ id ∈ s.ids))
  | .disconnectSlow maxBytes => inferInstanceAs (Decidable (id ∈ (s.disconnectSlow maxBytes).1))
  | .destroy => isTrue trivial
  | .push _ | .updateVitals _ | .setWindow _ | .adjust | .reset | .join _ _ | .reports
  | .serve _ .pump | .serve _ (.poll _) | .serve _ (.read _) | .serve _ (.enqueue _)
  | .serve _ .takeInterval => isFalse not_false

/-- The vitals are taken over, and are of another encoding than the stream's. -/
def Supersedes (s : Stream) (v : Vitals) : Prop :=
  v.isUsable = true ∧ ∃ v' ∈ s.vitals, v'.streamKey ≠ v.streamKey

instance (s : Stream) (v : Vitals) : Decidable (s.Supersedes v) :=
  inferInstanceAs (Decidable (_ ∧ _))

/-- What has come into the queue of a listener between two states of its stream. -/
def growth (s s' : Stream) (id : ListenerId) : List Chunk :=
  (s'.waiting id).drop (s.waiting id).length

/-- What holds of the listeners of every stream in use. -/
structure Regular (s : Stream) : Prop where
  numbered : s.Numbered
  listener : ∀ id l, s.listener? id = some l → l.Regular
  /-- Nobody has a seat after the end. -/
  vacant : s.destroyed = true → s.seated = []

lemma Regular.alive_of_seat {s : Stream} (h : s.Regular) {id : ListenerId} {l : Listener}
    (hl : s.listener? id = some l) (hseated : l.isSeated = true) : s.destroyed = false := by
  by_contra hd
  have hmem : l ∈ s.seated := List.mem_filter.mpr ⟨List.mem_of_find?_eq_some hl, hseated⟩
  rw [h.vacant (by simpa using hd)] at hmem
  cases hmem

end Stream

/-- The header that a preload is about to apply. -/
def Preload.opens (C : Codec) (p : Preload) : Option Header :=
  match (p.loader.nextFrame C).1 with
  | .ok (some (.header h)) => some h
  | _ => none

namespace Broadcast

def Seats (b : Broadcast) (id : ListenerId) : Event → Prop
  | .operate op => b.stream.Seats id op
  | _ => False

instance (b : Broadcast) (id : ListenerId) : (event : Event) → Decidable (b.Seats id event)
  | .operate op => inferInstanceAs (Decidable (b.stream.Seats id op))
  | .start | .preload _ _ => isFalse not_false

def Ends (b : Broadcast) (id : ListenerId) : Event → Prop
  | .operate op => b.stream.Ends id op
  | _ => False

instance (b : Broadcast) (id : ListenerId) : (event : Event) → Decidable (b.Ends id event)
  | .operate op => inferInstanceAs (Decidable (b.stream.Ends id op))
  | .start | .preload _ _ => isFalse not_false

/-- The stream starts over: it is reset, or vitals of another encoding are reported, be it by its
source or by the header of a preload. -/
def StartsOver (C : Codec) (b : Broadcast) : Event → Prop
  | .operate .reset => True
  | .operate (.updateVitals v) => b.stream.Supersedes v
  | .preload id .advance => ∃ p ∈ b.running.lookup id, ∃ h ∈ p.opens C, b.stream.Supersedes h.vitals
  | _ => False

instance (C : Codec) (b : Broadcast) : (event : Event) → Decidable (b.StartsOver C event)
  | .operate .reset => isTrue trivial
  | .operate (.updateVitals v) => inferInstanceAs (Decidable (b.stream.Supersedes v))
  | .preload id .advance => inferInstanceAs
      (Decidable (∃ p ∈ b.running.lookup id, ∃ h ∈ p.opens C, b.stream.Supersedes h.vitals))
  | .operate (.push _) | .operate (.setWindow _) | .operate .adjust | .operate .destroy
  | .operate (.join _ _) | .operate (.serve _ _) | .operate (.drop _) | .operate .reports
  | .operate (.disconnectSlow _) | .start | .preload _ (.transport _) | .preload _ .cancel =>
    isFalse not_false

/-- The chunks that an event queues for a listener.  What the listener puts into its queue by itself
does not count; and a poll is taken as the pump that it begins with, for it reads at once. -/
def given (C : Codec) (b : Broadcast) (id : ListenerId) : Event → List Chunk
  | .operate (.serve _ (.enqueue _)) => []
  | .operate (.serve k (.poll _)) => b.stream.growth (b.stream.act k .pump) id
  | event => b.stream.growth (b.step C event).stream id

/-- The chunks that a whole run queues for a listener. -/
def supply (C : Codec) (id : ListenerId) : Broadcast → List Event → List Chunk
  | _, [] => []
  | b, event :: events => b.given C id event ++ supply C id (b.step C event) events

/-- All that an event can do to a listener, and what it queues for it. -/
inductive Passage (C : Codec) (b : Broadcast) (id : ListenerId) (event : Event) :
    Option Listener → Option Listener → List Chunk → Prop
  /-- There is no such listener. -/
  | absent : Passage C b id event none none []
  /-- It is new. -/
  | arrives {l : Listener} (number : id = b.stream.nextListener) (regular : l.Regular)
    (new : l.phase = .seeding) : Passage C b id event none (some l) []
  /-- It stands as before. -/
  | passes {l l' : Listener} (same : l.SameStanding l')
    (stays : l.isSeated = true → ¬ b.Ends id event) : Passage C b id event (some l) (some l') []
  /-- It is let in, and given its first audio. -/
  | joins {l l' : Listener} {offset : ℕ} (new : l.phase = .seeding)
    (joined : b.stream.Joins l offset l')
    (seats : l.options.pumpAndFinish = false → b.Seats id event) :
    Passage C b id event (some l) (some l') (b.stream.seed l.options offset)
  /-- It is refused, and closed before it was seeded. -/
  | refused {l : Listener} (new : l.phase = .seeding) :
    Passage C b id event (some l) (some { l with phase := .closed }) []
  /-- It has a seat, and is given what a live chunk makes due. -/
  | served {l l' : Listener} {seat : Seat} {c : Chunk} (pushed : event = .operate (.push c))
    (alive : b.stream.destroyed = false) (place : b.stream.store.placement c.ts = .appended)
    (seated : l.seat = some seat) (phase : l'.phase = l.phase)
    (closed : l'.queue.closed = l.queue.closed) (lastCall : l'.queue.lastCall = l.queue.lastCall)
    (moved : l'.seat = some ⟨seat.offset,
      ((Stream.due (b.stream.store.insert c).2 seat).getLast?.map Chunk.ts).or seat.cursor⟩) :
    Passage C b id event (some l) (some l') (Stream.due (b.stream.store.insert c).2 seat)
  /-- The stream starts over, and the listener forgets what it was given last. -/
  | forgets {l : Listener} (renewed : b.StartsOver C event) :
    Passage C b id event (some l) (some l.forgetCursor) []
  /-- It is over. -/
  | leaves {l l' : Listener} (phase : l'.phase ≠ .seeding) (seat : l'.seat = none)
    (closed : l'.queue.closed = true) (spent : l'.queue.chunks = []) (ends : b.Ends id event) :
    Passage C b id event (some l) (some l') []
  /-- It is over and out of use. -/
  | departs {l : Listener} (ends : b.Ends id event) : Passage C b id event (some l) none []

variable {C : Codec} {b : Broadcast} {id : ListenerId} {event : Event}

lemma supply_concat (events : List Event) :
    supply C id b (events ++ [event]) =
      supply C id b events ++ (b.run C events).given C id event := by
  induction events generalizing b with
  | nil => exact List.append_nil _
  | cons first events ih =>
      rw [List.cons_append, supply, supply, ih, List.append_assoc]
      rfl

/-! ## Starting over -/

lemma updateVitals_of_supersedes {s : Stream} {v : Vitals} (h : s.Supersedes v) :
    (s.updateVitals v).2 = Stream.adjust { s.reset with vitals := some v } := by
  obtain ⟨husable, v', hv', hother⟩ := h
  rcases Stream.updateVitals_cases s v with ⟨hu, -⟩ | ⟨-, hsame, -⟩ | ⟨-, -, heq⟩
  · rw [husable] at hu
    cases hu
  · exact absurd (hsame v' hv') hother
  · exact heq

/-- A stream that starts over has no audio, and no listener knows what it was given last. -/
lemma StartsOver.step (h : b.StartsOver C event) :
    (b.step C event).stream.store.chunks = [] ∧
      (b.step C event).stream.listeners = b.stream.listeners.map Listener.forgetCursor := by
  have hvitals : ∀ v, b.stream.Supersedes v →
      (b.stream.updateVitals v).2.store.chunks = [] ∧
        (b.stream.updateVitals v).2.listeners =
          b.stream.listeners.map Listener.forgetCursor := by
    intro v hv
    rw [updateVitals_of_supersedes hv]
    exact ⟨Stream.chunks_adjust_of_nil rfl, rfl⟩
  cases event with
  | start => cases h
  | operate op =>
      cases op with
      | reset => exact ⟨rfl, rfl⟩
      | updateVitals v => exact hvitals v h
      | _ => cases h
  | preload k a =>
      cases a with
      | advance =>
          obtain ⟨p, hp, header, hopens, hheader⟩ := h
          have hnext : p.loader.nextFrame C = (.ok (some (.header header)),
              (p.loader.nextFrame C).2) := by
            unfold Preload.opens at hopens
            split at hopens
            · next h heq =>
                cases hopens
                exact Prod.ext heq rfl
            · cases hopens
          have hstream : (b.step C (.preload k .advance)).stream =
              (b.stream.updateVitals header.vitals).2 := by
            have happly := b.stream.applyFrame_header hheader.1 p.summary
            simp only [Broadcast.step, Option.mem_def.mp hp,
              Stream.stepPreload_of_applied hnext happly]
          rw [hstream]
          exact hvitals header.vitals hheader
      | _ => cases h

/-! ## What is queued -/

lemma growth_eq {s s' : Stream} {l l' : Listener} (hl : s.listener? id = some l)
    (hl' : s'.listener? id = some l') :
    s.growth s' id = l'.queue.chunks.drop l.queue.chunks.length := by
  simp only [Stream.growth, Stream.waiting, hl, hl']

lemma growth_of_none {s s' : Stream} (hl' : s'.listener? id = none) : s.growth s' id = [] := by
  simp only [Stream.growth, Stream.waiting, hl', List.drop_nil]

lemma growth_of_same {s s' : Stream} (h : s'.listener? id = s.listener? id) :
    s.growth s' id = [] := by
  simp only [Stream.growth, Stream.waiting, h, List.drop_length]

/-! ## One listener among all -/

/-- An event that changes each listener on its own. -/
lemma passage_of_map {f : Listener → Listener}
    (hgiven : b.given C id event = b.stream.growth (b.step C event).stream id)
    (hlisteners : (b.step C event).stream.listeners = b.stream.listeners.map f)
    (hid : ∀ l, (f l).id = l.id)
    (hf : ∀ l, b.stream.listener? id = some l → Passage C b id event (some l) (some (f l))
      ((f l).queue.chunks.drop l.queue.chunks.length)) :
    Passage C b id event (b.stream.listener? id) ((b.step C event).stream.listener? id)
      (b.given C id event) := by
  have hfind : (b.step C event).stream.listener? id = (b.stream.listener? id).map f := by
    rw [← Stream.listener?_map b.stream hid, Stream.listener?, hlisteners, Stream.listener?]
  rw [hgiven]
  cases hl : b.stream.listener? id with
  | none =>
      rw [hl] at hfind
      rw [growth_of_none hfind, hfind]
      exact .absent
  | some l =>
      rw [hl] at hfind
      rw [growth_eq hl hfind, hfind]
      exact hf l hl

/-- An event that does not concern the listener. -/
lemma passage_of_found (hgiven : b.given C id event = [])
    (hfind : (b.step C event).stream.listener? id = b.stream.listener? id)
    (hends : ¬ b.Ends id event) :
    Passage C b id event (b.stream.listener? id) ((b.step C event).stream.listener? id)
      (b.given C id event) := by
  rw [hgiven, hfind]
  cases b.stream.listener? id with
  | none => exact .absent
  | some l => exact .passes (.refl l) fun _ => hends

/-- An event that leaves all listeners alone. -/
lemma passage_of_same (hgiven : b.given C id event = b.stream.growth (b.step C event).stream id)
    (hlisteners : (b.step C event).stream.listeners = b.stream.listeners)
    (hends : ¬ b.Ends id event) :
    Passage C b id event (b.stream.listener? id) ((b.step C event).stream.listener? id)
      (b.given C id event) := by
  have hfind : (b.step C event).stream.listener? id = b.stream.listener? id := by
    rw [Stream.listener?, hlisteners, Stream.listener?]
  exact passage_of_found (hgiven.trans (growth_of_same hfind)) hfind hends

/-- The stream starts over. -/
lemma passage_of_startsOver
    (hgiven : b.given C id event = b.stream.growth (b.step C event).stream id)
    (hover : b.StartsOver C event) :
    Passage C b id event (b.stream.listener? id) ((b.step C event).stream.listener? id)
      (b.given C id event) := by
  refine passage_of_map hgiven hover.step.2 (fun _ => rfl) fun l _ => ?_
  have hnone : l.forgetCursor.queue.chunks.drop l.queue.chunks.length = [] := List.drop_length
  rw [hnone]
  exact .forgets hover

/-! ## Events -/

/-- What becomes of a listener that has a seat when a live chunk is stored. -/
lemma push_served (hregular : b.stream.Regular) {l : Listener} {seat : Seat}
    (hl : b.stream.listener? id = some l) (hseat : l.seat = some seat) {c : Chunk}
    (hplace : b.stream.store.placement c.ts = .appended) :
    ∃ l', (b.step C (.operate (.push c))).stream.listener? id = some l' ∧
      b.given C id (.operate (.push c)) = Stream.due (b.stream.store.insert c).2 seat ∧
      l'.phase = l.phase ∧ l'.queue.closed = l.queue.closed ∧
      l'.queue.lastCall = l.queue.lastCall ∧
      l'.seat = some ⟨seat.offset,
        ((Stream.due (b.stream.store.insert c).2 seat).getLast?.map Chunk.ts).or seat.cursor⟩ := by
  have hseated : l.isSeated = true := by rw [Listener.isSeated, hseat]; rfl
  obtain ⟨-, hopen, -⟩ := (hregular.listener id l hl).seated hseated
  have hfind : (b.step C (.operate (.push c))).stream.listener? id =
      some (Stream.deliverTo (b.stream.store.insert c).2 l) := by
    have hpush := Stream.push_of_appended (hregular.alive_of_seat hl hseated) hplace
    rw [step, Stream.Operation.apply, hpush, Stream.fanOut,
      Stream.listener?_map _ (Listener.id_deliverTo _)]
    exact congrArg (Option.map _) hl
  obtain ⟨hqueue, hopen', hphase, hmoved⟩ :=
    Stream.deliverTo_spec (b.stream.store.insert c).2 hseat hopen
  refine ⟨_, hfind, ?_, hphase, hopen'.trans hopen.symm, ?_, hmoved⟩
  · refine (growth_eq hl hfind).trans ?_
    rw [hqueue, List.drop_left]
  · simp only [Stream.deliverTo, hseat]
    split
    · rfl
    · exact Queue.lastCall_enqueue _ _

lemma passage_push (hregular : b.stream.Regular) (c : Chunk) :
    Passage C b id (.operate (.push c)) (b.stream.listener? id)
      ((b.step C (.operate (.push c))).stream.listener? id)
      (b.given C id (.operate (.push c))) := by
  rcases Stream.push_cases b.stream c with ⟨-, heq⟩ | ⟨alive, hplace, heq⟩ | ⟨-, -, heq⟩
  · exact passage_of_same rfl (by simp only [step, Stream.Operation.apply, heq]) nofun
  · by_cases hseat : ∃ l seat, b.stream.listener? id = some l ∧ l.seat = some seat
    · obtain ⟨l, seat, hl, hseat⟩ := hseat
      obtain ⟨l', hl', hgiven, hphase, hclosed, hlast, hmoved⟩ :=
        push_served (C := C) hregular hl hseat hplace
      rw [hl, hl', hgiven]
      exact .served rfl alive hplace hseat hphase hclosed hlast hmoved
    · -- without a seat there is nothing to deliver
      refine passage_of_map (f := Stream.deliverTo (b.stream.store.insert c).2) rfl
        (by simp only [step, Stream.Operation.apply, heq]; rfl) (Listener.id_deliverTo _)
        fun l hl => ?_
      have hnone : l.seat = none := by
        cases hs : l.seat with
        | none => rfl
        | some seat => exact absurd ⟨l, seat, hl, hs⟩ hseat
      have hsame : Stream.deliverTo (b.stream.store.insert c).2 l = l := by
        simp only [Stream.deliverTo, hnone]
      rw [hsame, List.drop_length]
      exact .passes (.refl l) fun _ => nofun
  · exact passage_of_same rfl (by simp only [step, Stream.Operation.apply, heq]) nofun

lemma passage_updateVitals (v : Vitals)
    (hgiven : b.given C id event = b.stream.growth (b.step C event).stream id)
    (hstream : (b.step C event).stream.listeners = (b.stream.updateVitals v).2.listeners)
    (hover : b.stream.Supersedes v → b.StartsOver C event) (hends : ¬ b.Ends id event) :
    Passage C b id event (b.stream.listener? id) ((b.step C event).stream.listener? id)
      (b.given C id event) := by
  rcases Stream.updateVitals_cases b.stream v with ⟨-, heq⟩ | ⟨-, -, heq⟩ | ⟨hu, hkey, -⟩
  · exact passage_of_same hgiven (by rw [hstream, heq]) hends
  · exact passage_of_same hgiven (by rw [hstream, heq]; rfl) hends
  · exact passage_of_startsOver hgiven (hover ⟨hu, hkey⟩)

/-- A listener that is ended drops what it had. -/
lemma passage_unseat {p : Listener → Bool}
    (hgiven : b.given C id event = b.stream.growth (b.step C event).stream id)
    (hlisteners : (b.step C event).stream.listeners =
      b.stream.listeners.map fun l => if p l then l.unseat else l)
    (hregular : b.stream.Regular)
    (hseated : ∀ l, p l = true → l.isSeated = true)
    (hends : ∀ l, b.stream.listener? id = some l → l.isSeated = true →
      (b.Ends id event ↔ p l = true)) :
    Passage C b id event (b.stream.listener? id) ((b.step C event).stream.listener? id)
      (b.given C id event) := by
  refine passage_of_map hgiven hlisteners (fun l => by split <;> rfl) fun l hl => ?_
  split
  · next h =>
      have hold := hseated l h
      have hspent : l.unseat.queue.chunks = [] := Queue.chunks_wake _
      rw [hspent, List.drop_nil]
      refine .leaves ?_ rfl (Queue.closed_wake _) hspent ((hends l hl hold).mpr h)
      rw [show l.unseat.phase = l.phase from rfl, ((hregular.listener id l hl).seated hold).1]
      nofun
  · next h =>
      rw [List.drop_length]
      exact .passes (.refl l) fun hold hend => h ((hends l hl hold).mp hend)

lemma given_serve (k : ListenerId) (a : Stream.ListenerAction) :
    b.given C id (.operate (.serve k a)) =
      match a with
      | .enqueue _ => []
      | .poll _ => b.stream.growth (b.stream.act k .pump) id
      | a => b.stream.growth (b.stream.act k a) id := by
  cases a <;> rfl

/-- What a listener is given when it does something: its first audio, if it is let in by that. -/
lemma given_act {l : Listener} (hl : b.stream.listener? id = some l)
    (hopen : l.phase = .seeding → l.queue.closed = false) (a : Stream.ListenerAction) :
    (∀ offset l', a.asks = true → l.phase = .seeding → b.stream.Joins l offset l' →
        b.given C id (.operate (.serve id a)) = b.stream.seed l.options offset) ∧
      ((a.asks = true → l.phase = .seeding → ∃ e, b.stream.attach l = .error e) →
        b.given C id (.operate (.serve id a)) = []) := by
  have hgrowth : ∀ a', b.stream.growth (b.stream.act id a') id =
      (a'.apply b.stream l).queue.chunks.drop l.queue.chunks.length := fun a' =>
    growth_eq hl (by rw [Stream.listener?_act, if_pos rfl, hl]; rfl)
  have hpump : (∀ offset l', l.phase = .seeding → b.stream.Joins l offset l' →
        b.stream.growth (b.stream.act id .pump) id = b.stream.seed l.options offset) ∧
      ((l.phase = .seeding → ∃ e, b.stream.attach l = .error e) →
        b.stream.growth (b.stream.act id .pump) id = []) := by
    rw [hgrowth]
    simp only [Stream.ListenerAction.apply, Stream.pumpListener]
    refine ⟨fun offset l' hnew hjoins => ?_, fun hshut => ?_⟩
    · obtain ⟨seeded, l'', hattach⟩ := hjoins.exists_attach
      simp only [hnew, if_true, hattach]
      rw [Stream.chunks_attach hattach hjoins.place (hopen hnew), List.drop_left]
    · split
      · next hnew =>
          obtain ⟨e, he⟩ := hshut hnew
          simp only [he, List.drop_length]
      · exact List.drop_length
  rw [given_serve]
  cases a with
  | pump => exact ⟨fun n l' _ => hpump.1 n l', fun h => hpump.2 (h rfl)⟩
  | poll waker => exact ⟨fun n l' _ => hpump.1 n l', fun h => hpump.2 (h rfl)⟩
  | enqueue cs => exact ⟨fun _ _ h => absurd h Bool.false_ne_true, fun _ => rfl⟩
  | read size =>
      refine ⟨fun _ _ h => absurd h Bool.false_ne_true, fun _ => (hgrowth (.read size)).trans ?_⟩
      simp only [Stream.ListenerAction.apply, Listener.read]
      split
      · exact List.drop_length
      · exact List.drop_eq_nil_of_le (Queue.chunks_read_suffix _ _ _).length_le
      · exact List.drop_length
  | takeInterval =>
      exact ⟨fun _ _ h => absurd h Bool.false_ne_true,
        fun _ => (hgrowth .takeInterval).trans List.drop_length⟩
  | leave =>
      refine ⟨fun _ _ h => absurd h Bool.false_ne_true, fun _ => (hgrowth .leave).trans ?_⟩
      simp only [Stream.ListenerAction.apply, Listener.close]
      split
      · exact List.drop_length
      · exact (congrArg _ (Queue.chunks_wake _)).trans List.drop_nil

/-- What others do does not concern a listener. -/
lemma passage_act_of_ne {k : ListenerId} (hk : id ≠ k) (a : Stream.ListenerAction) :
    Passage C b id (.operate (.serve k a)) (b.stream.listener? id)
      ((b.step C (.operate (.serve k a))).stream.listener? id)
      (b.given C id (.operate (.serve k a))) := by
  have hfind : ∀ a', (b.stream.act k a').listener? id = b.stream.listener? id := fun a' => by
    rw [Stream.listener?_act, if_neg hk]
  refine passage_of_found ?_ (hfind a) ?_
  · cases a with
    | enqueue cs => rfl
    | _ => exact growth_of_same (hfind _)
  · cases a with
    | leave => exact fun hends => hk hends.1.symm
    | _ => exact not_false

lemma passage_act (hregular : b.stream.Regular) (k : ListenerId)
    (a : Stream.ListenerAction) :
    Passage C b id (.operate (.serve k a)) (b.stream.listener? id)
      ((b.step C (.operate (.serve k a))).stream.listener? id)
      (b.given C id (.operate (.serve k a))) := by
  by_cases hk : id = k
  swap
  · exact passage_act_of_ne hk a
  subst hk
  have hfind : (b.step C (.operate (.serve id a))).stream.listener? id =
      (b.stream.listener? id).map (a.apply b.stream) := by
    simp only [step, Stream.Operation.apply, Stream.listener?_act, if_true]
  rw [hfind]
  cases hl : b.stream.listener? id with
  | none =>
      have hnone : ∀ a', b.stream.growth (b.stream.act id a') id = [] := fun a' =>
        growth_of_none (by rw [Stream.listener?_act, if_pos rfl, hl]; rfl)
      have hgiven : b.given C id (.operate (.serve id a)) = [] := by
        cases a with
        | enqueue cs => rfl
        | _ => exact hnone _
      rw [hgiven]
      exact .absent
  | some l =>
      have hopen : l.phase = .seeding → l.queue.closed = false := fun hnew =>
        ((hregular.listener id l hl).new hnew).2.1
      obtain ⟨hok, hshut⟩ := given_act (C := C) hl hopen a
      have hacts := Stream.acts_apply b.stream l a
      rw [Option.map_some]
      generalize a.apply b.stream l = l' at hacts
      cases hacts with
      | plays same stays shut =>
          rw [hshut shut]
          refine .passes same fun hseated hends => ?_
          cases a with
          | leave =>
              have hphase := ((hregular.listener id l hl).seated hseated).1
              rw [stays rfl] at hphase
              cases hphase
          | _ => exact hends
      | joins asks new joined =>
          obtain ⟨seeded, l'', hattach⟩ := joined.exists_attach
          rw [hok _ _ asks new joined]
          refine .joins new joined fun hstay => ⟨rfl, asks, l, hl, new, ?_, hstay⟩
          simp only [Stream.pumpListener, new, if_true, hattach]
          rfl
      | refused new shut =>
          obtain ⟨e, he⟩ := shut
          rw [hshut fun _ _ => ⟨_, he⟩]
          exact .refused new
      | leaves stayed =>
          have hasks : Stream.ListenerAction.leave.asks = true → l.phase = .seeding →
              ∃ e, b.stream.attach l = .error e := fun h => by cases h
          rw [hshut hasks]
          exact .leaves (fun h => by cases h) rfl (Queue.closed_wake _) (Queue.chunks_wake _)
            ⟨rfl, Stream.mem_ids_of_listener? hl⟩

/-- A listener is made regular. -/
lemma regular_newcomer (id : ListenerId) (options : ListenOptions) (readSize : ℕ) :
    ({ id, options, readSize } : Listener).Regular :=
  ⟨fun _ => ⟨rfl, rfl, rfl⟩, nofun, nofun⟩

lemma passage_join (options : ListenOptions) (readSize : ℕ) :
    Passage C b id (.operate (.join options readSize)) (b.stream.listener? id)
      ((b.step C (.operate (.join options readSize))).stream.listener? id)
      (b.given C id (.operate (.join options readSize))) := by
  let newcomer : Listener :=
    { id := b.stream.nextListener, options, readSize := max readSize 1 }
  have hfind : (b.step C (.operate (.join options readSize))).stream.listener? id =
      (b.stream.listener? id).or (if b.stream.nextListener = id then some newcomer else none) := by
    simp only [step, Stream.Operation.apply, Stream.join, Stream.listener?, List.find?_append,
      List.find?_singleton, beq_iff_eq, newcomer]
  have hgiven : b.given C id (.operate (.join options readSize)) =
      b.stream.growth (b.step C (.operate (.join options readSize))).stream id := rfl
  rw [hgiven]
  cases hl : b.stream.listener? id with
  | some l =>
      rw [hl, Option.some_or] at hfind
      rw [growth_eq hl hfind, List.drop_length, hfind]
      exact .passes (.refl l) fun _ => not_false
  | none =>
      rw [hl, Option.none_or] at hfind
      by_cases hid : b.stream.nextListener = id
      · rw [if_pos hid] at hfind
        have hnil : b.stream.growth (b.step C (.operate (.join options readSize))).stream id =
            [] := by
          simp only [Stream.growth, Stream.waiting, hl, hfind]
          rfl
        rw [hnil, hfind]
        exact .arrives hid.symm (regular_newcomer _ _ _) rfl
      · rw [if_neg hid] at hfind
        rw [growth_of_none hfind, hfind]
        exact .absent

lemma passage_drop (k : ListenerId) :
    Passage C b id (.operate (.drop k)) (b.stream.listener? id)
      ((b.step C (.operate (.drop k))).stream.listener? id)
      (b.given C id (.operate (.drop k))) := by
  by_cases hk : id = k
  · have hfind : (b.step C (.operate (.drop k))).stream.listener? id = none := by
      rw [hk]
      exact Stream.listener?_forget _ k
    have hnil : b.given C id (.operate (.drop k)) = [] := growth_of_none hfind
    rw [hnil, hfind]
    cases hl : b.stream.listener? id with
    | none => exact .absent
    | some l => exact .departs ⟨hk.symm, Stream.mem_ids_of_listener? hl⟩
  · have hfind : (b.step C (.operate (.drop k))).stream.listener? id = b.stream.listener? id := by
      have hact : (b.stream.act k .leave).listener? id = b.stream.listener? id := by
        rw [Stream.listener?_act, if_neg hk]
      rw [← hact]
      exact Stream.listener?_forget_of_ne _ hk
    exact passage_of_found (growth_of_same hfind) hfind fun hends => hk hends.1.symm

lemma passage_reports :
    Passage C b id (.operate .reports) (b.stream.listener? id)
      ((b.step C (.operate .reports)).stream.listener? id)
      (b.given C id (.operate .reports)) := by
  refine passage_of_map rfl rfl (fun l => by split <;> rfl) fun l _ => ?_
  split
  · have hnil : l.takeInterval.2.queue.chunks.drop l.queue.chunks.length = [] := List.drop_length
    rw [hnil]
    exact .passes l.sameStanding_takeInterval fun _ => not_false
  · rw [List.drop_length]
    exact .passes (.refl l) fun _ => not_false

lemma passage_disconnectSlow (hregular : b.stream.Regular) (maxBytes : ℕ) :
    Passage C b id (.operate (.disconnectSlow maxBytes)) (b.stream.listener? id)
      ((b.step C (.operate (.disconnectSlow maxBytes))).stream.listener? id)
      (b.given C id (.operate (.disconnectSlow maxBytes))) := by
  refine passage_unseat (p := Stream.isSlow maxBytes) rfl rfl hregular (fun l hslow => ?_)
    fun l hl _ => ?_
  · rw [Stream.isSlow, Bool.and_eq_true] at hslow
    exact hslow.1
  · simp only [Ends, Stream.Ends, Stream.disconnectSlow, List.mem_map, List.mem_filter]
    refine ⟨?_, fun hslow => ⟨l, ⟨List.mem_of_find?_eq_some hl, hslow⟩, Stream.listener?_id hl⟩⟩
    rintro ⟨l', ⟨hmem, hslow⟩, hid⟩
    -- nobody else has this number
    have hl' := (Stream.listener?_eq_some_iff hregular.numbered).mpr ⟨hmem, hid⟩
    rw [hl, Option.some_inj] at hl'
    rwa [hl']

lemma passage_destroy (hregular : b.stream.Regular) :
    Passage C b id (.operate .destroy) (b.stream.listener? id)
      ((b.step C (.operate .destroy)).stream.listener? id)
      (b.given C id (.operate .destroy)) := by
  cases hd : b.stream.destroyed with
  | false =>
      refine passage_unseat (p := Listener.isSeated) rfl ?_ hregular (fun _ h => h)
        fun l hl hseated => ⟨fun _ => hseated, fun _ => trivial⟩
      simp [step, Stream.Operation.apply, Stream.destroy, hd]
  | true =>
      refine passage_of_map (f := fun l => l) rfl ?_ (fun _ => rfl) fun l hl => ?_
      · simp [step, Stream.Operation.apply, Stream.destroy, hd]
      · rw [List.drop_length]
        refine .passes (.refl l) fun hseated => ?_
        rw [hregular.alive_of_seat hl hseated] at hd
        cases hd

lemma passage_preload (k : PreloadId) (a : PreloadAction) :
    Passage C b id (.preload k a) (b.stream.listener? id)
      ((b.step C (.preload k a)).stream.listener? id) (b.given C id (.preload k a)) := by
  have hgiven : b.given C id (.preload k a) =
      b.stream.growth (b.step C (.preload k a)).stream id := rfl
  cases hp : b.running.lookup k with
  | none =>
      have hsame : b.step C (.preload k a) = b := by simp only [step, hp]
      exact passage_of_same hgiven (by rw [hsame]) not_false
  | some p =>
      have hstream : (b.step C (.preload k a)).stream = (b.stream.stepPreload C p a).2 := by
        simp only [step, hp]
      have hspec := Stream.stepPreload_spec C b.stream p a
      generalize hresult : b.stream.stepPreload C p a = result at hspec hstream
      cases hspec with
      | header h loader decoded usable =>
          refine passage_updateVitals h.vitals hgiven (by rw [hstream]) (fun hover => ?_) not_false
          exact ⟨p, hp, h, by rw [Preload.opens, decoded]; rfl, hover⟩
      | waits loader same => exact passage_of_same hgiven (by rw [hstream]) not_false
      | _ => exact passage_of_same hgiven (congrArg (fun s => s.listeners) hstream) not_false

/-- **All that an event can do to a listener.** -/
theorem passage_step (hregular : b.stream.Regular) (id : ListenerId) (event : Event) :
    Passage C b id event (b.stream.listener? id) ((b.step C event).stream.listener? id)
      (b.given C id event) := by
  cases event with
  | start => exact passage_of_same rfl rfl not_false
  | preload k a => exact passage_preload k a
  | operate op =>
      cases op with
      | push c => exact passage_push hregular c
      | updateVitals v => exact passage_updateVitals v rfl rfl (fun h => h) not_false
      | setWindow seconds => exact passage_of_same rfl rfl not_false
      | adjust => exact passage_of_same rfl rfl not_false
      | reset => exact passage_of_startsOver rfl trivial
      | destroy => exact passage_destroy hregular
      | join options readSize => exact passage_join options readSize
      | serve k a => exact passage_act hregular k a
      | drop k => exact passage_drop k
      | reports => exact passage_reports
      | disconnectSlow maxBytes => exact passage_disconnectSlow hregular maxBytes

/-! ## Every stream in use -/

/-- What an event leaves of a listener. -/
lemma Passage.regular {l? : Option Listener} {l' : Listener} {given : List Chunk}
    (h : Passage C b id event l? (some l') given) (hregular : ∀ l, l? = some l → l.Regular) :
    l'.Regular := by
  cases h with
  | arrives number regular new => exact regular
  | @passes l _ same stays => exact (hregular l rfl).sameStanding same
  | @joins l _ _ new joined seats => exact (hregular l rfl).joins new joined
  | @refused l new =>
      have hl := hregular l rfl
      exact Listener.regular_of_closed nofun (hl.new new).1 hl.spent
  | @served l _ seat c pushed alive place seated phase closed lastCall moved =>
      have hseated : l.isSeated = true := by rw [Listener.isSeated, seated]; rfl
      obtain ⟨hphase, hopen, hlast⟩ := (hregular l rfl).seated hseated
      exact
        { new := fun hnew => by rw [phase, hphase] at hnew; cases hnew
          seated := fun _ => ⟨phase.trans hphase, closed.trans hopen, lastCall.trans hlast⟩
          spent := fun hclosed => by rw [closed, hopen] at hclosed; cases hclosed }
  | @forgets l renewed =>
      have hl := hregular l rfl
      exact
        { new := fun hnew => by
            obtain ⟨hseat, hqueue⟩ := hl.new hnew
            exact ⟨by rw [Listener.forgetCursor, hseat]; rfl, hqueue⟩
          seated := fun hseated => hl.seated (by
            rwa [Listener.isSeated, Listener.forgetCursor, Option.isSome_map] at hseated)
          spent := hl.spent }
  | leaves phase seat closed spent ends =>
      exact Listener.regular_of_closed phase seat fun _ => spent

/-- No listener is ended by what makes the stream start over. -/
lemma StartsOver.not_ends (h : b.StartsOver C event) : ¬ b.Ends id event := by
  cases event with
  | start => exact not_false
  | preload k a => exact not_false
  | operate op =>
      cases op with
      | reset => exact not_false
      | updateVitals v => exact not_false
      | _ => cases h

/-- Whoever has a seat after an event had one before and is not ended by it, or is let in. -/
lemma Passage.seated {l? : Option Listener} {l' : Listener} {given : List Chunk}
    (h : Passage C b id event l? (some l') given) (hregular : ∀ l, l? = some l → l.Regular)
    (hseated : l'.isSeated = true) :
    (∃ l, l? = some l ∧ l.isSeated = true ∧ ¬ b.Ends id event) ∨
      b.stream.destroyed = false ∧ b.Seats id event := by
  cases h with
  | arrives number regular new => simp [Listener.isSeated, (regular.new new).1] at hseated
  | @passes l _ same stays =>
      have hold : l.isSeated = true := same.isSeated.symm.trans hseated
      exact Or.inl ⟨l, rfl, hold, stays hold⟩
  | @joins l _ _ new joined seats =>
      refine Or.inr ⟨joined.alive, seats ?_⟩
      by_contra honce
      have hnone := ((hregular l rfl).new new).1
      simp [Listener.isSeated, joined.seat, hnone, honce] at hseated
  | @refused l new => simp [Listener.isSeated, ((hregular l rfl).new new).1] at hseated
  | @served l _ seat c pushed alive place seated phase closed lastCall moved =>
      refine Or.inl ⟨l, rfl, by rw [Listener.isSeated, seated]; rfl, ?_⟩
      rw [pushed]
      exact not_false
  | @forgets l renewed =>
      refine Or.inl ⟨l, rfl, ?_, renewed.not_ends⟩
      rwa [Listener.isSeated, Listener.forgetCursor, Option.isSome_map] at hseated
  | leaves phase seat closed spent ends => simp [Listener.isSeated, seat] at hseated

lemma seated_eq_nil {s : Stream}
    (h : ∀ id l, s.listener? id = some l → l.isSeated = false) (hnumbered : s.Numbered) :
    s.seated = [] := by
  refine List.filter_eq_nil_iff.mpr fun l hl => ?_
  rw [h l.id l ((Stream.listener?_eq_some_iff hnumbered).mpr ⟨hl, rfl⟩)]
  exact Bool.false_ne_true

/-- **Every event keeps the listeners regular.** -/
lemma regular_step (h : b.stream.Regular) (C : Codec) (event : Event) :
    (b.step C event).stream.Regular := by
  have hnumbered := numbered_step h.numbered C event
  have hlisteners : ∀ id l', (b.step C event).stream.listener? id = some l' → l'.Regular := by
    intro id l' hl'
    have hpassage := passage_step (C := C) h id event
    rw [hl'] at hpassage
    exact hpassage.regular (h.listener id)
  refine ⟨hnumbered, hlisteners, fun hd => seated_eq_nil (fun id l' hl' => ?_) hnumbered⟩
  by_contra hseated
  have hpassage := passage_step (C := C) h id event
  rw [hl'] at hpassage
  have hcases := hpassage.seated (h.listener id) (by simpa using hseated)
  rw [destroyed_step] at hd
  rcases hcases with ⟨l, hl, hold, hends⟩ | ⟨halive, hseats⟩
  · have halive := h.alive_of_seat hl hold
    split at hd
    · exact hends trivial
    · rw [halive] at hd
      cases hd
  · split at hd
    · exact hseats
    · rw [halive] at hd
      cases hd

/-- **In every stream in use the listeners are regular.** -/
theorem Reachable.regular (h : Reachable C b) : b.stream.Regular := by
  induction h with
  | new name windowSeconds readSize =>
      refine ⟨numbered_new name windowSeconds readSize, fun id l hl => ?_, fun _ => rfl⟩
      exact absurd (List.mem_of_find?_eq_some hl) List.not_mem_nil
  | step event _ ih => exact regular_step ih C event

end Broadcast

end RewindRelay
