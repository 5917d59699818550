import RewindRelay.Proofs.Broadcast.Attendance
import RewindRelay.Proofs.Stream.Position
/-!
# The first audio of a listener

A listener asks for its first audio by a pump, in seconds behind live or by a moment in the past.
The offset that it will be held at is clamped to the stored span before anything is looked up, and
the lookup clamps once more; all the same the listener gets what the stream would answer to anybody
who asks for this audio, and where there is no answer it does not join.  A pump that is refused
leaves no trace, and one that comes too late does nothing.

* `Stream.asked` — the audio that a listener asks for, as a query.
* `Stream.seed_eq_asked` — **the first audio is the answer to that query.**
* `Stream.length_asked_le` — it is no longer than the burst.
* `Stream.asked_eq_error_iff` — when there is no answer.
* `Stream.pump_eq_self`, `Stream.pump_of_refused` — pumps that change nothing.
* `Stream.Seeding` — all that a pump of a new listener does.
* `Broadcast.Reachable.seeding` — **so it is in every stream in use.**
-/

namespace RewindRelay

open Chunk (Ascending)

/-! ## The query -/

namespace Stream

variable {s : Stream} {id : ListenerId} {l : Listener}

/-- The audio that a listener asks for: as many chunks as its burst has, from a moment on or from
its offset behind live.  At the live edge that is the last of the audio. -/
def asked (s : Stream) (o : ListenOptions) : Except Fault (List Chunk) :=
  match o.timestamp with
  | some ts => s.store.range (.timestamp ts) (s.chunksIn o.burstSeconds)
  | none =>
    .ok (if s.chunksIn o.offsetSeconds = 0 then s.secondsBehind o.burstSeconds o.burstSeconds
      else s.secondsBehind o.offsetSeconds o.burstSeconds)

/-- **The first audio is the answer to the query.**  Clamping first can only make a difference where
the clamped offset is the live edge and the one that was asked for is not.  Then there is one chunk
at most, and every offset means that chunk. -/
theorem seed_eq_asked (s : Stream) (o : ListenOptions) :
    (s.seatOffset o).map (s.seed o) = s.asked o := by
  cases hts : o.timestamp with
  | some ts =>
      simp only [asked, seatOffset, hts]
      rw [← s.store.map_behind_offsetOfTimestamp? ts]
      cases s.store.offsetOfTimestamp? ts with
      | error e => rfl
      | ok offset => simp only [Fault.map_ok, seed, hts, behind_clampOffset]
  | none =>
      simp only [seed, asked, seatOffset, hts, secondsBehind, Fault.map_ok, Except.ok.injEq]
      generalize s.chunksIn o.offsetSeconds = offset
      generalize s.chunksIn o.burstSeconds = burst
      by_cases hburst : burst = 0
      · simp only [hburst, chunksBehind_zero, ite_self]
      · by_cases hlive : offset = 0
        · have hclamp : s.clampOffset offset = 0 := by rw [hlive, clampOffset, Nat.zero_min]
          rw [if_pos hclamp, if_pos hlive]
        · rw [if_neg hlive, chunksBehind_of_ne s hlive hburst]
          split
          · next hclamp =>
              have hshort : s.store.length - 1 = 0 := by
                rw [clampOffset] at hclamp
                omega
              rw [chunksBehind_of_ne s hburst hburst]
              exact s.store.behind_congr (by omega) burst
          · next hclamp => rw [chunksBehind_of_ne s hclamp hburst, behind_clampOffset]

/-- Whoever joins gets what it asks for. -/
lemma Joins.asked {offset : ℕ} {l' : Listener} (h : s.Joins l offset l') :
    s.asked l.options = .ok (s.seed l.options offset) := by
  rw [← seed_eq_asked, h.place, Fault.map_ok]

/-- It is no longer than the burst. -/
lemma length_asked_le {o : ListenOptions} {chunks : List Chunk} (h : s.asked o = .ok chunks) :
    chunks.length ≤ s.chunksIn o.burstSeconds := by
  unfold asked at h
  split at h
  · exact s.store.length_range_le h
  · cases h
    split <;> exact s.length_chunksBehind_le _ _

/-- There is no answer where a moment is asked for and the gap behind it is too long. -/
lemma asked_eq_error_iff (hasc : Ascending s.store.chunks) {o : ListenOptions} {f : Fault} :
    s.asked o = .error f ↔
      f = .overflow ∧ ∃ ts, o.timestamp = some ts ∧ s.store.Overflows ts := by
  cases hts : o.timestamp with
  | none => simp [asked, hts]
  | some ts =>
      obtain ⟨hfails, hanswers⟩ := Store.answers_of_ascending hasc ts
      simp only [asked, hts, Option.some.injEq, exists_eq_left']
      by_cases hover : s.store.Overflows ts
      · rw [(hfails hover).range, Except.error.injEq]
        exact ⟨fun h => ⟨h.symm, hover⟩, fun h => h.1.symm⟩
      · obtain ⟨cs, hcs⟩ := (hanswers hover).range (s.chunksIn o.burstSeconds)
        rw [hcs]
        exact ⟨(by cases ·), fun h => absurd h.2 hover⟩

/-! ## Pumps -/

lemma pump_eq (hl : s.listener? id = some l) :
    s.pump id = some ((s.pumpListener l).1, s.act id .pump) := by
  rw [act_eq hl]
  simp only [pump, serve, hl, Option.map_some]
  rfl

/-- A pump after the first audio gives nothing and changes nothing. -/
lemma pump_eq_self (h : s.Numbered) (hl : s.listener? id = some l) (hold : l.phase ≠ .seeding) :
    s.pump id = some (.ok 0, s) := by
  have hpump : s.pumpListener l = (.ok 0, l) := if_neg hold
  rw [pump_eq hl, act_eq hl]
  simp only [ListenerAction.apply, hpump, h.put_self hl]

/-- Why a listener is not let in, if it is not. -/
def refusal? (s : Stream) (o : ListenOptions) : Option Refusal :=
  if s.destroyed then some (.stream (.destroyed s.name))
  else if s.loading then some (.stream (.loading s.name))
  else match s.asked o with
  | .error f => some (.fault f)
  | .ok _ => none

/-- A pump that is refused changes nothing. -/
lemma pump_of_refused (h : s.Numbered) (hl : s.listener? id = some l) (hnew : l.phase = .seeding)
    {e : Refusal} (he : s.refusal? l.options = some e) : s.pump id = some (.error e, s) := by
  have hattach : s.attach l = .error e := by
    rw [refusal?, ← seed_eq_asked] at he
    unfold attach
    split_ifs at he ⊢
    · exact congrArg Except.error (Option.some.inj he)
    · exact congrArg Except.error (Option.some.inj he)
    · cases hoffset : s.seatOffset l.options with
      | error f =>
          rw [hoffset] at he
          exact congrArg Except.error (Option.some.inj he)
      | ok offset =>
          rw [hoffset] at he
          cases he
  have hpump : s.pumpListener l = (.error e, l) := by
    simp only [pumpListener, hnew, if_true, hattach]
  rw [pump_eq hl, act_eq hl]
  simp only [ListenerAction.apply, hpump, h.put_self hl]

/-- All that a pump of a new listener does when it is not refused. -/
structure Seeding (s : Stream) (id : ListenerId) (l : Listener) (chunks : List Chunk) (s' : Stream)
    (l' : Listener) : Prop where
  asked : s.asked l.options = .ok chunks
  answer : s.pump id = some (.ok chunks.length, s')
  found : s'.listener? id = some l'
  queue : l'.queue.chunks = l.queue.chunks ++ chunks
  burst : chunks.length ≤ s.chunksIn l.options.burstSeconds
  phase : l'.phase = .streaming
  /-- A listener that stays has a seat, and goes on from the last chunk that it got. -/
  seat : ∃ offset, s.seatOffset l.options = .ok offset ∧
    l'.seat = if l.options.pumpAndFinish then none
      else some ⟨offset, chunks.getLast?.map Chunk.ts⟩
  others : ∀ k, k ≠ id → s'.listener? k = s.listener? k
  rest : s' = { s with listeners := s'.listeners }

lemma exists_attach (hd : s.destroyed = false) (hload : s.loading = false) {chunks : List Chunk}
    (hasked : s.asked l.options = .ok chunks) :
    ∃ offset l', s.seatOffset l.options = .ok offset ∧ s.seed l.options offset = chunks ∧
      s.attach l = .ok (chunks.length, l') := by
  rw [← seed_eq_asked] at hasked
  obtain ⟨offset, hoffset, rfl⟩ := Fault.map_eq_ok_iff.mp hasked
  exact ⟨offset, _, hoffset, rfl, attach_eq_ok_iff.mpr ⟨hd, hload, offset, hoffset, rfl, rfl⟩⟩

lemma exists_seeding (h : s.Regular) (hl : s.listener? id = some l) (hnew : l.phase = .seeding)
    (hd : s.destroyed = false) (hload : s.loading = false) {chunks : List Chunk}
    (hasked : s.asked l.options = .ok chunks) :
    ∃ l', Seeding s id l chunks (s.act id .pump) l' := by
  obtain ⟨hseat, hopen, -⟩ := (h.listener id l hl).new hnew
  obtain ⟨offset, l', hoffset, rfl, hattach⟩ := exists_attach hd hload hasked
  have hpump : s.pumpListener l = (.ok (s.seed l.options offset).length, l') := by
    simp only [pumpListener, hnew, if_true, hattach]
  obtain ⟨place, hjoins⟩ := exists_joins hattach
  cases hoffset.symm.trans hjoins.place
  exact ⟨l',
    { asked := hasked
      answer := by rw [pump_eq hl, hpump]
      found := by
        rw [listener?_act, if_pos rfl, hl, Option.map_some]
        simp only [ListenerAction.apply, hpump]
      queue := chunks_attach hattach hoffset hopen
      burst := length_asked_le hasked
      phase := hjoins.phase
      seat := ⟨offset, hoffset, by rw [hjoins.seat, hseat]⟩
      others := fun k hk => by rw [listener?_act, if_neg hk]
      rest := s.act_frame id .pump }⟩

end Stream

/-! ## Streams in use -/

namespace Broadcast

variable {C : Codec} {b : Broadcast} {id : ListenerId} {l : Listener}

/-- Whoever has had its first audio will not be let in. -/
lemma isBarred_of_phase (h : b.stream.Numbered) (hl : b.stream.listener? id = some l)
    (hold : l.phase ≠ .seeding) : b.IsBarred id := by
  refine ⟨h.lt_of_listener? hl, fun x hx => ?_⟩
  cases hl.symm.trans hx
  exact hold

/-- Whoever cannot be let in stays so, whatever happens. -/
lemma IsBarred.run (h : b.IsBarred id) (hb : Reachable C b) (events : List Event) :
    (b.run C events).IsBarred id := by
  induction events using List.reverseRecOn with
  | nil => exact h
  | append_singleton events event ih =>
      rw [run_append]
      exact ih.step (reachable_run C hb events).regular C event

/-- **The first audio of a listener is what it asks for**, if it is let in: it is queued and
counted, and the listener goes on from its end.  After that no pump does anything.  A pump that is
refused does nothing either, so that the next one is the first.  What a listener asks for is always
there, but for a moment that cannot be looked up. -/
theorem Reachable.seeding (hb : Reachable C b) (hl : b.stream.listener? id = some l)
    (hnew : l.phase = .seeding) :
    (b.stream.destroyed = false → b.stream.loading = false →
      ∀ chunks, b.stream.asked l.options = .ok chunks →
        ∃ b' l', b' = b.step C (.operate (.serve id .pump)) ∧
          b.stream.Seeding id l chunks b'.stream l' ∧
          ∀ events l'', (b'.run C events).stream.listener? id = some l'' →
            (b'.run C events).stream.pump id = some (.ok 0, (b'.run C events).stream)) ∧
    (∀ e, b.stream.refusal? l.options = some e →
      b.stream.pump id = some (.error e, b.stream) ∧
        b.step C (.operate (.serve id .pump)) = b) ∧
    ∀ f, b.stream.asked l.options = .error f ↔
      f = .overflow ∧ ∃ ts, l.options.timestamp = some ts ∧ b.stream.store.Overflows ts := by
  refine ⟨fun hd hload chunks hasked => ?_, fun e he => ?_, fun f => ?_⟩
  · obtain ⟨l', hseeding⟩ := Stream.exists_seeding hb.regular hl hnew hd hload hasked
    refine ⟨_, l', rfl, hseeding, fun events l'' hl'' => ?_⟩
    have hb' : Reachable C (b.step C (.operate (.serve id .pump))) := .step _ hb
    have hbarred : (b.step C (.operate (.serve id .pump))).IsBarred id :=
      isBarred_of_phase hb'.regular.numbered hseeding.found (by rw [hseeding.phase]; nofun)
    exact Stream.pump_eq_self (reachable_run C hb' events).regular.numbered hl''
      ((hbarred.run hb' events).seeded l'' hl'')
  · have hpump := Stream.pump_of_refused hb.regular.numbered hl hnew he
    have hsame : b.stream.act id .pump = b.stream := by
      rw [Stream.pump_eq hl, Option.some_inj, Prod.mk.injEq] at hpump
      exact hpump.2
    exact ⟨hpump, by rw [Broadcast.step, Stream.Operation.apply, hsame]⟩
  · exact Stream.asked_eq_error_iff hb.sound.ascending

/-- A listener that asks for audio from before the only chunk. -/
def lone : List Event :=
  [.operate (.updateVitals { streamKey := "a", chunkDuration := 1 }),
    .operate (.push ⟨0, 1000, [0], none⟩), .operate (.join (.rewound 5) 65536)]

lemma listener?_lone :
    (((new "main" 3 65536).run .json lone).stream.listener? 0).isSome = true := by decide +kernel

/-- It is given that chunk, and follows at the live edge. -/
theorem seeding_lone :
    ∃ s' l', ((new "main" 3 65536).run .json lone).stream.pump 0 = some (.ok 1, s') ∧
      s'.listener? 0 = some l' ∧ l'.queue.chunks = [⟨0, 1000, [0], none⟩] ∧
      l'.seat = some ⟨0, some 0⟩ := by
  obtain ⟨b', l', -, h, -⟩ := (Reachable.seeding (reachable_run .json (.new "main" 3 65536) lone)
    (Option.some_get listener?_lone).symm (by decide +kernel)).1 (by decide +kernel)
    (by decide +kernel) [⟨0, 1000, [0], none⟩] rfl
  obtain ⟨offset, hoffset, hseat⟩ := h.seat
  have hlive : offset = 0 := Except.ok.inj (hoffset.symm.trans (by decide +kernel))
  refine ⟨b'.stream, l', h.answer, h.found, h.queue, ?_⟩
  rw [hseat, hlive]
  decide +kernel

end Broadcast

end RewindRelay
