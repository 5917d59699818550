import RewindRelay.Proofs.Stream.Sound
/-!
# Laws along a run

A law about a stream in use is a law about every moment of every run.  Two ways to say so are
used: `Throughout`, that a property holds after each of the first events of a run, and `Never`,
that no event of a run is of a certain kind at the moment it happens.  What ties them together is a
property that an event keeps unless it is of that kind.  What has happened in a run, at some moment
or other, is `Once`.

* `Throughout`, `Never`, `Once` — the three.
* `throughout_iff_never` — **a property holds throughout a run iff no event breaks it.**
* `Broadcast.reachable_run` — every moment of a run from a new stream is a reachable state.
-/

namespace RewindRelay

section Laws

variable {σ ε : Type} (step : σ → ε → σ) (s : σ) (events : List ε)

/-- The property holds before the run, after it, and at every moment between two of its events. -/
def Throughout (P : σ → Prop) : Prop := ∀ past, past <+: events → P (past.foldl step s)

/-- No event of the run is a bad one at the moment it happens. -/
def Never (Bad : σ → ε → Prop) : Prop :=
  ∀ past event, past ++ [event] <+: events → ¬ Bad (past.foldl step s) event

/-- Some event of the run is of this kind at the moment it happens. -/
def Once (Kind : σ → ε → Prop) : Prop :=
  ∃ past event, past ++ [event] <+: events ∧ Kind (past.foldl step s) event

variable {step s events}

lemma never_nil (Bad : σ → ε → Prop) : Never step s [] Bad := fun past event hpre => by
  simp at hpre

lemma never_cons {event : ε} {Bad : σ → ε → Prop} :
    Never step s (event :: events) Bad ↔ ¬ Bad s event ∧ Never step (step s event) events Bad := by
  constructor
  · intro h
    refine ⟨h [] event (by simp), fun past e hpre => ?_⟩
    exact h (event :: past) e (List.cons_prefix_cons.mpr ⟨rfl, hpre⟩)
  · rintro ⟨hfirst, hrest⟩ past e hpre
    cases past with
    | nil =>
        obtain ⟨rfl, -⟩ := List.cons_prefix_cons.mp hpre
        exact hfirst
    | cons a past =>
        obtain ⟨rfl, hpast⟩ := List.cons_prefix_cons.mp hpre
        exact hrest past e hpast

instance Never.decidable (step : σ → ε → σ) (Bad : σ → ε → Prop) [∀ s e, Decidable (Bad s e)] :
    (s : σ) → (events : List ε) → Decidable (Never step s events Bad)
  | _, [] => isTrue (never_nil Bad)
  | s, event :: events =>
    have := Never.decidable step Bad (step s event) events
    decidable_of_iff (¬ Bad s event ∧ Never step (step s event) events Bad) never_cons.symm

lemma not_never_iff_once {Kind : σ → ε → Prop} :
    ¬ Never step s events Kind ↔ Once step s events Kind := by
  simp only [Never, Once, not_forall, not_not, exists_prop]

instance Once.decidable (step : σ → ε → σ) (s : σ) (events : List ε) (Kind : σ → ε → Prop)
    [∀ s e, Decidable (Kind s e)] : Decidable (Once step s events Kind) :=
  decidable_of_iff (¬ Never step s events Kind) not_never_iff_once

lemma not_once_nil (Kind : σ → ε → Prop) : ¬ Once step s [] Kind := by
  rintro ⟨past, event, hpre, -⟩
  simp at hpre

/-- What has happened after one more event: it had happened before, or this event is it. -/
lemma once_concat {event : ε} {Kind : σ → ε → Prop} :
    Once step s (events ++ [event]) Kind ↔
      Once step s events Kind ∨ Kind (events.foldl step s) event := by
  constructor
  · rintro ⟨past, e, hpre, hkind⟩
    rcases List.prefix_concat_iff.mp hpre with heq | hpre
    · obtain ⟨rfl, he⟩ := List.append_inj' heq rfl
      obtain rfl : e = event := by simpa using he
      exact Or.inr hkind
    · exact Or.inl ⟨past, e, hpre, hkind⟩
  · rintro (⟨past, e, hpre, hkind⟩ | hkind)
    · exact ⟨past, e, hpre.trans (List.prefix_append _ _), hkind⟩
    · exact ⟨events, event, List.prefix_refl _, hkind⟩

/-- What every event keeps that is not a bad one holds throughout a run without bad ones. -/
lemma throughout_of_never (Inv : σ → Prop) {P : σ → Prop} {Bad : σ → ε → Prop} (hInv : Inv s)
    (hkeep : ∀ s e, Inv s → ¬ Bad s e → Inv (step s e)) (hP : ∀ s, Inv s → P s)
    (h : Never step s events Bad) : Throughout step s events P := by
  intro past hpre
  refine hP _ ?_
  induction past using List.reverseRecOn with
  | nil => exact hInv
  | append_singleton past e ih =>
      have hpast := ih ((List.prefix_append past [e]).trans hpre)
      rw [List.foldl_append]
      exact hkeep _ _ hpast (h past e hpre)

/-- **Holding throughout is never being broken.**  `Inv` is what holds at every moment anyhow. -/
theorem throughout_iff_never (Inv : σ → Prop) {P : σ → Prop} {Bad : σ → ε → Prop} (hInv : Inv s)
    (hkeep : ∀ s e, Inv s → Inv (step s e)) (hP : P s)
    (hstep : ∀ s e, Inv s → P s → (P (step s e) ↔ ¬ Bad s e)) :
    Throughout step s events P ↔ Never step s events Bad := by
  have hinv : ∀ past : List ε, Inv (past.foldl step s) := by
    intro past
    induction past using List.reverseRecOn with
    | nil => exact hInv
    | append_singleton past e ih =>
        rw [List.foldl_append]
        exact hkeep _ _ ih
  constructor
  · intro h past e hpre
    have hpast : P (past.foldl step s) := h past ((List.prefix_append past [e]).trans hpre)
    have hnext := h (past ++ [e]) hpre
    rw [List.foldl_append] at hnext
    exact (hstep _ e (hinv past) hpast).mp hnext
  · exact throughout_of_never (fun s => Inv s ∧ P s) ⟨hInv, hP⟩
      (fun s e h hbad => ⟨hkeep s e h.1, (hstep s e h.1 h.2).mpr hbad⟩) (fun _ h => h.2)

end Laws

namespace Broadcast

lemma run_append (C : Codec) (b : Broadcast) (first second : List Event) :
    b.run C (first ++ second) = (b.run C first).run C second :=
  List.foldl_append

/-- What a run makes of a new stream is reachable. -/
lemma reachable_run (C : Codec) {b : Broadcast} (h : Reachable C b) (events : List Event) :
    Reachable C (b.run C events) := by
  induction events using List.reverseRecOn with
  | nil => exact h
  | append_singleton events e ih =>
      rw [run_append]
      exact .step e ih

end Broadcast

end RewindRelay
