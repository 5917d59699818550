import RewindRelay.Registry
import RewindRelay.Proofs.Stream.Ended
/-!
# One stream for each name

A call that wants the stream of a name looks the name up, and if it finds nothing it looks again and
creates the stream.  Each look is one atomic step, but between the two anybody may create the
stream, remove it, or shut the registry down.  A second stream under one name would part a source
from its listeners, and a stream that is neither registered nor destroyed would keep its listeners
waiting for ever.

* `Registry.Sound` — a stream is registered under its own name, or it is destroyed.
* `Stream.Usage` — what whoever holds a stream can do with it.
* `Lobby`, `Lobby.step` — a registry, and the calls between their two steps.
* `Lobby.sound_step` — **every step keeps the registry sound.**
* `Lobby.held_run` — a stream that a call was given is registered until its name is freed, and
  destroyed from then on.
* `Lobby.orderly_run` — **no stream is split and none is leaked**, in every interleaving.
-/

namespace RewindRelay

namespace Stream

/-! ## Using a stream -/

lemma name_destroy (s : Stream) : s.destroy.name = s.name := by
  unfold destroy
  split <;> rfl

lemma name_updateVitals (s : Stream) (v : Vitals) : (s.updateVitals v).2.name = s.name := by
  rw [updateVitals_frame]

lemma name_act (s : Stream) (id : ListenerId) (a : ListenerAction) :
    (s.act id a).name = s.name := by
  rw [act_frame]

lemma name_apply (s : Stream) (op : Operation) : (op.apply s).name = s.name := by
  cases op with
  | push c =>
      rcases s.push_cases c with ⟨-, heq⟩ | ⟨-, -, heq⟩ | ⟨-, -, heq⟩ <;> rw [Operation.apply, heq]
      rfl
  | updateVitals v => exact s.name_updateVitals v
  | destroy => exact s.name_destroy
  | serve id a => exact s.name_act id a
  | drop id => exact s.name_act id .leave
  | _ => rfl

lemma name_stepPreload (C : Codec) (s : Stream) (p : Preload) (a : PreloadAction) :
    (s.stepPreload C p a).2.name = s.name := by
  have hspec := stepPreload_spec C s p a
  generalize s.stepPreload C p a = result at hspec ⊢
  cases hspec with
  | header h loader decoded usable => exact s.name_updateVitals h.vitals
  | _ => rfl

/-- What whoever holds a stream does with it.  Only the registry destroys streams. -/
inductive Usage
  | operate (op : Operation) (keeps : op ≠ .destroy)
  /-- A preload starts. -/
  | start
  /-- A preload takes a step. -/
  | preload (C : Codec) (p : Preload) (a : PreloadAction)

def Usage.run (s : Stream) : Usage → Stream
  | .operate op _ => op.apply s
  | .start => s.beginPreload
  | .preload C p a => (s.stepPreload C p a).2

lemma Usage.name_run (s : Stream) (u : Usage) : (u.run s).name = s.name := by
  cases u with
  | operate op keeps => exact s.name_apply op
  | start => rfl
  | preload C p a => exact s.name_stepPreload C p a

lemma Usage.destroyed_run (s : Stream) (u : Usage) : (u.run s).destroyed = s.destroyed := by
  cases u with
  | operate op keeps =>
      rw [run, destroyed_apply]
      split
      · exact absurd rfl keeps
      · rfl
  | start => rfl
  | preload C p a => exact s.destroyed_stepPreload C p a

lemma destroy_destroy (s : Stream) : s.destroy.destroy = s.destroy :=
  if_pos s.destroyed_destroy

end Stream

/-! ## The registry -/

namespace Registry

variable {r : Registry} {name : String} {id : StreamId} {s : Stream}

/-- A stream is registered under its own name, or it is destroyed. -/
structure Sound (r : Registry) : Prop where
  nodup : (r.names.map Prod.fst).Nodup
  registered : ∀ name id, (name, id) ∈ r.names →
    ∃ s, r.stream? id = some s ∧ s.name = name ∧ s.destroyed = false
  kept : ∀ id s, r.stream? id = some s → s.destroyed = false → (s.name, id) ∈ r.names

/-- The stream is still there, and destroyed. -/
def IsOver (r : Registry) (name : String) (id : StreamId) : Prop :=
  ∃ s, r.stream? id = some s ∧ s.name = name ∧ s.destroyed = true

lemma mem_names_of_find? (h : r.find? name = some id) : (name, id) ∈ r.names := by
  obtain ⟨before, after, hnames, -⟩ := List.lookup_eq_some_iff.mp h
  rw [hnames]
  exact List.mem_append_right _ List.mem_cons_self

/-- A name is given to one stream. -/
lemma find?_eq_some_iff (h : (r.names.map Prod.fst).Nodup) :
    r.find? name = some id ↔ (name, id) ∈ r.names := by
  refine ⟨mem_names_of_find?, fun hmem => ?_⟩
  cases hfound : r.find? name with
  | none =>
      have hnone := List.lookup_eq_none_iff.mp hfound (name, id) hmem
      simp at hnone
  | some k =>
      have heq := List.inj_on_of_nodup_map h (mem_names_of_find? hfound) hmem rfl
      exact congrArg some (Prod.ext_iff.mp heq).2

lemma stream?_modify (r : Registry) (f : Stream → Stream) (k id : StreamId) :
    stream? { r with streams := r.streams.modify k f } id =
      (r.stream? id).map fun s => if k = id then f s else s := by
  rw [stream?, List.getElem?_modify]
  rfl

/-- Streams are destroyed one after the other; once is as good as twice. -/
lemma stream?_destroyAll (entries : List (String × StreamId)) (r : Registry) (id : StreamId) :
    (entries.foldl (fun r entry => r.destroy entry.2) r).stream? id =
      (r.stream? id).map fun s => if id ∈ entries.map Prod.snd then s.destroy else s := by
  induction entries generalizing r with
  | nil => simp
  | cons entry rest ih =>
      rw [List.foldl_cons, ih, destroy, stream?_modify, Option.map_map, List.map_cons]
      congr 1
      funext s
      by_cases hid : entry.2 = id
      · simp [hid, Stream.destroy_destroy]
      · have hrest : id ∈ entry.2 :: rest.map Prod.snd ↔ id ∈ rest.map Prod.snd := by
          rw [List.mem_cons, or_iff_right (Ne.symm hid)]
        rw [Function.comp_apply, if_neg hid]
        exact (if_congr hrest rfl rfl).symm

/-! ## Steps of the registry -/

/-- Streams change in place, and a name is given up exactly when its stream is destroyed. -/
structure Trims (r : Registry) (change : StreamId → Stream → Stream) (r' : Registry) : Prop where
  streams : ∀ id, r'.stream? id = (r.stream? id).map (change id)
  name : ∀ id s, (change id s).name = s.name
  stays : ∀ id s, s.destroyed = true → (change id s).destroyed = true
  names : r'.names.Sublist r.names
  ends : ∀ id s, r.stream? id = some s → (s.name, id) ∈ r.names →
    ((change id s).destroyed = false ↔ (s.name, id) ∈ r'.names)

namespace Trims

variable {change : StreamId → Stream → Stream} {r' : Registry}

/-- No stream goes away, and none comes back. -/
lemma exists_stream? (h : r.Trims change r') (hs : r.stream? id = some s) :
    ∃ s', r'.stream? id = some s' ∧ s'.name = s.name ∧
      (s.destroyed = true → s'.destroyed = true) :=
  ⟨change id s, by rw [h.streams, hs, Option.map_some], h.name id s, h.stays id s⟩

lemma sound (h : r.Trims change r') (hr : r.Sound) : r'.Sound where
  nodup := hr.nodup.sublist (h.names.map Prod.fst)
  registered := by
    intro name id hmem
    obtain ⟨s, hs, rfl, -⟩ := hr.registered name id (h.names.subset hmem)
    refine ⟨change id s, by rw [h.streams, hs, Option.map_some], h.name id s, ?_⟩
    exact (h.ends id s hs (h.names.subset hmem)).mpr hmem
  kept := by
    intro id s' hs' halive
    rw [h.streams] at hs'
    obtain ⟨s, hs, rfl⟩ := Option.map_eq_some_iff.mp hs'
    have hold : s.destroyed = false := by
      by_contra hdestroyed
      rw [h.stays id s (Bool.not_eq_false _ ▸ hdestroyed)] at halive
      cases halive
    rw [h.name]
    exact (h.ends id s hs (hr.kept id s hs hold)).mp halive

/-- Whoever is not registered any more is destroyed. -/
lemma isOver (h : r.Trims change r') (hr : r.Sound) (hmem : (name, id) ∈ r.names)
    (hgone : (name, id) ∉ r'.names) : r'.IsOver name id := by
  obtain ⟨s, hs, rfl, -⟩ := hr.registered name id hmem
  refine ⟨change id s, by rw [h.streams, hs, Option.map_some], h.name id s, ?_⟩
  by_contra halive
  exact hgone ((h.ends id s hs hmem).mp (Bool.not_eq_true _ ▸ halive))

end Trims

/-- Whoever is registered under a name is known by it, and is not destroyed. -/
lemma Sound.alive_of_mem (h : r.Sound) (hs : r.stream? id = some s) (hmem : (name, id) ∈ r.names) :
    s.name = name ∧ s.destroyed = false := by
  obtain ⟨s', hs', hname, halive⟩ := h.registered name id hmem
  cases hs.symm.trans hs'
  exact ⟨hname, halive⟩

lemma trims_self (h : r.Sound) : r.Trims (fun _ s => s) r where
  streams id := by rw [Option.map_id']
  name _ _ := rfl
  stays _ _ hs := hs
  names := List.Sublist.refl _
  ends id s hs hmem := iff_of_true (h.alive_of_mem hs hmem).2 hmem

lemma trims_remove (h : r.Sound) (name : String) :
    ∃ change, r.Trims change (r.remove name).2 := by
  cases hfound : r.find? name with
  | none =>
      have hsame : (r.remove name).2 = r := by simp only [remove, hfound]
      rw [hsame]
      exact ⟨_, trims_self h⟩
  | some k =>
      have hk := mem_names_of_find? hfound
      refine ⟨fun id s => if k = id then s.destroy else s, ?_⟩
      rw [remove]
      simp only [hfound]
      exact
        { streams := r.stream?_modify Stream.destroy k
          name := fun id s => by split <;> simp [Stream.name_destroy]
          stays := fun id s hs => by split <;> simp [Stream.destroyed_destroy, hs]
          names := List.filter_sublist
          ends := fun id s hs hmem => by
            obtain ⟨-, halive⟩ := h.alive_of_mem hs hmem
            by_cases hid : k = id
            · subst hid
              obtain ⟨rfl, -⟩ := h.alive_of_mem hs hk
              simp [Stream.destroyed_destroy]
            · have hname : s.name ≠ name := fun heq => by
                rw [heq, ← find?_eq_some_iff h.nodup, hfound] at hmem
                exact hid (Option.some.inj hmem)
              simp [hid, halive, hmem, hname] }

lemma trims_shutdown (r : Registry) : ∃ change, r.Trims change r.shutdown := by
  refine ⟨fun id s => if id ∈ r.names.map Prod.snd then s.destroy else s, ?_⟩
  exact
    { streams := stream?_destroyAll r.names r
      name := fun id s => by split <;> simp [Stream.name_destroy]
      stays := fun id s hs => by split <;> simp [Stream.destroyed_destroy, hs]
      names := List.nil_sublist _
      ends := fun id s hs hmem => by
        have hsnd : id ∈ r.names.map Prod.snd := List.mem_map_of_mem hmem
        rw [if_pos hsnd, Stream.destroyed_destroy]
        exact iff_of_false nofun List.not_mem_nil }

lemma trims_use (h : r.Sound) (k : StreamId) (u : Stream.Usage) :
    ∃ change, r.Trims change { r with streams := r.streams.modify k fun s => u.run s } := by
  refine ⟨fun id s => if k = id then u.run s else s, ?_⟩
  exact
    { streams := r.stream?_modify (fun s => u.run s) k
      name := fun id s => by split <;> simp [u.name_run]
      stays := fun id s hs => by split <;> simp [u.destroyed_run, hs]
      names := List.Sublist.refl _
      ends := fun id s hs hmem => by
        obtain ⟨-, halive⟩ := h.alive_of_mem hs hmem
        refine iff_of_true ?_ hmem
        split
        · rw [u.destroyed_run, halive]
        · exact halive }

/-- A stream whose name is in use is found; else one is created. -/
lemma obtain_cases (r : Registry) (name : String) :
    (∃ id, r.find? name = some id ∧ r.obtain name = (id, r)) ∨
      r.find? name = none ∧ r.obtain name = (r.streams.length,
        { r with
          streams := r.streams ++ [.new name r.window.bufferSeconds r.window.readSize]
          names := r.names ++ [(name, r.streams.length)] }) := by
  cases hfound : r.find? name with
  | none => exact Or.inr ⟨rfl, by simp only [obtain, hfound]⟩
  | some id => exact Or.inl ⟨id, rfl, by simp only [obtain, hfound]⟩

/-- Streams that are there stay as they are when one is created. -/
lemma stream?_obtain (hs : r.stream? id = some s) (name : String) :
    (r.obtain name).2.stream? id = some s := by
  rcases r.obtain_cases name with ⟨k, -, heq⟩ | ⟨-, heq⟩ <;> rw [heq]
  · exact hs
  · have hlt : id < r.streams.length := (List.getElem?_eq_some_iff.mp hs).1
    rw [stream?, List.getElem?_append_left hlt]
    exact hs

/-- What is given is registered from then on. -/
lemma mem_names_obtain (r : Registry) (name : String) :
    (name, (r.obtain name).1) ∈ (r.obtain name).2.names := by
  rcases r.obtain_cases name with ⟨k, hfound, heq⟩ | ⟨-, heq⟩ <;> rw [heq]
  · exact mem_names_of_find? hfound
  · exact List.mem_append_right _ List.mem_cons_self

lemma names_obtain_subset (r : Registry) (name : String) :
    r.names ⊆ (r.obtain name).2.names := by
  rcases r.obtain_cases name with ⟨k, -, heq⟩ | ⟨-, heq⟩ <;> rw [heq]
  · exact List.Subset.refl _
  · exact List.subset_append_left _ _

/-- Names are listed in order, and none twice. -/
lemma sorted_all (r : Registry) (h : (r.names.map Prod.fst).Nodup) :
    (r.all.map Prod.fst).Pairwise (· < ·) := by
  have hle : r.all.Pairwise fun a b => nameLe a b = true := by
    refine List.pairwise_mergeSort (fun a b c hab hbc => ?_) (fun a b => ?_) _
    · simp only [nameLe, decide_eq_true_eq] at hab hbc ⊢
      exact String.le_trans hab hbc
    · simpa only [nameLe, Bool.or_eq_true, decide_eq_true_eq] using String.le_total a.1 b.1
  have hnodup : (r.all.map Prod.fst).Nodup :=
    ((List.mergeSort_perm r.names nameLe).map Prod.fst).nodup_iff.mpr h
  rw [List.pairwise_map]
  refine (hle.and (List.pairwise_map.mp hnodup)).imp fun {a b} hab => ?_
  by_contra hnot
  exact hab.2 (String.le_antisymm (of_decide_eq_true hab.1) (String.not_lt.mp hnot))

lemma Sound.of_new (window : WindowSettings) : Sound { window } where
  nodup := List.nodup_nil
  registered := nofun
  kept := nofun

lemma Sound.obtain (h : r.Sound) (name : String) : (r.obtain name).2.Sound := by
  have hstays : ∀ {id s}, r.stream? id = some s → (r.obtain name).2.stream? id = some s :=
    fun hs => stream?_obtain hs name
  rcases r.obtain_cases name with ⟨id, -, heq⟩ | ⟨hnone, heq⟩ <;> rw [heq] at hstays ⊢
  · exact h
  · have hfresh : ∀ entry ∈ r.names, name ≠ entry.1 := fun entry hentry => by
      simpa using List.lookup_eq_none_iff.mp hnone entry hentry
    have hnew : stream? { r with
        streams := r.streams ++ [.new name r.window.bufferSeconds r.window.readSize]
        names := r.names ++ [(name, r.streams.length)] } r.streams.length =
          some (.new name r.window.bufferSeconds r.window.readSize) :=
      List.getElem?_concat_length
    refine
      { nodup := ?_
        registered := fun n id hmem => ?_
        kept := fun id s hs halive => ?_ }
    · rw [List.map_append, List.map_singleton]
      refine List.nodup_append.mpr ⟨h.nodup, List.nodup_singleton _, fun n hn => ?_⟩
      obtain ⟨entry, hentry, rfl⟩ := List.mem_map.mp hn
      simpa using Ne.symm (hfresh entry hentry)
    · rcases List.mem_append.mp hmem with hmem | hmem
      · obtain ⟨s, hs, hs'⟩ := h.registered n id hmem
        exact ⟨s, hstays hs, hs'⟩
      · cases List.mem_singleton.mp hmem
        exact ⟨_, hnew, rfl, rfl⟩
    · rcases Nat.lt_or_ge id r.streams.length with hlt | hge
      · have hold : r.stream? id = some s := by
          rwa [stream?, List.getElem?_append_left hlt] at hs
        exact List.mem_append_left _ (h.kept id s hold halive)
      · -- the only one that was not there is the new one
        have hlast : id = r.streams.length := by
          obtain ⟨hlt, -⟩ := List.getElem?_eq_some_iff.mp hs
          simp only [List.length_append, List.length_singleton] at hlt
          exact Nat.le_antisymm (Nat.le_of_lt_succ hlt) hge
        subst hlast
        cases hs.symm.trans hnew
        exact List.mem_append_right _ List.mem_cons_self

lemma names_remove (r : Registry) (name : String) :
    (r.remove name).2.names = r.names.filter fun entry => entry.1 != name := by
  cases hfound : r.find? name with
  | some id => simp only [remove, hfound]
  | none =>
      have hnone := List.lookup_eq_none_iff.mp hfound
      simp only [remove, hfound]
      refine (List.filter_eq_self.mpr fun entry hentry => ?_).symm
      rw [bne_comm]
      exact hnone entry hentry

end Registry

/-! ## Calls between their two steps -/

/-- A registry, and the calls that have looked a name up in vain and have not looked again. -/
structure Lobby where
  registry : Registry
  /-- The names that these calls want, one for each call. -/
  waiting : List String := []

namespace Lobby

/-- One atomic step.  A call of `getOrCreate` takes two of them, unless the first one finds the
stream. -/
inductive Event
  | lookUp (name : String)
  /-- A call that has found nothing looks again. -/
  | settle (name : String)
  | get (name : String)
  | remove (name : String)
  | shutdown
  /-- Somebody uses a stream that some call was given. -/
  | use (id : StreamId) (u : Stream.Usage)

def new (window : WindowSettings) : Lobby := { registry := { window } }

def step (l : Lobby) : Event → Lobby
  | .lookUp name =>
    match l.registry.find? name with
    | some _ => l
    | none => { l with waiting := name :: l.waiting }
  | .settle name =>
    if name ∈ l.waiting then
      { registry := (l.registry.obtain name).2, waiting := l.waiting.erase name }
    else l
  | .get _ => l
  | .remove name => { l with registry := (l.registry.remove name).2 }
  | .shutdown => { l with registry := l.registry.shutdown }
  | .use id u =>
    { l with registry :=
        { l.registry with streams := l.registry.streams.modify id fun s => u.run s } }

/-- The stream that a call is given by a step, if it is given one. -/
def gives? (l : Lobby) : Event → Option (String × StreamId)
  | .lookUp name | .get name => (l.registry.find? name).map fun id => (name, id)
  | .settle name => if name ∈ l.waiting then some (name, (l.registry.obtain name).1) else none
  | _ => none

def run (l : Lobby) (events : List Event) : Lobby := events.foldl step l

/-- Does this free the name, if it is in use? -/
def Event.frees (name : String) : Event → Bool
  | .remove other => other == name
  | .shutdown => true
  | _ => false

variable {l : Lobby} {event : Event} {name : String} {id id' : StreamId}

@[simp] lemma registry_lookUp (l : Lobby) (name : String) :
    (l.step (.lookUp name)).registry = l.registry := by
  simp only [step]
  split <;> rfl

@[simp] lemma registry_get (l : Lobby) (name : String) :
    (l.step (.get name)).registry = l.registry := rfl

/-- **All that a step does to the registry**: a stream is created if its name is free, or streams
change in place. -/
lemma step_cases (h : l.registry.Sound) (event : Event) :
    (∃ name, (l.step event).registry = (l.registry.obtain name).2) ∨
      ∃ change, l.registry.Trims change (l.step event).registry := by
  have hself := Registry.trims_self h
  cases event with
  | lookUp name =>
      rw [registry_lookUp]
      exact Or.inr ⟨_, hself⟩
  | settle name =>
      simp only [step]
      split
      · exact Or.inl ⟨name, rfl⟩
      · exact Or.inr ⟨_, hself⟩
  | get name => exact Or.inr ⟨_, hself⟩
  | remove name => exact Or.inr (Registry.trims_remove h name)
  | shutdown => exact Or.inr l.registry.trims_shutdown
  | use id u => exact Or.inr (Registry.trims_use h id u)

/-- **Every step keeps the registry sound.** -/
theorem sound_step (h : l.registry.Sound) (event : Event) : (l.step event).registry.Sound := by
  rcases step_cases h event with ⟨name, heq⟩ | ⟨change, htrims⟩
  · rw [heq]
    exact h.obtain name
  · exact htrims.sound h

lemma sound_run (h : l.registry.Sound) (events : List Event) : (l.run events).registry.Sound := by
  induction events generalizing l with
  | nil => exact h
  | cons event rest ih => exact ih (sound_step h event)

/-- Whatever happens, a stream that is destroyed stays so. -/
lemma isOver_step (h : l.registry.Sound) (hover : l.registry.IsOver name id) (event : Event) :
    (l.step event).registry.IsOver name id := by
  obtain ⟨s, hs, rfl, hdestroyed⟩ := hover
  rcases step_cases h event with ⟨other, heq⟩ | ⟨change, htrims⟩
  · rw [heq]
    exact ⟨s, Registry.stream?_obtain hs other, rfl, hdestroyed⟩
  · obtain ⟨s', hs', hname, hstays⟩ := htrims.exists_stream? hs
    exact ⟨s', hs', hname, hstays hdestroyed⟩

lemma isOver_run (h : l.registry.Sound) (hover : l.registry.IsOver name id) (events : List Event) :
    (l.run events).registry.IsOver name id := by
  induction events generalizing l with
  | nil => exact hover
  | cons event rest ih => exact ih (sound_step h event) (isOver_step h hover event)

/-- A name is given up where it is freed. -/
lemma mem_names_step_iff (hmem : (name, id) ∈ l.registry.names) (event : Event) :
    (name, id) ∈ (l.step event).registry.names ↔ event.frees name = false := by
  cases event with
  | lookUp other =>
      rw [registry_lookUp]
      exact iff_of_true hmem rfl
  | settle other =>
      refine iff_of_true ?_ rfl
      simp only [step]
      split
      · exact l.registry.names_obtain_subset other hmem
      · exact hmem
  | get other => exact iff_of_true hmem rfl
  | remove other =>
      rw [step, Registry.names_remove, List.mem_filter, Event.frees, bne_comm]
      simp [hmem]
  | shutdown => exact iff_of_false List.not_mem_nil nofun
  | use k u => exact iff_of_true hmem rfl

/-- A stream whose name is freed is destroyed. -/
lemma isOver_of_frees (h : l.registry.Sound) (hmem : (name, id) ∈ l.registry.names)
    (hfrees : event.frees name = true) : (l.step event).registry.IsOver name id := by
  have hgone : (name, id) ∉ (l.step event).registry.names := by
    rw [mem_names_step_iff hmem, hfrees]
    exact nofun
  rcases step_cases h event with ⟨other, heq⟩ | ⟨change, htrims⟩
  · rw [heq] at hgone
    exact absurd (l.registry.names_obtain_subset other hmem) hgone
  · exact htrims.isOver h hmem hgone

/-- **A stream that a call was given** is registered until its name is freed, and destroyed from
then on. -/
theorem held_run (h : l.registry.Sound) (hmem : (name, id) ∈ l.registry.names)
    (events : List Event) :
    (∀ event ∈ events, event.frees name = false) ∧ (name, id) ∈ (l.run events).registry.names ∨
      (∃ event ∈ events, event.frees name = true) ∧ (l.run events).registry.IsOver name id := by
  induction events generalizing l with
  | nil => exact Or.inl ⟨nofun, hmem⟩
  | cons event rest ih =>
      have hnext := sound_step h event
      cases hfrees : event.frees name with
      | false =>
          rcases ih hnext ((mem_names_step_iff hmem event).mpr hfrees) with
            ⟨hnone, hstays⟩ | ⟨⟨other, hother, hfreed⟩, hover⟩
          · exact Or.inl ⟨List.forall_mem_cons.mpr ⟨hfrees, hnone⟩, hstays⟩
          · exact Or.inr ⟨⟨other, List.mem_cons_of_mem _ hother, hfreed⟩, hover⟩
      | true =>
          refine Or.inr ⟨⟨event, List.mem_cons_self, hfrees⟩, isOver_run hnext ?_ rest⟩
          exact isOver_of_frees h hmem hfrees

/-! ## What a call is given -/

/-- What a call is given is registered from then on. -/
lemma mem_names_of_gives (hgives : l.gives? event = some (name, id)) :
    (name, id) ∈ (l.step event).registry.names := by
  cases event with
  | lookUp other | get other =>
      obtain ⟨k, hk, heq⟩ := Option.map_eq_some_iff.mp hgives
      cases heq
      simpa using Registry.mem_names_of_find? hk
  | settle other =>
      simp only [gives?] at hgives
      split_ifs at hgives with hwaits
      cases hgives
      rw [step, if_pos hwaits]
      exact l.registry.mem_names_obtain name
  | remove _ | shutdown | use _ _ => cases hgives

/-- A call is given the stream that is registered. -/
lemma eq_of_gives (h : l.registry.Sound) (hmem : (name, id) ∈ l.registry.names)
    (hgives : l.gives? event = some (name, id')) : id' = id := by
  have hfound := (Registry.find?_eq_some_iff h.nodup).mpr hmem
  cases event with
  | lookUp other | get other =>
      obtain ⟨k, hk, heq⟩ := Option.map_eq_some_iff.mp hgives
      cases heq
      exact Option.some.inj (hk.symm.trans hfound)
  | settle other =>
      simp only [gives?] at hgives
      split_ifs at hgives
      cases hgives
      rw [Registry.obtain, hfound]
  | remove _ | shutdown | use _ _ => cases hgives

/-! ## Every interleaving -/

/-- A registry that splits no stream and leaks none. -/
structure Orderly (l : Lobby) : Prop where
  /-- Each stream that was ever created is the one that is registered under its name, or it is
  destroyed. -/
  kept : ∀ id s, l.registry.stream? id = some s →
    (s.destroyed = false ↔ l.registry.find? s.name = some id)
  /-- Whatever a call is given next is there, has the right name, and is not destroyed. -/
  given : ∀ event name id, l.gives? event = some (name, id) →
    ∃ s, (l.step event).registry.stream? id = some s ∧ s.name = name ∧ s.destroyed = false
  /-- Two calls for one name are given the same stream if the name is not freed in between.  If it
  is, the older stream is destroyed. -/
  same : ∀ first name id, l.gives? first = some (name, id) → ∀ middle second id',
    ((l.step first).run middle).gives? second = some (name, id') →
      (id' = id ↔ ∀ event ∈ middle, event.frees name = false) ∧
      ((∃ event ∈ middle, event.frees name = true) →
        ((l.step first).run middle).registry.IsOver name id)
  /-- A call that nobody comes between is `Registry.getOrCreate`. -/
  whole : ∀ name, ((l.step (.lookUp name)).step (.settle name)).registry =
      (l.registry.getOrCreate name).2 ∧
    (l.gives? (.lookUp name)).or ((l.step (.lookUp name)).gives? (.settle name)) =
      some (name, (l.registry.getOrCreate name).1)
  /-- Every registered name is listed, once and in order. -/
  sorted : (l.registry.all.map Prod.fst).Pairwise (· < ·)
  listed : ∀ name id, (name, id) ∈ l.registry.all ↔ l.registry.find? name = some id

lemma exists_of_gives (h : l.registry.Sound) (hgives : l.gives? event = some (name, id)) :
    ∃ s, (l.step event).registry.stream? id = some s ∧ s.name = name ∧ s.destroyed = false :=
  (sound_step h event).registered name id (mem_names_of_gives hgives)

lemma same_of_sound (h : l.registry.Sound) {first second : Event} {middle : List Event}
    (hfirst : l.gives? first = some (name, id))
    (hsecond : ((l.step first).run middle).gives? second = some (name, id')) :
    (id' = id ↔ ∀ event ∈ middle, event.frees name = false) ∧
      ((∃ event ∈ middle, event.frees name = true) →
        ((l.step first).run middle).registry.IsOver name id) := by
  have hheld := held_run (sound_step h first) (mem_names_of_gives hfirst) middle
  have hsound := sound_run (sound_step h first) middle
  generalize (l.step first).run middle = l' at hsecond hheld hsound ⊢
  rcases hheld with ⟨hnone, hmem⟩ | ⟨⟨event, hevent, hfrees⟩, hover⟩
  · refine ⟨iff_of_true (eq_of_gives hsound hmem hsecond) hnone, ?_⟩
    rintro ⟨event, hevent, hfrees⟩
    rw [hnone event hevent] at hfrees
    cases hfrees
  · refine ⟨iff_of_false ?_ fun hnone => ?_, fun _ => hover⟩
    · -- what is given is not destroyed
      rintro rfl
      obtain ⟨s, hs, -, halive⟩ := exists_of_gives hsound hsecond
      obtain ⟨s', hs', -, hdestroyed⟩ := isOver_step hsound hover second
      cases hs.symm.trans hs'
      rw [halive] at hdestroyed
      cases hdestroyed
    · rw [hnone event hevent] at hfrees
      cases hfrees

/-- The two steps of a call that nobody comes between. -/
lemma settle_lookUp (l : Lobby) (name : String) :
    ((l.step (.lookUp name)).step (.settle name)).registry = (l.registry.getOrCreate name).2 ∧
      (l.gives? (.lookUp name)).or ((l.step (.lookUp name)).gives? (.settle name)) =
        some (name, (l.registry.getOrCreate name).1) := by
  cases hfound : l.registry.find? name with
  | some id =>
      simp only [step, gives?, hfound, Registry.getOrCreate, Registry.obtain]
      refine ⟨?_, rfl⟩
      split <;> rfl
  | none =>
      simp [step, gives?, hfound, Registry.getOrCreate]

lemma orderly_of_sound (h : l.registry.Sound) : l.Orderly where
  kept := by
    intro id s hs
    rw [Registry.find?_eq_some_iff h.nodup]
    exact ⟨h.kept id s hs, fun hmem => (h.alive_of_mem hs hmem).2⟩
  given := fun event name id hgives => exists_of_gives h hgives
  same := fun first name id hfirst middle second id' hsecond => same_of_sound h hfirst hsecond
  whole := l.settle_lookUp
  sorted := l.registry.sorted_all h.nodup
  listed := by
    intro name id
    rw [Registry.find?_eq_some_iff h.nodup, Registry.all, List.mem_mergeSort]

/-- **No stream is split and none is leaked**, in every interleaving of calls. -/
theorem orderly_run (window : WindowSettings) (events : List Event) :
    ((new window).run events).Orderly :=
  orderly_of_sound (sound_run (.of_new window) events)

end Lobby

end RewindRelay
