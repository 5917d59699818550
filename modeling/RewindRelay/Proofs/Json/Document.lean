import RewindRelay.Json.Record
import RewindRelay.Proofs.Json.Number
import RewindRelay.Proofs.Json.Text
/-!
# Documents read back

A document is read in pieces that are put together the way they were written.  For each kind of
value there is one law, and none of them depends on where in a document the value stands.

* `Reads` — what is written as one value is read as another.
* `reads_text`, `reads_number`, `reads_object` — **the laws.**
* `parse_render` — the whole document.
* `Slots.fillAll_cons` — a field, found again by its name.
-/

namespace RewindRelay.Json

open Decimal (Numeral)

/-- The reader holds a value, inside the given frames.  A number may still be open. -/
def Machine.Holds (m : Machine) (v : Value) (frames : List Frame) : Prop :=
  m = ⟨.done v, frames⟩ ∨
    ∃ o : OpenNumber, m = ⟨.number o, frames⟩ ∧ o.part.complete = true ∧ v = .number o.numeral

/-- What is written as `v` is read as `v'`. -/
def Reads (v v' : Value) : Prop :=
  ∀ frames, ∃ m, run ⟨.start, frames⟩ v.render = some m ∧ m.Holds v' frames

/-- A comma or a closing brace ends the value, whether it was open or not. -/
lemma Machine.Holds.step_eq {m : Machine} {v : Value} {frames : List Frame} (h : m.Holds v frames)
    {b : UInt8} (hb : b = ascii ',' ∨ b = ascii '\x7d') : step m b = afterValue v frames b := by
  rcases h with rfl | ⟨o, rfl, hcomplete, rfl⟩
  · rfl
  · have hdigit : digitOf? b = none := by rcases hb with rfl | rfl <;> rfl
    have hext : o.extend b = none := by
      simp only [OpenNumber.extend, hdigit]
      rcases hb with rfl | rfl <;> cases o.part <;> rfl
    simp [step, hext, hcomplete, hdigit]

/-! ## Plain values -/

lemma reads_null : Reads .null .null := by
  intro frames
  have hnull : Value.render .null = [110, 117, 108, 108] := by decide +kernel
  exact ⟨⟨.done .null, frames⟩, by rw [hnull]; rfl, Or.inl rfl⟩

lemma reads_number {n : Numeral} (h : n.Proper) : Reads (.number n) (.number n) := by
  intro frames
  obtain ⟨o, hrun, hcomplete, hvalue⟩ := run_numeralBytes h frames
  exact ⟨⟨.number o, frames⟩, hrun, Or.inr ⟨o, rfl, hcomplete, by rw [hvalue]⟩⟩

/-- A text as it is read. -/
def Value.ofText (text : String) : Value := .text (Text.ofBytes (Bytes.utf8 text))

lemma Value.string?_ofText (text : String) : (ofText text).string? = some text :=
  Text.toString?_ofBytes text

lemma reads_text (text : String) : Reads (.ofString text) (.ofText text) := by
  intro frames
  have hquote : ∀ rest, run ⟨.start, frames⟩ (ascii '"' :: rest) =
      run ⟨.text .value [], frames⟩ rest := fun _ => rfl
  refine ⟨⟨.done (.ofText text), frames⟩, ?_, Or.inl rfl⟩
  have hrun := run_quoted (Bytes.utf8 text) .value frames
  rw [Value.ofString, Value.render, quoted, List.cons_append, hquote, Text.ofString, hrun, endText,
    List.reverse_reverse]
  rfl

/-! ## Objects -/

/-- What is written as one field is read as another. -/
structure FieldReads (a a' : Text × Value) : Prop where
  key : ∃ name, a.1 = Text.ofString name ∧ a'.1 = Text.ofBytes (Bytes.utf8 name)
  value : Reads a.2 a'.2

def fieldRead (name : String) (v : Value) : Text × Value := (Text.ofBytes (Bytes.utf8 name), v)

lemma fieldReads {v v' : Value} (name : String) (h : Reads v v') :
    FieldReads (Value.field name v) (fieldRead name v') :=
  ⟨⟨name, rfl, rfl⟩, h⟩

lemma fieldReads_optional {α : Type} (name : String) {f g : α → Value} {o : Option α}
    (h : ∀ a, o = some a → Reads (f a) (g a)) :
    List.Forall₂ FieldReads (Value.optionalField name f o)
      (o.toList.map fun a => fieldRead name (g a)) := by
  cases o with
  | none => exact .nil
  | some a => exact .cons (fieldReads name (h a rfl)) .nil

variable {a a' : Text × Value} {fields fields' : List (Text × Value)}

/-- A field is taken in, up to the byte after its value. -/
lemma run_field (h : FieldReads a a') (read : Fields) (frames : List Frame) :
    ∃ m, run ⟨.nextKey read, frames⟩ (quoted a.1 ++ ascii ':' :: a.2.render) = some m ∧
      m.Holds a'.2 (.object read a'.1 :: frames) := by
  obtain ⟨⟨name, hkey, hkey'⟩, hvalue⟩ := h
  obtain ⟨m, hrun, hm⟩ := hvalue (.object read a'.1 :: frames)
  refine ⟨m, ?_, hm⟩
  have hquote : ∀ rest, run ⟨.nextKey read, frames⟩ (ascii '"' :: rest) =
      run ⟨.text (.key read) [], frames⟩ rest := fun _ => rfl
  have hcolon : ∀ key rest, run ⟨.colon read key, frames⟩ (ascii ':' :: rest) =
      run ⟨.start, .object read key :: frames⟩ rest := fun _ _ => rfl
  have hname := run_quoted (Bytes.utf8 name) (.key read) frames
  rw [hkey, quoted, List.cons_append, List.cons_append, hquote, run_append, Text.ofString, hname,
    Option.bind_some, endText, List.reverse_reverse, hcolon, ← hkey']
  exact hrun

/-- The fields of an object are taken in, when one is due. -/
lemma run_renderFields (h : List.Forall₂ FieldReads fields fields') (hne : fields ≠ [])
    (read : Fields) (frames : List Frame) :
    run ⟨.nextKey read, frames⟩ (renderFields fields) =
      some ⟨.done (.object (read.reverse ++ fields')), frames⟩ := by
  induction h generalizing read with
  | nil => exact absurd rfl hne
  | @cons a a' rest rest' ha hrest ih =>
      obtain ⟨m, hrun, hm⟩ := run_field ha read frames
      cases hrest with
      | nil =>
          have hend : renderFields [a] =
              (quoted a.1 ++ ascii ':' :: a.2.render) ++ [ascii '\x7d'] := by
            simp [renderFields]
          rw [hend, run_append, hrun, Option.bind_some, run, hm.step_eq (Or.inr rfl)]
          simp [afterValue, isBlank, ascii, run]
      | @cons b b' tail tail' hb htail =>
          have hmore : renderFields (a :: b :: tail) =
              (quoted a.1 ++ ascii ':' :: a.2.render) ++ ascii ',' :: renderFields (b :: tail) := by
            simp [renderFields]
          have hnext : afterValue a'.2 (.object read a'.1 :: frames) (ascii ',') =
              some ⟨.nextKey (a' :: read), frames⟩ := rfl
          rw [hmore, run_append, hrun, Option.bind_some, run, hm.step_eq (Or.inl rfl), hnext]
          simp only
          rw [ih (by simp)]
          simp

/-- **An object is read field by field.** -/
theorem reads_object (h : List.Forall₂ FieldReads fields fields') :
    Reads (.object fields) (.object fields') := by
  intro frames
  refine ⟨⟨.done (.object fields'), frames⟩, ?_, Or.inl rfl⟩
  have hbrace : ∀ rest, run ⟨.start, frames⟩ (ascii '\x7b' :: rest) =
      run ⟨.firstKey, frames⟩ rest := fun _ => rfl
  rw [Value.render, hbrace]
  cases h with
  | nil => rfl
  | @cons a a' rest rest' ha hrest =>
      -- the first key is read like any other
      have hfirst : ∀ tail, run ⟨.firstKey, frames⟩ (ascii '"' :: tail) =
          run ⟨.nextKey [], frames⟩ (ascii '"' :: tail) := fun _ => rfl
      have hquote : ∃ tail, renderFields (a :: rest) = ascii '"' :: tail := by
        cases rest <;> exact ⟨_, rfl⟩
      obtain ⟨tail, htail⟩ := hquote
      rw [htail, hfirst, ← htail]
      exact run_renderFields (.cons ha hrest) (by simp) [] frames

/-- **A document reads back.** -/
theorem parse_render {v v' : Value} (h : Reads v v') : parse v.render = some v' := by
  obtain ⟨m, hrun, hm⟩ := h []
  rw [parse, Machine.initial, hrun, Option.bind_some]
  rcases hm with rfl | ⟨o, rfl, hcomplete, rfl⟩
  · rfl
  · simp [Machine.result?, hcomplete]

/-! ## Finding fields again -/

@[simp] lemma Slots.fillAll_nil (slots : Slots) : slots.fillAll [] = some slots := rfl

@[simp] lemma Slots.fillAll_cons (slots : Slots) (name : String) (v : Value)
    (rest : List (Text × Value)) :
    slots.fillAll (fieldRead name v :: rest) =
      (Slots.fill name v slots).bind fun slots' => slots'.fillAll rest := by
  rw [fieldRead, Slots.fillAll, Text.toString?_ofBytes, Option.bind_some]
  cases Slots.fill name v slots <;> rfl

end RewindRelay.Json
