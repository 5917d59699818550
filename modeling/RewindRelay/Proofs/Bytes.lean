import Mathlib.Tactic
import RewindRelay.Bytes
/-!
# Bytes read back

* `Bytes.ofUtf8?_utf8`, `Bytes.ofUtf8?_eq_some_iff` — **a text reads back from its bytes.**
* `Bytes.littleEndian_ofLittleEndian` — a field is written as it was read.
* `Bytes.cut_append`, `Bytes.cut_eq_none_iff` — a counted run is cut off the front of an input.
-/

namespace RewindRelay.Bytes

/-! ## Text -/

lemma toList_loop (b : ByteArray) (i : ℕ) (r : List UInt8) :
    ByteArray.toList.loop b i r = r.reverse ++ b.data.toList.drop i := by
  fun_induction ByteArray.toList.loop b i r with
  | case1 i r h ih =>
      have hi : i < b.data.toList.length := h
      have hget : b.get! i = b.data.toList[i] := getElem!_pos b.data i h
      rw [ih, List.drop_eq_getElem_cons hi, List.reverse_cons, List.append_assoc, hget]
      rfl
  | case2 i r h =>
      have hi : b.data.toList.length ≤ i := Nat.le_of_not_lt h
      rw [List.drop_eq_nil_of_le hi, List.append_nil]

lemma utf8_eq (text : String) : utf8 text = text.toByteArray.data.toList := by
  rw [utf8, String.toUTF8_eq_toByteArray, ByteArray.toList, toList_loop]
  rfl

/-- **A text reads back from its bytes.** -/
theorem ofUtf8?_utf8 (text : String) : ofUtf8? (utf8 text) = some text := by
  have hbytes : (⟨(utf8 text).toArray⟩ : ByteArray) = text.toByteArray := by rw [utf8_eq]
  rw [ofUtf8?, hbytes, String.fromUTF8?, dif_pos text.isValidUTF8]
  rfl

/-- The text that bytes read as is the one that they are. -/
lemma ofUtf8?_eq_some_iff {bytes : Bytes} {text : String} :
    ofUtf8? bytes = some text ↔ utf8 text = bytes := by
  refine ⟨fun h => ?_, fun h => h ▸ ofUtf8?_utf8 text⟩
  rw [ofUtf8?, String.fromUTF8?] at h
  split at h
  · cases h
    rw [utf8_eq]
    rfl
  · cases h

/-! ## Fields -/

lemma ofLittleEndian_lt (field : Bytes) : ofLittleEndian field < Nat.pow 256 field.length := by
  induction field with
  | nil => exact Nat.one_pos
  | cons b rest ih =>
      have hb : b.toNat < 256 := b.toNat_lt
      have hpow : Nat.pow 256 (rest.length + 1) = Nat.pow 256 rest.length * 256 := rfl
      simp only [ofLittleEndian, List.length_cons, hpow]
      omega

/-- A field is written as it was read. -/
theorem littleEndian_ofLittleEndian (field : Bytes) :
    littleEndian field.length (ofLittleEndian field) = field := by
  induction field with
  | nil => rfl
  | cons b rest ih =>
      have hb : b.toNat < 256 := b.toNat_lt
      have hlow : UInt8.ofNat (b.toNat + 256 * ofLittleEndian rest) = b := by
        apply UInt8.toNat_inj.mp
        rw [UInt8.toNat_ofNat']
        omega
      have hhigh : (b.toNat + 256 * ofLittleEndian rest) / 256 = ofLittleEndian rest := by omega
      simp only [ofLittleEndian, List.length_cons, littleEndian, hlow, hhigh, ih]

/-! ## Counted runs -/

lemma cut_append {n : ℕ} {front : Bytes} (h : front.length = n) (rest : Bytes) :
    cut n (front ++ rest) = some (front, rest) :=
  cut_eq_some_iff.mpr ⟨rfl, h⟩

lemma cut_eq_none_iff {n : ℕ} {input : Bytes} : cut n input = none ↔ input.length < n := by
  simp only [cut, ite_eq_right_iff, reduceCtorEq, imp_false, reaches_iff, Nat.not_le]

/-- More input changes nothing about what is cut off. -/
lemma cut_append_of_eq_some {n : ℕ} {input front rest : Bytes}
    (h : cut n input = some (front, rest)) (more : Bytes) :
    cut n (input ++ more) = some (front, rest ++ more) := by
  obtain ⟨rfl, hlen⟩ := cut_eq_some_iff.mp h
  rw [List.append_assoc, cut_append hlen]

end RewindRelay.Bytes
