/-!
# Bytes and little-endian fields

Audio payloads, dump frames and HTTP bodies are plain lists of bytes.  A dump carries its lengths
as little-endian fields of one, two or four bytes; this module writes and reads such fields and
cuts a counted run of bytes off the front of an input.

* `littleEndian` — a number as a field of a given width.
* `ofLittleEndian` — the number a field stands for.
* `reaches` — is an input that long?
* `cut` — the first `n` bytes and the rest, or nothing when the input is shorter.
* `utf8` / `ofUtf8?` — text as bytes, and back when the bytes are well formed.
-/

namespace RewindRelay

/-- A run of bytes. -/
abbrev Bytes := List UInt8

namespace Bytes

/-! ## Counted fields -/

/-- The `width` low bytes of `n`, least significant first. -/
def littleEndian : (width n : Nat) → Bytes
  | 0, _ => []
  | width + 1, n => UInt8.ofNat n :: littleEndian width (n / 256)

/-- The number a little-endian field stands for. -/
def ofLittleEndian : Bytes → Nat
  | [] => 0
  | b :: rest => b.toNat + 256 * ofLittleEndian rest

theorem length_littleEndian (width n : Nat) : (littleEndian width n).length = width := by
  induction width generalizing n with
  | zero => rfl
  | succ width ih => simp [littleEndian, ih]

/-- **A field reads back.**  Only the numbers that fit the width do. -/
theorem ofLittleEndian_littleEndian (width n : Nat) (h : n < Nat.pow 256 width) :
    ofLittleEndian (littleEndian width n) = n := by
  induction width generalizing n with
  | zero => simp at h; simp [littleEndian, ofLittleEndian, h]
  | succ width ih =>
    have hdiv : n / 256 < Nat.pow 256 width := (Nat.div_lt_iff_lt_mul (by decide)).mpr h
    simp only [littleEndian, ofLittleEndian, ih _ hdiv, UInt8.toNat_ofNat']
    omega

def reaches : (n : Nat) → Bytes → Bool
  | 0, _ => true
  | _ + 1, [] => false
  | n + 1, _ :: rest => reaches n rest

theorem reaches_iff {n : Nat} {input : Bytes} : reaches n input = true ↔ n ≤ input.length := by
  induction n generalizing input with
  | zero => simp [reaches]
  | succ n ih => cases input <;> simp [reaches, ih]

/-- The first `n` bytes and what follows them; nothing when there are fewer than `n`. -/
def cut (n : Nat) (input : Bytes) : Option (Bytes × Bytes) :=
  if reaches n input then some (input.splitAt n) else none

/-- `cut` succeeds exactly on the inputs that start with `n` bytes, and loses nothing. -/
theorem cut_eq_some_iff {n : Nat} {input front rest : Bytes} :
    cut n input = some (front, rest) ↔ input = front ++ rest ∧ front.length = n := by
  simp only [cut, List.splitAt_eq]
  constructor
  · intro h
    split at h
    · next hlen =>
      simp only [Option.some.injEq, Prod.mk.injEq] at h
      obtain ⟨rfl, rfl⟩ := h
      exact ⟨(List.take_append_drop n input).symm, by simp [reaches_iff.mp hlen]⟩
    · cases h
  · rintro ⟨rfl, rfl⟩
    simp [reaches_iff]

/-! ## Text as bytes -/

def utf8 (text : String) : Bytes := text.toUTF8.toList

/-- The text whose UTF-8 encoding the bytes are, if there is one. -/
def ofUtf8? (bytes : Bytes) : Option String := String.fromUTF8? ⟨bytes.toArray⟩

end Bytes

end RewindRelay
