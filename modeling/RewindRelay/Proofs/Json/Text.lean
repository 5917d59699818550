import RewindRelay.Json.Printer
import RewindRelay.Json.Reader
import RewindRelay.Proofs.Bytes
/-!
# Strings read back

A string is written byte by byte, some bytes as an escape.  A control character without a letter of
its own comes back as a unit of UTF-16 instead of a byte, so what is read is not literally what was
written, but it is the same text.

* `TextUnit.ofByte` — what a byte of a string comes back as.
* `run_quoted` — **the reader takes in what was written.**
* `Text.toString?_ofBytes` — it is the same text.
-/

namespace RewindRelay.Json

/-- What a byte of a string comes back as. -/
def TextUnit.ofByte (b : UInt8) : TextUnit :=
  if (shortEscape? b).isNone ∧ b < 32 then .utf16 b.toNat else .byte b

/-- What the bytes of a string come back as. -/
def Text.ofBytes (bytes : Bytes) : Text := bytes.map TextUnit.ofByte

/-! ## The reader inside a string -/

lemma hexOf?_hexDigit {n : ℕ} (h : n < 16) : hexOf? (hexDigit n) = some n := by
  have hall : ∀ k : Fin 16, hexOf? (hexDigit k) = some k.val := by decide
  exact hall ⟨n, h⟩

lemma run_utf16Escape {code : ℕ} (h : code < 65536) (role : Role) (units : Text)
    (frames : List Frame) :
    run ⟨.text role units, frames⟩ (utf16Escape code) =
      some ⟨.text role (.utf16 code :: units), frames⟩ := by
  have h3 := hexOf?_hexDigit (n := code / 4096 % 16) (by omega)
  have h2 := hexOf?_hexDigit (n := code / 256 % 16) (by omega)
  have h1 := hexOf?_hexDigit (n := code / 16 % 16) (by omega)
  have h0 := hexOf?_hexDigit (n := code % 16) (by omega)
  have hstart : ∀ rest, run ⟨.text role units, frames⟩ (ascii '\\' :: ascii 'u' :: rest) =
      run ⟨.hex role units 4 0, frames⟩ rest := fun _ => rfl
  have hcode : (((0 * 16 + code / 4096 % 16) * 16 + code / 256 % 16) * 16 + code / 16 % 16) * 16
      + code % 16 = code := by omega
  have hrun : run ⟨.hex role units 4 0, frames⟩ [hexDigit (code / 4096 % 16),
      hexDigit (code / 256 % 16), hexDigit (code / 16 % 16), hexDigit (code % 16)] =
      some ⟨.text role (.utf16 ((((0 * 16 + code / 4096 % 16) * 16 + code / 256 % 16) * 16 +
        code / 16 % 16) * 16 + code % 16) :: units), frames⟩ := by
    simp only [run, step, h3, h2, h1, h0, Option.map_some]
    rfl
  rw [utf16Escape, hstart, hrun, hcode]

lemma run_renderByte (b : UInt8) (role : Role) (units : Text) (frames : List Frame) :
    run ⟨.text role units, frames⟩ (TextUnit.byte b).render =
      some ⟨.text role (.ofByte b :: units), frames⟩ := by
  by_cases hshort : b = 34 ∨ b = 92 ∨ b = 8 ∨ b = 12 ∨ b = 10 ∨ b = 13 ∨ b = 9
  · rcases hshort with rfl | rfl | rfl | rfl | rfl | rfl | rfl <;> rfl
  · obtain ⟨h34, h92, h8, h12, h10, h13, h9⟩ :
        b ≠ 34 ∧ b ≠ 92 ∧ b ≠ 8 ∧ b ≠ 12 ∧ b ≠ 10 ∧ b ≠ 13 ∧ b ≠ 9 := by
      simpa only [not_or] using hshort
    have hnone : shortEscape? b = none := by
      simp [shortEscape?, h34, h92, h8, h12, h10, h13, h9]
    by_cases hlow : b < 32
    · have hunit : TextUnit.ofByte b = .utf16 b.toNat := by simp [TextUnit.ofByte, hnone, hlow]
      simp only [TextUnit.render, hnone, if_pos hlow, hunit]
      exact run_utf16Escape (Nat.lt_trans b.toNat_lt (by decide)) role units frames
    · have hunit : TextUnit.ofByte b = .byte b := by simp [TextUnit.ofByte, hlow]
      simp only [TextUnit.render, hnone, if_neg hlow, hunit, run, step, if_neg h34, if_neg h92]

lemma run_renderBytes (bytes : Bytes) (role : Role) (units : Text) (frames : List Frame) :
    run ⟨.text role units, frames⟩ (Text.render (bytes.map .byte)) =
      some ⟨.text role ((Text.ofBytes bytes).reverse ++ units), frames⟩ := by
  induction bytes generalizing units with
  | nil => rfl
  | cons b rest ih =>
      have hsplit : Text.render ((b :: rest).map .byte) =
          (TextUnit.byte b).render ++ Text.render (rest.map .byte) := by
        simp [Text.render]
      rw [hsplit, run_append, run_renderByte, Option.bind_some, ih]
      simp [Text.ofBytes]

/-- **A string is taken in.**  The reader stands right after its opening quote. -/
lemma run_quoted (bytes : Bytes) (role : Role) (frames : List Frame) :
    run ⟨.text role [], frames⟩ (Text.render (bytes.map .byte) ++ [ascii '"']) =
      some ⟨endText role (Text.ofBytes bytes).reverse, frames⟩ := by
  rw [run_append, run_renderBytes, Option.bind_some, List.append_nil]
  rfl

/-! ## The text that was read -/

lemma charBytes_of_lt {code : ℕ} (h : code < 32) : Text.charBytes code = [UInt8.ofNat code] := by
  have hall : ∀ k : Fin 32, Text.charBytes k = [UInt8.ofNat k.val] := by decide +kernel
  exact hall ⟨code, h⟩

lemma gather_ofBytes (bytes read : Bytes) :
    Text.gather read (Text.ofBytes bytes) = some (bytes.reverse ++ read) := by
  induction bytes generalizing read with
  | nil => rfl
  | cons b rest ih =>
      have hgather : Text.gather read (Text.ofBytes (b :: rest)) =
          Text.gather (b :: read) (Text.ofBytes rest) := by
        simp only [Text.ofBytes, List.map_cons, TextUnit.ofByte]
        split
        · next hlow =>
            have hlt : b.toNat < 32 := hlow.2
            have hhigh : Text.isHigh b.toNat = false := by
              simp only [Text.isHigh, decide_eq_false_iff_not]
              omega
            have hnotlow : Text.isLow b.toNat = false := by
              simp only [Text.isLow, decide_eq_false_iff_not]
              omega
            rw [Text.gather.eq_def]
            simp [hhigh, hnotlow, charBytes_of_lt hlt]
        · rfl
      rw [hgather, ih]
      simp

/-- The text of a string that was read is the text that was written. -/
lemma Text.toString?_ofBytes (text : String) :
    (Text.ofBytes (Bytes.utf8 text)).toString? = some text := by
  rw [toString?, gather_ofBytes, Option.bind_some, List.append_nil, List.reverse_reverse]
  exact Bytes.ofUtf8?_utf8 text

end RewindRelay.Json
