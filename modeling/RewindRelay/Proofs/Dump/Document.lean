import RewindRelay.Dump.Document
import RewindRelay.Proofs.Json.Document
import RewindRelay.Proofs.Json.Double
/-!
# Frame texts read back

Headers and chunk heads come back from their texts with the same strings and integers.  Doubles come
back as whatever the reader makes of their digits, so the laws speak of the record with its doubles
read again.

* `Json.reread?`, `Json.Readable`, `Json.ReadsBack` — a double, written and read.
* `Json.readsBack_of_isFinite` — **a finite double is read as one.**
* `Vitals.reread`, `Header.reread`, `ChunkHead.reread` — records with their doubles read again.
* `Codec.readHeader_writeHeader`, `Codec.readHead_writeHead` — **the texts of a dump read back.**
-/

namespace RewindRelay

open Json
open Json.Value (ofText ofFloat ofInt ofOption optional?)

namespace Json

/-! ## Doubles -/

/-- What a double comes back as; nothing when no number was written or it is refused. -/
def reread? (x : Float) : Option Float := (ofFloat x).double?

/-- A double as it comes back. -/
def reread (x : Float) : Float := (reread? x).getD x

/-- A double is accepted by the reader. -/
def Readable (x : Float) : Prop := (reread? x).isSome = true

instance (x : Float) : Decidable (Readable x) :=
  inferInstanceAs (Decidable ((reread? x).isSome = true))

/-- A double comes back as a finite one, and as a positive one if it was positive. -/
def ReadsBack (x : Float) : Prop :=
  ∃ y, reread? x = some y ∧ y.isFinite = true ∧ (0 < x → 0 < y)

instance (x : Float) : Decidable (ReadsBack x) :=
  decidable_of_iff
    ((reread? x).any (fun y => y.isFinite && decide (0 < x → 0 < y)) = true)
    (by simp [ReadsBack, Option.any_eq_true, imp_iff_not_or])

lemma ReadsBack.readable {x : Float} (h : ReadsBack x) : Readable x := by
  obtain ⟨y, hy, -⟩ := h
  rw [Readable, hy, Option.isSome_some]

lemma Readable.reread?_eq {x : Float} (h : Readable x) : reread? x = some (reread x) := by
  obtain ⟨y, hy⟩ := Option.isSome_iff_exists.mp h
  rw [reread, hy, Option.getD_some]

/-- A double that comes back as itself. -/
lemma reread_eq_self {x : Float} (h : reread? x = some x) : reread x = x := by
  rw [reread, h, Option.getD_some]

/-- A double is written as a number or as `null`, and only a finite one as a number. -/
lemma ofFloat_cases (x : Float) :
    (x.isFinite = true ∧ ∃ n, ofFloat x = .number n ∧ n.Proper) ∨
      (x.isFinite = false ∧ ofFloat x = .null) := by
  rw [← Decimal.Layout.isSome_numeral? .json x]
  cases hn : Decimal.Layout.json.numeral? x with
  | none => exact Or.inr ⟨rfl, by simp [ofFloat, hn]⟩
  | some n =>
      refine Or.inl ⟨rfl, n, by simp [ofFloat, hn], ?_⟩
      simp only [Decimal.Layout.numeral?] at hn
      split at hn
      · next negative significand exponent _ =>
          rw [← Option.some.inj hn]
          exact Decimal.Layout.json.proper_finite negative significand exponent
      · cases hn

/-- **A finite double is read as a finite one**, though not always as itself. -/
theorem readsBack_of_isFinite {x : Float} (h : x.isFinite = true) : ReadsBack x := by
  obtain ⟨negative, m, e, hbinary, hparts⟩ := Decimal.ofFloat_of_isFinite h
  obtain ⟨y, hy, hfinite, hpos⟩ := exists_double? (hparts.imp And.left fun h => h.2.1) negative
  have hread : reread? x = double? (Decimal.Layout.json.finite negative m e) := by
    simp only [reread?, ofFloat, Decimal.Layout.numeral?, hbinary, Value.double?]
  refine ⟨y, hread.trans hy, hfinite, fun hx => ?_⟩
  obtain ⟨hsign, hm⟩ := Decimal.signOf_of_pos hx (hparts.imp id fun h => ⟨e, h.1, h.2.2⟩)
  exact hpos hsign hm

/-- **A double is accepted by the reader exactly if it is finite.** -/
theorem readable_iff (x : Float) : Readable x ↔ x.isFinite = true := by
  refine ⟨fun h => ?_, fun h => (readsBack_of_isFinite h).readable⟩
  rcases ofFloat_cases x with ⟨hfinite, -⟩ | ⟨-, hnull⟩
  · exact hfinite
  · rw [Readable, reread?, hnull] at h
    cases h

lemma reads_float (x : Float) : Reads (ofFloat x) (ofFloat x) := by
  rcases ofFloat_cases x with ⟨-, n, hn, hproper⟩ | ⟨-, hnull⟩
  · rw [hn]
    exact reads_number hproper
  · rw [hnull]
    exact reads_null

lemma reads_int (i : ℤ) : Reads (ofInt i) (ofInt i) := reads_number (Decimal.Numeral.proper_ofInt i)

/-- A value that may be missing. -/
lemma reads_option {α : Type} {f : α → Value} (h : ∀ a, Reads (f a) (f a)) (o : Option α) :
    Reads (ofOption f o) (ofOption f o) := by
  cases o with
  | none => exact reads_null
  | some a => exact h a

lemma optional?_none {α : Type} (read : Value → Option α) : optional? read none = some none := rfl

lemma optional?_ofText (text : String) :
    optional? Value.string? (some (ofText text)) = some (some text) := by
  have hread := Value.string?_ofText text
  rw [ofText] at hread ⊢
  simp only [optional?, hread, Option.map_some]

/-- A timestamp that may be missing reads back. -/
lemma optional?_int64 (ts : Option Int64) :
    optional? Value.int64? (some (ofOption (fun ts : Int64 => ofInt ts.toInt) ts)) = some ts := by
  cases ts with
  | none => rfl
  | some ts => simp [ofOption, ofInt, optional?, Value.int64?, int64?_ofInt]

/-- A double that may be missing reads back; one that is not finite is missing afterwards. -/
lemma optional?_double {x : Option Float} (h : ∀ y, x = some y → y.isFinite = true → Readable y) :
    optional? Value.double? (some (ofOption ofFloat x)) = some (x.bind reread?) := by
  cases x with
  | none => rfl
  | some x =>
      rcases ofFloat_cases x with ⟨hfinite, n, hn, -⟩ | ⟨-, hnull⟩
      · obtain ⟨y, hy⟩ := Option.isSome_iff_exists.mp (h x rfl hfinite)
        have hread : (Value.number n).double? = some y := by rw [← hn]; exact hy
        simp only [ofOption, Option.bind_some, hy, hn, optional?, hread, Option.map_some]
      · simp only [ofOption, Option.bind_some, reread?, hnull, optional?, Value.double?]

end Json

/-! ## Metadata -/

/-- Metadata as it is read. -/
def Metadata.asRead (m : Metadata) : Value :=
  .object ((m.title.toList.map fun t => fieldRead "title" (ofText t)) ++
    m.url.toList.map fun u => fieldRead "url" (ofText u))

lemma Metadata.reads (m : Metadata) : Reads m.toJson m.asRead :=
  reads_object (List.rel_append
    (fieldReads_optional "title" fun t _ => reads_text t)
    (fieldReads_optional "url" fun u _ => reads_text u))

/-- Metadata reads back; metadata without title and address is still metadata. -/
lemma Metadata.ofJson?_asRead (m : Metadata) : Metadata.ofJson? m.asRead = some m := by
  obtain ⟨title, url⟩ := m
  cases title <;> cases url <;>
    simp [Metadata.ofJson?, Metadata.asRead, record?, Slots.fill, optional?_none,
      optional?_ofText]

/-! ## Vitals -/

/-- Vitals with their doubles read again. -/
def Vitals.reread (v : Vitals) : Vitals :=
  { v with
    chunkDuration := Json.reread v.chunkDuration
    framesPerSecond := Json.reread v.framesPerSecond }

def Vitals.asRead (v : Vitals) : Value :=
  .object ([fieldRead "streamKey" (ofText v.streamKey),
    fieldRead "chunkDuration" (ofFloat v.chunkDuration),
    fieldRead "framesPerSecond" (ofFloat v.framesPerSecond)] ++
    v.contentType.toList.map fun t => fieldRead "contentType" (ofText t))

lemma Vitals.reads (v : Vitals) : Reads v.toJson v.asRead :=
  reads_object (List.rel_append
    (.cons (fieldReads "streamKey" (reads_text _))
      (.cons (fieldReads "chunkDuration" (reads_float _))
        (.cons (fieldReads "framesPerSecond" (reads_float _)) .nil)))
    (fieldReads_optional "contentType" fun t _ => reads_text t))

lemma Vitals.ofJson?_asRead {v : Vitals} (hd : Readable v.chunkDuration)
    (hf : Readable v.framesPerSecond) : Vitals.ofJson? v.asRead = some v.reread := by
  have hd' : (ofFloat v.chunkDuration).double? = _ := hd.reread?_eq
  have hf' : (ofFloat v.framesPerSecond).double? = _ := hf.reread?_eq
  obtain ⟨key, duration, rate, contentType⟩ := v
  cases contentType <;>
    simp_all [Vitals.ofJson?, Vitals.asRead, Vitals.reread, record?, Slots.fill,
      optional?_none, optional?_ofText, Value.string?_ofText]

lemma Vitals.isFinite_of_isUsable {v : Vitals} (h : v.isUsable = true) :
    v.chunkDuration.isFinite = true := by
  simp only [Vitals.isUsable, Bool.and_eq_true] at h
  exact h.1

lemma Vitals.isUsable_reread {v : Vitals} (h : v.isUsable = true) (hd : ReadsBack v.chunkDuration) :
    v.reread.isUsable = true := by
  obtain ⟨y, hy, hfinite, hpos⟩ := hd
  have hy' : Json.reread v.chunkDuration = y := by rw [Json.reread, hy, Option.getD_some]
  simp only [Vitals.isUsable, Bool.and_eq_true, decide_eq_true_eq] at h ⊢
  simp only [Vitals.reread, hy']
  exact ⟨hfinite, hpos h.2⟩

/-! ## Headers -/

def Header.reread (h : Header) : Header :=
  { h with endTs := h.endTs.bind reread?, vitals := h.vitals.reread }

def Header.asRead (h : Header) : Value :=
  .object [fieldRead "startTs" (ofOption (fun ts : Int64 => ofInt ts.toInt) h.startTs),
    fieldRead "endTs" (ofOption ofFloat h.endTs), fieldRead "vitals" h.vitals.asRead]

lemma Header.reads (h : Header) : Reads h.toJson h.asRead :=
  reads_object (.cons (fieldReads "startTs" (reads_option (fun ts => reads_int ts.toInt) _))
    (.cons (fieldReads "endTs" (reads_option reads_float _))
      (.cons (fieldReads "vitals" h.vitals.reads) .nil)))

lemma Header.ofJson?_asRead {h : Header} (hd : Readable h.vitals.chunkDuration)
    (hf : Readable h.vitals.framesPerSecond)
    (he : ∀ x, h.endTs = some x → x.isFinite = true → Readable x) :
    Header.ofJson? h.asRead = some h.reread := by
  have hv := Vitals.ofJson?_asRead hd hf
  have hs := optional?_int64 h.startTs
  have hx := optional?_double he
  simp [Header.ofJson?, Header.asRead, Header.reread, record?, Slots.fill, hv, hs,
    hx]

/-- **A header reads back.** -/
theorem Codec.readHeader_writeHeader {h : Header} (hd : Readable h.vitals.chunkDuration)
    (hf : Readable h.vitals.framesPerSecond)
    (he : ∀ x, h.endTs = some x → x.isFinite = true → Readable x) :
    Codec.json.readHeader (Codec.json.writeHeader h) = some h.reread := by
  simp only [Codec.json]
  rw [parse_render h.reads, Option.bind_some, Header.ofJson?_asRead hd hf he]

/-! ## Chunk heads -/

def ChunkHead.reread (h : ChunkHead) : ChunkHead := { h with duration := Json.reread h.duration }

def ChunkHead.asRead (h : ChunkHead) : Value :=
  .object ([fieldRead "ts" (ofInt h.ts.toInt), fieldRead "duration" (ofFloat h.duration)] ++
    h.metadata.toList.map fun m => fieldRead "meta" m.asRead)

lemma ChunkHead.reads (h : ChunkHead) : Reads h.toJson h.asRead :=
  reads_object (List.rel_append
    (.cons (fieldReads "ts" (reads_int _)) (.cons (fieldReads "duration" (reads_float _)) .nil))
    (fieldReads_optional "meta" fun m _ => m.reads))

lemma optional?_metadata (m : Metadata) :
    optional? Metadata.ofJson? (some m.asRead) = some (some m) := by
  have hread := m.ofJson?_asRead
  rw [Metadata.asRead] at hread ⊢
  simp only [optional?, hread, Option.map_some]

lemma ChunkHead.ofJson?_asRead {h : ChunkHead} (hd : Readable h.duration) :
    ChunkHead.ofJson? h.asRead = some h.reread := by
  have hd' : (ofFloat h.duration).double? = _ := hd.reread?_eq
  have hts : (ofInt h.ts.toInt).int64? = some h.ts := int64?_ofInt h.ts
  obtain ⟨ts, duration, metadata⟩ := h
  cases metadata <;>
    simp_all [ChunkHead.ofJson?, ChunkHead.asRead, ChunkHead.reread, record?, Slots.fill,
      optional?_none, optional?_metadata]

/-- **A chunk head reads back.** -/
theorem Codec.readHead_writeHead {h : ChunkHead} (hd : Readable h.duration) :
    Codec.json.readHead (Codec.json.writeHead h) = some h.reread := by
  simp only [Codec.json]
  rw [parse_render h.reads, Option.bind_some, ChunkHead.ofJson?_asRead hd]

end RewindRelay
