import RewindRelay.Http.Router
import RewindRelay.Proofs.Bytes
import RewindRelay.Replica
/-!
# The address of a stream on the master

A replica asks its master for the dump of a stream by an address in which the name of the stream
stands as it is.  The master cuts the address at marks and decodes what stands between them, so it
sees the same name only if the name has no mark in it and nothing that reads as an escape.

* `Text.pieces_append_mark` — what stands before the first mark is the first piece.
* `Http.HasEscape`, `Http.percentDecode_eq_self_iff` — **what decodes to itself.**
* `Http.IsOrigin`, `Http.segments_ofText` — how the master reads an address under `/streams/`.
* `Http.Agrees`, `Http.IsPlain` — replica and master mean the same stream; a name without marks and
  escapes.
* `Http.agrees_rewindUrl_iff` — **replica and master agree on exactly the plain names.**
-/

namespace RewindRelay

lemma Bytes.length_utf8_lt_append (text : String) {more : String} (h : more ≠ "") :
    (utf8 text).length < (utf8 (text ++ more)).length := by
  have hlength : ∀ text : String, (utf8 text).length = text.utf8ByteSize := fun text => by
    rw [utf8_eq]
    rfl
  have hmore : more.utf8ByteSize ≠ 0 := fun hzero => h (String.utf8ByteSize_eq_zero_iff.mp hzero)
  rw [hlength, hlength, String.utf8ByteSize_append]
  omega

/-! ## Pieces -/

namespace Text

variable {isMark : Char → Bool} {front cs : List Char} {m : Char}

lemma pieces_of_forall_not (h : ∀ c ∈ cs, isMark c = false) : pieces isMark cs = [cs] := by
  induction cs with
  | nil => rfl
  | cons c rest ih =>
      obtain ⟨hc, hrest⟩ := List.forall_mem_cons.mp h
      have hpieces := ih hrest
      rw [pieces] at hpieces ⊢
      rw [List.foldr_cons, hpieces, if_neg (by simp [hc])]

/-- What stands before the first mark is the first piece. -/
lemma pieces_append_mark (h : ∀ c ∈ front, isMark c = false) (hm : isMark m = true)
    (rest : List Char) :
    pieces isMark (front ++ m :: rest) = front :: pieces isMark rest := by
  induction front with
  | nil => exact if_pos hm
  | cons c front ih =>
      obtain ⟨hc, hfront⟩ := List.forall_mem_cons.mp h
      have hpieces := ih hfront
      rw [pieces] at hpieces ⊢
      rw [List.cons_append, List.foldr_cons, hpieces, if_neg (by simp [hc])]

end Text

namespace Http

open Text (pieces splitAtFirst pieces_append_mark pieces_of_forall_not)

/-! ## Escapes -/

/-- Does this start with an escape, a percent sign and two hexadecimal digits? -/
def opensEscape : Bytes → Bool
  | 37 :: high :: low :: _ => (Json.hexOf? high).isSome && (Json.hexOf? low).isSome
  | _ => false

/-- There is an escape somewhere. -/
def HasEscape (bytes : Bytes) : Prop := ∃ tail ∈ bytes.tails, opensEscape tail = true

instance (bytes : Bytes) : Decidable (HasEscape bytes) :=
  inferInstanceAs (Decidable (∃ tail ∈ bytes.tails, _))

lemma hasEscape_cons {b : UInt8} {rest : Bytes} :
    HasEscape (b :: rest) ↔ opensEscape (b :: rest) = true ∨ HasEscape rest := by
  simp only [HasEscape, List.tails, List.mem_cons, exists_eq_or_imp]

/-- Decoding makes nothing longer. -/
lemma length_percentDecode_le (bytes : Bytes) : (percentDecode bytes).length ≤ bytes.length := by
  fun_induction percentDecode bytes with
  | case1 high low rest h l hhigh hlow ih => simp only [List.length_cons]; omega
  | case2 high low rest hnot ih => simp only [List.length_cons] at ih ⊢; omega
  | case3 b rest hnot ih => simp only [List.length_cons]; omega
  | case4 => exact Nat.le_refl _

/-- **What decodes to itself.** -/
theorem percentDecode_eq_self_iff (bytes : Bytes) :
    percentDecode bytes = bytes ↔ ¬ HasEscape bytes := by
  fun_induction percentDecode bytes with
  | case1 high low rest h l hhigh hlow ih =>
      -- an escape makes it shorter
      have hopens : opensEscape (37 :: high :: low :: rest) = true := by
        simp [opensEscape, hhigh, hlow]
      refine iff_of_false (fun heq => ?_) (not_not.mpr (hasEscape_cons.mpr (Or.inl hopens)))
      have hlength := congrArg List.length heq
      have hle := length_percentDecode_le rest
      simp only [List.length_cons] at hlength
      omega
  | case2 high low rest hnot ih =>
      have hopens : opensEscape (37 :: high :: low :: rest) = false := by
        rw [opensEscape, Bool.and_eq_false_iff]
        cases hhigh : Json.hexOf? high with
        | none => exact Or.inl rfl
        | some h =>
            cases hlow : Json.hexOf? low with
            | none => exact Or.inr rfl
            | some l => exact absurd hlow (hnot h l hhigh)
      rw [hasEscape_cons, hopens, List.cons_inj_right, ih]
      simp
  | case3 b rest hnot ih =>
      have hopens : opensEscape (b :: rest) = false := by
        unfold opensEscape
        split
        · next heq =>
            cases heq
            exact absurd rfl (hnot _ _ _ rfl)
        · rfl
      rw [hasEscape_cons, hopens, List.cons_inj_right, ih]
      simp
  | case4 => exact iff_of_true rfl (by decide)

/-- A segment decodes to itself if it has no escape. -/
lemma decodeSegment?_eq_self_iff (segment : String) :
    decodeSegment? segment = some segment ↔ ¬ HasEscape (Bytes.utf8 segment) := by
  rw [decodeSegment?, Bytes.ofUtf8?_eq_some_iff, eq_comm, percentDecode_eq_self_iff]

example : decodeSegment? "a%20b" = some "a b" := by decide +kernel

/-- A segment decodes to no longer text. -/
lemma length_utf8_le_of_decodeSegment? {segment name : String}
    (h : decodeSegment? segment = some name) :
    (Bytes.utf8 name).length ≤ (Bytes.utf8 segment).length := by
  rw [decodeSegment?, Bytes.ofUtf8?_eq_some_iff] at h
  rw [h]
  exact length_percentDecode_le _

/-! ## Addresses -/

/-- The address of a server: a scheme and an authority, and no path. -/
def IsOrigin (origin : String) : Prop :=
  ∃ scheme authority : String, origin = scheme ++ "://" ++ authority ∧
    (∀ c ∈ scheme.toList, isSchemeChar c = true) ∧ authority ≠ "" ∧
    ∀ c ∈ authority.toList, c ≠ '/' ∧ c ≠ '?' ∧ c ≠ '#'

/-- What is before the first question mark or number sign. -/
def visible (cs : List Char) : List Char :=
  (cs.takeWhile fun c => !(c == '#')).takeWhile fun c => !(c == '?')

lemma isSchemeChar_ne {c : Char} (hc : isSchemeChar c = true) : c ≠ '#' := by
  rintro rfl
  revert hc
  decide

lemma IsOrigin.not_number {origin : String} (h : IsOrigin origin) :
    ∀ c ∈ origin.toList, (!(c == '#')) = true := by
  obtain ⟨scheme, authority, rfl, hscheme, -, hauthority⟩ := h
  intro c hc
  rw [String.toList_append, String.toList_append, List.mem_append, List.mem_append] at hc
  rcases hc with (hc | hc) | hc
  · simpa using isSchemeChar_ne (hscheme c hc)
  · revert c
    simp
  · simpa using (hauthority c hc).2.2

/-- What comes after the origin is the path. -/
lemma IsOrigin.dropOrigin_append {origin : String} (h : IsOrigin origin) (path : List Char) :
    dropOrigin (origin.toList ++ '/' :: path) = '/' :: path := by
  obtain ⟨scheme, authority, rfl, hscheme, -, hauthority⟩ := h
  have hhost : ∀ c ∈ authority.toList, (c != '/' && c != '?') = true := fun c hc => by
    simpa using ⟨(hauthority c hc).1, (hauthority c hc).2.1⟩
  have htext : (scheme ++ "://" ++ authority).toList ++ '/' :: path =
      scheme.toList ++ ':' :: '/' :: '/' :: (authority.toList ++ '/' :: path) := by
    simp [String.toList_append]
  have hafter : (scheme.toList ++ ':' :: '/' :: '/' :: (authority.toList ++ '/' :: path)).dropWhile
      isSchemeChar = ':' :: '/' :: '/' :: (authority.toList ++ '/' :: path) :=
    List.dropWhile_append_of_pos hscheme
  have hpath : (authority.toList ++ '/' :: path).dropWhile (fun c => c != '/' && c != '?') =
      '/' :: path :=
    List.dropWhile_append_of_pos hhost
  rw [htext, dropOrigin, hafter]
  simp only [hpath]

/-- **How the master reads an address** under `/streams/`. -/
lemma segments_ofText {origin : String} (horigin : IsOrigin origin) (rest : String) :
    (Target.ofText (origin ++ "/streams/" ++ rest)).segments =
      "streams" :: (pieces (· == '/') (visible rest.toList)).map String.ofList := by
  have htext : (origin ++ "/streams/" ++ rest).toList =
      origin.toList ++ '/' :: ("streams/".toList ++ rest.toList) := by
    simp [String.toList_append]
  have hnumber : (splitAtFirst (· == '#') (origin ++ "/streams/" ++ rest).toList).1 =
      origin.toList ++ '/' :: ("streams/".toList ++
        rest.toList.takeWhile fun c => !(c == '#')) := by
    rw [htext, splitAtFirst, List.takeWhile_append_of_pos horigin.not_number,
      List.takeWhile_cons_of_pos (by decide), List.takeWhile_append_of_pos (by simp)]
  have hquery : (splitAtFirst (· == '?') ('/' :: ("streams/".toList ++
      rest.toList.takeWhile fun c => !(c == '#')))).1 =
        '/' :: ("streams".toList ++ '/' :: visible rest.toList) := by
    rw [splitAtFirst, List.takeWhile_cons_of_pos (by decide),
      List.takeWhile_append_of_pos (by simp)]
    rfl
  have hpieces : pieces (· == '/') ("streams".toList ++ '/' :: visible rest.toList) =
      "streams".toList :: pieces (· == '/') (visible rest.toList) :=
    pieces_append_mark (by simp) rfl _
  simp only [Target.ofText, hnumber, horigin.dropOrigin_append, hquery, hpieces, List.map_cons]
  rfl

/-! ## Names -/

/-- Does the character end a segment, wherever it stands? -/
def isDelimiter (c : Char) : Bool := c == '/' || c == '?' || c == '#'

/-- A name that can stand in an address as it is: no character ends a segment, and nothing reads as
an escape. -/
def IsPlain (name : String) : Prop :=
  (∀ c ∈ name.toList, isDelimiter c = false) ∧ ¬ HasEscape (Bytes.utf8 name)

-- over the characters of the name only, not over all there are
instance (name : String) : Decidable (IsPlain name) :=
  haveI : Decidable (∀ c ∈ name.toList, isDelimiter c = false) := List.decidableBAll _ _
  inferInstanceAs (Decidable (_ ∧ _))

/-- The path of the address has three segments, of which the second one decodes to the name. -/
def Agrees (url name : String) : Prop :=
  ∃ segment, (Target.ofText url).segments = ["streams", segment, "rewind"] ∧
    decodeSegment? segment = some name

variable {origin name : String} {front : List Char}

lemma visible_append (h : ∀ c ∈ front, isDelimiter c = false) (rest : List Char) :
    visible (front ++ rest) = front ++ visible rest := by
  have hnumber : ∀ c ∈ front, (!(c == '#')) = true := fun c hc => by
    have hmark := h c hc
    simp_all [isDelimiter]
  have hquery : ∀ c ∈ front, (!(c == '?')) = true := fun c hc => by
    have hmark := h c hc
    simp_all [isDelimiter]
  rw [visible, List.takeWhile_append_of_pos hnumber, List.takeWhile_append_of_pos hquery, visible]

/-- Slashes at the end of the master's address make no difference. -/
lemma IsOrigin.dropTrailingSlashes_append (h : IsOrigin origin) (slashes : ℕ) :
    dropTrailingSlashes (origin ++ String.ofList (List.replicate slashes '/')) = origin := by
  have hslashes : ∀ c ∈ List.replicate slashes '/', (c == '/') = true := fun c hc => by
    simpa using List.eq_of_mem_replicate hc
  have hend : origin.toList.reverse.dropWhile (· == '/') = origin.toList.reverse := by
    obtain ⟨scheme, authority, rfl, -, hsome, hauthority⟩ := h
    obtain ⟨host, last, hlast⟩ := (List.eq_nil_or_concat' authority.toList).resolve_left
      fun hnil => hsome (String.toList_eq_nil_iff.mp hnil)
    have hslash : last ≠ '/' := (hauthority last (by simp [hlast])).1
    rw [String.toList_append, hlast, List.reverse_append, List.reverse_append]
    exact List.dropWhile_cons_of_neg (by simpa using hslash)
  rw [dropTrailingSlashes, String.toList_append, String.toList_ofList, List.reverse_append,
    List.reverse_replicate, List.dropWhile_append_of_pos hslashes, hend, List.reverse_reverse,
    String.ofList_toList]

lemma rewindUrl_eq (h : IsOrigin origin) (slashes : ℕ) (name : String) :
    rewindUrl (origin ++ String.ofList (List.replicate slashes '/')) name =
      origin ++ "/streams/" ++ (name ++ "/rewind") := by
  rw [rewindUrl, h.dropTrailingSlashes_append, String.append_assoc]

/-- A name in which nothing ends a segment is a segment. -/
lemma segments_of_undelimited (horigin : IsOrigin origin)
    (h : ∀ c ∈ name.toList, isDelimiter c = false) :
    (Target.ofText (origin ++ "/streams/" ++ (name ++ "/rewind"))).segments =
      ["streams", name, "rewind"] := by
  have hslash : ∀ c ∈ name.toList, (c == '/') = false := fun c hc => by
    have hmark := h c hc
    simp_all [isDelimiter]
  have hvisible : visible (name ++ "/rewind").toList = name.toList ++ '/' :: "rewind".toList := by
    rw [String.toList_append, visible_append h]
    rfl
  rw [segments_ofText horigin, hvisible, pieces_append_mark hslash rfl,
    pieces_of_forall_not (by simp), List.map_cons, String.ofList_toList]
  rfl

/-- A name is cut where something ends a segment, and what is left of it does not decode to it. -/
lemma not_agrees_of_delimiter (horigin : IsOrigin origin)
    (h : ¬ ∀ c ∈ name.toList, isDelimiter c = false) :
    ¬ Agrees (origin ++ "/streams/" ++ (name ++ "/rewind")) name := by
  obtain ⟨m, hfirst⟩ : ∃ m, name.toList.find? isDelimiter = some m :=
    Option.isSome_iff_exists.mp (List.find?_isSome.mpr (by simpa using h))
  obtain ⟨hm, front, back, hname, hfront⟩ := List.find?_eq_some_iff_append.mp hfirst
  replace hfront : ∀ c ∈ front, isDelimiter c = false := fun c hc => by simpa using hfront c hc
  have hslash : ∀ c ∈ front, (c == '/') = false := fun c hc => by
    have hmark := hfront c hc
    simp_all [isDelimiter]
  have hvisible : visible (name ++ "/rewind").toList =
      front ++ visible (m :: (back ++ "/rewind".toList)) := by
    rw [String.toList_append, hname, List.append_assoc, List.cons_append, visible_append hfront]
  rintro ⟨segment, hsegments, hdecode⟩
  rw [segments_ofText horigin, hvisible] at hsegments
  by_cases hm' : m = '/'
  · -- the segment is what stands before the slash, and too short
    subst hm'
    have hrest : visible ('/' :: (back ++ "/rewind".toList)) =
        '/' :: visible (back ++ "/rewind".toList) := rfl
    rw [hrest, pieces_append_mark hslash rfl, List.map_cons, List.cons_inj_right] at hsegments
    obtain rfl : String.ofList front = segment := List.head_eq_of_cons_eq hsegments
    have hle := length_utf8_le_of_decodeSegment? hdecode
    have hlt : (Bytes.utf8 (String.ofList front)).length < (Bytes.utf8 name).length := by
      rw [← String.ofList_toList (s := name), hname, String.ofList_append]
      exact Bytes.length_utf8_lt_append _ (by simp)
    omega
  · -- nothing comes after the name
    have hrest : visible (m :: (back ++ "/rewind".toList)) = [] := by
      have hend : m = '?' ∨ m = '#' := by simpa [isDelimiter, hm'] using hm
      rcases hend with rfl | rfl <;> rfl
    rw [hrest, List.append_nil, pieces_of_forall_not hslash] at hsegments
    cases hsegments

/-- **Replica and master agree on exactly the plain names.**  Whatever the address of the master,
with any number of slashes at its end: the address that the replica asks for has the three segments
that lead to the dump, and the name in the middle, if and only if the name is plain.  The master
then answers for the stream of that very name. -/
theorem agrees_rewindUrl_iff (horigin : IsOrigin origin) (slashes : ℕ) (name : String) :
    (Agrees (rewindUrl (origin ++ String.ofList (List.replicate slashes '/')) name) name ↔
        IsPlain name) ∧
      (IsPlain name → ∀ (C : Codec) (relay : Relay),
        relay.handle C
            { target := rewindUrl (origin ++ String.ofList (List.replicate slashes '/')) name } =
          readStream relay name "" .rewind) := by
  rw [rewindUrl_eq horigin]
  refine ⟨?_, fun hplain C relay => ?_⟩
  · by_cases hname : ∀ c ∈ name.toList, isDelimiter c = false
    · have hsegments := segments_of_undelimited horigin hname
      constructor
      · rintro ⟨segment, hsegments', hdecode⟩
        obtain rfl : name = segment := by simpa using hsegments.symm.trans hsegments'
        exact ⟨hname, (decodeSegment?_eq_self_iff name).mp hdecode⟩
      · rintro ⟨-, hescape⟩
        exact ⟨name, hsegments, (decodeSegment?_eq_self_iff name).mpr hescape⟩
    · exact iff_of_false (not_agrees_of_delimiter horigin hname) fun hplain => hname hplain.1
  · have hsegments := segments_of_undelimited horigin hplain.1
    have hdecode := (decodeSegment?_eq_self_iff name).mpr hplain.2
    simp only [Relay.handle, hsegments, Route.of?, dispatch, get, hdecode]
    rfl

lemma isOrigin_master : IsOrigin "http://m:8090" :=
  ⟨"http", "m:8090", by decide, by simp [isSchemeChar], by decide, by simp⟩

/-- A percent sign that no digits follow, and characters of any length, are no trouble. -/
theorem agrees_rewindUrl_loose :
    IsOrigin "http://m:8090" ∧ IsPlain "50% ü" ∧
      Agrees (rewindUrl ("http://m:8090" ++ String.ofList (List.replicate 2 '/')) "50% ü")
        "50% ü" := by
  have hplain : IsPlain "50% ü" := by decide +kernel
  exact ⟨isOrigin_master, hplain, (agrees_rewindUrl_iff isOrigin_master 2 "50% ü").1.mpr hplain⟩

/-- **A slash in a name is lost on the master.** -/
theorem not_forall_agrees :
    ¬ ∀ origin, IsOrigin origin → ∀ (slashes : ℕ) (name : String), name ≠ "" →
      Agrees (rewindUrl (origin ++ String.ofList (List.replicate slashes '/')) name) name := by
  intro h
  obtain ⟨segment, hsegments, -⟩ := h "http://m:8090" isOrigin_master 0 "a/b" (by decide)
  have hfour : (Target.ofText (rewindUrl ("http://m:8090" ++
      String.ofList (List.replicate 0 '/')) "a/b")).segments = ["streams", "a", "b", "rewind"] := by
    decide +kernel
  rw [hfour] at hsegments
  exact absurd (congrArg List.length hsegments) (by simp)

end Http

end RewindRelay
