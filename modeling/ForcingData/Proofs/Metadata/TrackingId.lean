import ForcingData.Proofs.Metadata.OwnName
import Mathlib.Data.List.SplitLengths

/-! # Tracking ids

A tracking id is the prefix of the handle system with a universal identifier of version 4, of which
there are four spellings (`isTrackingId_iff`). Texts with the same identifier are the same but for
the case of letters if they have one spelling, and not otherwise (`Writes.map_toLower_eq_iff`). -/

namespace ForcingData

/-! ### Cutting and joining -/

theorem Text.splitChars_eq_splitOn (sep : Char) :
    ∀ cs : List Char, splitChars (· == sep) cs = cs.splitOn sep
  | [] => rfl
  | c :: cs => by
    rw [splitChars, List.splitOn_cons_eq_if_modifyHead, splitChars_eq_splitOn sep cs]
    split
    · rfl
    · cases hcs : cs.splitOn sep with
      | nil => exact absurd hcs (List.splitOn_ne_nil sep cs)
      | cons piece pieces => rfl

theorem Text.splitChars_eq_iff {sep : Char} {cs : List Char} {pieces : List (List Char)}
    (hne : pieces ≠ []) : splitChars (· == sep) cs = pieces ↔
      cs = [sep].intercalate pieces ∧ ∀ piece ∈ pieces, sep ∉ piece := by
  constructor
  · rintro rfl
    refine ⟨?_, fun piece hpiece hmem => ?_⟩
    · rw [splitChars_eq_splitOn, List.intercalate_splitOn]
    · simpa using Path.eq_false_of_mem_splitChars hpiece sep hmem
  · rintro ⟨rfl, hpieces⟩
    rw [splitChars_eq_splitOn, List.splitOn_intercalate sep hpieces hne]

namespace TrackingId

/-- The ways to write a universal identifier. -/
inductive Spelling
  | plain
  | hyphenated
  | braced
  | urn
deriving DecidableEq, Repr

/-- The lengths of the groups between hyphens. -/
def groupLengths : List Nat := [8, 4, 4, 4, 12]

def hyphens (digits : List Char) : List Char :=
  ['-'].intercalate (groupLengths.splitLengths digits)

/-- Do the characters write the digits in this way? -/
def Spelling.Writes (digits cs : List Char) : Spelling → Prop
  | plain => cs = digits
  | hyphenated => cs = hyphens digits
  | braced => cs = '\x7b' :: (hyphens digits ++ ['\x7d'])
  | urn => ∃ scheme, scheme.map Char.toLower = "urn:uuid:".toList ∧ cs = scheme ++ hyphens digits

/-- The 32 digits of a universal identifier. -/
structure IsDigits (digits : List Char) : Prop where
  length : digits.length = 32
  isHexDigit : ∀ c ∈ digits, Rule.isHexDigit c = true

variable {digits cs : List Char}

/-! ### Hexadecimal digits -/

theorem of_hexValue? {c : Char} {v : Nat} (h : Url.hexValue? c = some v) :
    c.toLower = Nat.digitChar v ∧ (v = 4 → c = '4') := by
  have hall : ∀ n < 128, (Url.hexValue? (Char.ofNat n)).all (fun v =>
      (Char.ofNat n).toLower = Nat.digitChar v ∧ (v = 4 → Char.ofNat n = '4')) = true := by
    decide
  have hc : c.toNat < 128 := by
    have hle : ∀ d : Char, c ≤ d → c.toNat ≤ d.toNat := fun _ hd => hd
    simp only [Url.hexValue?, Bool.and_eq_true, decide_eq_true_eq] at h
    split_ifs at h with hdigit hlower hupper
    · exact (hle '9' hdigit.2).trans_lt (by decide)
    · exact (hle 'f' hlower.2).trans_lt (by decide)
    · exact (hle 'F' hupper.2).trans_lt (by decide)
  have hvalue := hall c.toNat hc
  rw [Char.ofNat_toNat, h] at hvalue
  simpa [imp_iff_not_or] using hvalue

/-- The 128 bits of an identifier, four for each digit. -/
def bits (digits : List Char) : List Nat := digits.filterMap Url.hexValue?

theorem map_toLower_eq (h : ∀ c ∈ digits, Rule.isHexDigit c = true) :
    digits.map Char.toLower = (bits digits).map Nat.digitChar := by
  induction digits with
  | nil => rfl
  | cons c digits ih =>
    obtain ⟨hc, hdigits⟩ := List.forall_mem_cons.mp h
    obtain ⟨v, hv⟩ := Option.isSome_iff_exists.mp hc
    rw [bits, List.filterMap_cons_some hv, List.map_cons, List.map_cons, (of_hexValue? hv).1,
      ih hdigits]
    rfl

/-! ### Groups -/

theorem splitLengths_flatten {α : Type} : ∀ pieces : List (List α),
    (pieces.map List.length).splitLengths pieces.flatten = pieces
  | [] => rfl
  | piece :: pieces => by
    rw [List.map_cons, List.flatten_cons, List.splitLengths_cons, List.take_left, List.drop_left,
      splitLengths_flatten pieces]

theorem hyphens_eq (digits : List Char) : hyphens digits = digits.take 8 ++ '-' ::
    ((digits.drop 8).take 4 ++ '-' :: ((digits.drop 12).take 4 ++ '-' ::
      ((digits.drop 16).take 4 ++ '-' :: (digits.drop 20).take 12))) := by
  simp [hyphens, groupLengths, List.intercalate_cons_cons]

theorem length_hyphens (h : IsDigits digits) : (hyphens digits).length = 36 := by
  simp [hyphens_eq, h.length]

theorem map_hyphens {f : Char → Char} (hf : f '-' = '-') (digits : List Char) :
    (hyphens digits).map f = hyphens (digits.map f) := by
  simp [hyphens_eq, hf, List.map_take, List.map_drop]

theorem hyphenatedDigits?_eq_some : Rule.hyphenatedDigits? cs = some digits ↔
    IsDigits digits ∧ cs = hyphens digits := by
  have hnotMem : ∀ {group : List Char}, (∀ c ∈ group, Rule.isHexDigit c = true) → '-' ∉ group :=
    fun h hmem => absurd (h _ hmem) (by decide)
  have hhex : ∀ {groups : List (List Char)}, groups.all (·.all Rule.isHexDigit) = true ↔
      ∀ c ∈ groups.flatten, Rule.isHexDigit c = true := fun {groups} => by
    simp only [List.all_eq_true, List.mem_flatten]
    exact ⟨fun h c ⟨group, hgroup, hc⟩ => h group hgroup c hc,
      fun h group hgroup c hc => h c ⟨group, hgroup, hc⟩⟩
  unfold Rule.hyphenatedDigits?
  simp only [Bool.and_eq_true, decide_eq_true_eq, hhex]
  constructor
  · intro h
    split_ifs at h with hvalid
    obtain rfl := Option.some.inj h
    generalize hgroups : Text.splitChars (· == '-') cs = groups at hvalid ⊢
    obtain ⟨hlengths, hdigits⟩ := hvalid
    have hne : groups ≠ [] := by rintro rfl; cases hlengths
    refine ⟨⟨?_, hdigits⟩, ?_⟩
    · rw [List.length_flatten, hlengths]
      rfl
    · rw [hyphens, groupLengths, ← hlengths, splitLengths_flatten]
      exact ((Text.splitChars_eq_iff hne).mp hgroups).1
  · rintro ⟨hdigits, rfl⟩
    have hsum : groupLengths.sum = digits.length := hdigits.length.symm
    have hflatten := List.flatten_splitLengths digits groupLengths hsum.ge
    have hlengths := List.map_splitLengths_length digits groupLengths hsum.le
    have hne : groupLengths.splitLengths digits ≠ [] := by simp [groupLengths]
    have hgroups : Text.splitChars (· == '-')
        (['-'].intercalate (groupLengths.splitLengths digits)) = groupLengths.splitLengths digits :=
      (Text.splitChars_eq_iff hne).mpr ⟨rfl, fun group hgroup => hnotMem fun c hc =>
        hdigits.isHexDigit c (hflatten ▸ List.mem_flatten.mpr ⟨group, hgroup, hc⟩)⟩
    rw [hyphens, hgroups, hflatten, if_pos ⟨hlengths, hdigits.isHexDigit⟩]

/-! ### Identifiers -/

namespace Spelling

def length : Spelling → Nat
  | plain => 32
  | hyphenated => 36
  | braced => 38
  | urn => 45

theorem length_injective : Function.Injective length := fun a b => by
  cases a <;> cases b <;> decide

theorem Writes.length_eq {spelling : Spelling} (h : spelling.Writes digits cs)
    (hdigits : IsDigits digits) : cs.length = spelling.length := by
  have hhyphens := length_hyphens hdigits
  cases spelling with
  | plain =>
    obtain rfl : cs = digits := h
    exact hdigits.length
  | hyphenated =>
    obtain rfl : cs = hyphens digits := h
    exact hhyphens
  | braced =>
    obtain rfl : cs = '\x7b' :: (hyphens digits ++ ['\x7d']) := h
    rw [List.length_cons, List.length_append, hhyphens]
    rfl
  | urn =>
    obtain ⟨scheme, hscheme, rfl⟩ := h
    have hnine : scheme.length = 9 := by simpa using congrArg List.length hscheme
    rw [List.length_append, hhyphens, hnine]
    rfl

end Spelling

theorem uuidDigits?_eq_some : Rule.uuidDigits? cs = some digits ↔
    IsDigits digits ∧ ∃ spelling, Spelling.Writes digits cs spelling := by
  constructor
  · intro h
    unfold Rule.uuidDigits? at h
    -- the four spellings, told apart by their lengths
    split_ifs at h with hlength hhex hlength' hlength'' hbraces hscheme
    · obtain rfl := Option.some.inj h
      exact ⟨⟨hlength, List.all_eq_true.mp hhex⟩, .plain, rfl⟩
    · obtain ⟨hdigits, hcs⟩ := hyphenatedDigits?_eq_some.mp h
      exact ⟨hdigits, .hyphenated, hcs⟩
    · obtain ⟨hdigits, hinner⟩ := hyphenatedDigits?_eq_some.mp h
      rw [Bool.and_eq_true, decide_eq_true_eq, decide_eq_true_eq] at hbraces
      obtain ⟨hfirst, hlast⟩ := hbraces
      obtain ⟨front, rfl⟩ := List.getLast?_eq_some_iff.mp hlast
      cases front with
      | nil => cases hlength''
      | cons c inner =>
        obtain rfl := Option.some.inj hfirst
        rw [List.cons_append, List.drop_one, List.tail_cons, List.dropLast_concat] at hinner
        exact ⟨hdigits, .braced, by rw [hinner]; rfl⟩
    · obtain ⟨hdigits, hcs⟩ := hyphenatedDigits?_eq_some.mp h
      exact ⟨hdigits, .urn, cs.take 9, hscheme, by rw [← hcs, List.take_append_drop]⟩
  · rintro ⟨hdigits, spelling, h⟩
    have hsome := hyphenatedDigits?_eq_some.mpr ⟨hdigits, rfl⟩
    have hlength := h.length_eq hdigits
    unfold Rule.uuidDigits?
    rw [hlength]
    cases spelling with
    | plain =>
      obtain rfl : cs = digits := h
      exact if_pos (List.all_eq_true.mpr hdigits.isHexDigit)
    | hyphenated =>
      obtain rfl : cs = hyphens digits := h
      exact hsome
    | braced =>
      have hcs : cs = '\x7b' :: (hyphens digits ++ ['\x7d']) := h
      have hlast : cs.getLast? = some '\x7d' := by
        rw [hcs, ← List.cons_append, List.getLast?_concat]
      have hinner : cs.tail.dropLast = hyphens digits := by
        rw [hcs, List.tail_cons, List.dropLast_concat]
      have hfirst : cs.head? = some '\x7b' := by rw [hcs, List.head?_cons]
      simp [Spelling.length, hfirst, hlast, hinner, hsome]
    | urn =>
      obtain ⟨scheme, hscheme, hcs⟩ := h
      have hnine : scheme.length = 9 := by simpa using congrArg List.length hscheme
      have htake : cs.take 9 = scheme := by rw [hcs, List.take_left' hnine]
      have hdrop : cs.drop 9 = hyphens digits := by rw [hcs, List.drop_left' hnine]
      simp [Spelling.length, htake, hscheme, hdrop, hsome]

/-- The text is the prefix with the digits of an identifier, written in this way. -/
structure Writes (id : String) (spelling : Spelling) (digits : List Char) : Prop where
  isDigits : IsDigits digits
  exists_chars : ∃ cs, spelling.Writes digits cs ∧ id.toList = Rule.trackingIdPrefix.toList ++ cs

theorem isTrackingId_iff {id : String} : Rule.isTrackingId id = true ↔
    ∃ spelling digits, Writes id spelling digits ∧ digits[12]? = some '4' := by
  have hversion : ∀ c : Char, Url.hexValue? c = some 4 ↔ c = '4' := fun c =>
    ⟨fun h => (of_hexValue? h).2 rfl, fun h => h ▸ rfl⟩
  have hfour : ∀ cs, Rule.uuidVersion? cs = some 4 ↔
      ∃ digits, Rule.uuidDigits? cs = some digits ∧ digits[12]? = some '4' := fun cs => by
    simp only [Rule.uuidVersion?, Option.bind_eq_some_iff, hversion, exists_eq_right]
  unfold Rule.isTrackingId
  split
  · rename_i rest hrest
    rw [Text.dropPrefix?_eq_some] at hrest
    rw [decide_eq_true_eq, hfour]
    constructor
    · rintro ⟨digits, hdigits, hdigit⟩
      obtain ⟨hdigits, spelling, hwrites⟩ := uuidDigits?_eq_some.mp hdigits
      exact ⟨spelling, digits, ⟨hdigits, rest, hwrites, hrest⟩, hdigit⟩
    · rintro ⟨spelling, digits, ⟨hdigits, cs, hwrites, hcs⟩, hdigit⟩
      obtain rfl := List.append_cancel_left (hrest.symm.trans hcs)
      exact ⟨digits, uuidDigits?_eq_some.mpr ⟨hdigits, spelling, hwrites⟩, hdigit⟩
  · rename_i hnone
    simp only [Bool.false_eq_true, false_iff]
    rintro ⟨spelling, digits, ⟨_, cs, _, hcs⟩, _⟩
    cases hnone.symm.trans (Text.dropPrefix?_eq_some.mpr hcs)

/-! ### The same identifier twice -/

namespace Spelling

/-- The text in lower case. -/
def lower (digits : List Char) : Spelling → List Char
  | plain => digits
  | hyphenated => hyphens digits
  | braced => '\x7b' :: (hyphens digits ++ ['\x7d'])
  | urn => "urn:uuid:".toList ++ hyphens digits

theorem Writes.map_toLower {spelling : Spelling} (h : spelling.Writes digits cs) :
    cs.map Char.toLower = spelling.lower (digits.map Char.toLower) := by
  have hhyphens := map_hyphens (f := Char.toLower) (by decide) digits
  cases spelling with
  | plain =>
    obtain rfl : cs = digits := h
    rfl
  | hyphenated =>
    obtain rfl : cs = hyphens digits := h
    exact hhyphens
  | braced =>
    obtain rfl : cs = '\x7b' :: (hyphens digits ++ ['\x7d']) := h
    rw [List.map_cons, List.map_append, hhyphens]
    rfl
  | urn =>
    obtain ⟨scheme, hscheme, rfl⟩ := h
    rw [List.map_append, hscheme, hhyphens]
    rfl

end Spelling

namespace Writes
variable {id id' : String} {spelling spelling' : Spelling} {digits' : List Char}

theorem length_eq (h : Writes id spelling digits) : id.toList.length =
    Rule.trackingIdPrefix.toList.length + spelling.length := by
  obtain ⟨cs, hcs, hid⟩ := h.exists_chars
  rw [hid, List.length_append, hcs.length_eq h.isDigits]

theorem unique (h : Writes id spelling digits) (h' : Writes id spelling' digits') :
    spelling = spelling' ∧ digits = digits' := by
  refine ⟨Spelling.length_injective (Nat.add_left_cancel (h.length_eq.symm.trans h'.length_eq)), ?_⟩
  obtain ⟨cs, hcs, hid⟩ := h.exists_chars
  obtain ⟨cs', hcs', hid'⟩ := h'.exists_chars
  obtain rfl := List.append_cancel_left (hid.symm.trans hid')
  exact Option.some.inj <| (uuidDigits?_eq_some.mpr ⟨h.isDigits, spelling, hcs⟩).symm.trans
    (uuidDigits?_eq_some.mpr ⟨h'.isDigits, spelling', hcs'⟩)

theorem map_toLower_eq_iff (h : Writes id spelling digits) (h' : Writes id' spelling' digits')
    (hbits : bits digits = bits digits') :
    id.toList.map Char.toLower = id'.toList.map Char.toLower ↔ spelling = spelling' := by
  constructor
  · intro hlower
    have hlength := congrArg List.length hlower
    rw [List.length_map, List.length_map, h.length_eq, h'.length_eq] at hlength
    exact Spelling.length_injective (Nat.add_left_cancel hlength)
  · rintro rfl
    obtain ⟨cs, hcs, hid⟩ := h.exists_chars
    obtain ⟨cs', hcs', hid'⟩ := h'.exists_chars
    rw [hid, hid', List.map_append, List.map_append, hcs.map_toLower, hcs'.map_toLower,
      map_toLower_eq h.isDigits.isHexDigit, map_toLower_eq h'.isDigits.isHexDigit, hbits]

end Writes

theorem status_trackingIdFormat {attributes : Attributes} {cv : Vocabularies} {id : String}
    (hid : attributes.get? "tracking_id" = some id) :
    (Rule.trackingIdFormat.run attributes cv).status = .pass ↔ Rule.isTrackingId id = true := by
  simp only [Rule.run, Rule.check, hid]
  by_cases h : Rule.isTrackingId id = true <;> simp [h, Finding.pass, Finding.fail]

/-- A tracking id passes in four spellings; what names the same identifier differs in more than the
case of letters exactly if it has another spelling. -/
theorem trackingIds_in_four_spellings :
    (∀ (attributes : Attributes) (cv : Vocabularies) (id : String),
      attributes.get? "tracking_id" = some id →
        ((Rule.trackingIdFormat.run attributes cv).status = .pass ↔
          ∃ spelling digits, Writes id spelling digits ∧ digits[12]? = some '4')) ∧
    ∀ (id id' : String) (spelling spelling' : Spelling) (digits digits' : List Char),
      Writes id spelling digits → Writes id' spelling' digits' → bits digits = bits digits' →
        (id.toList.map Char.toLower = id'.toList.map Char.toLower ↔ spelling = spelling') :=
  ⟨fun _ _ _ hid => (status_trackingIdFormat hid).trans isTrackingId_iff,
    fun _ _ _ _ _ _ h h' hbits => h.map_toLower_eq_iff h' hbits⟩

def sampleDigits : List Char := "8c5a4d7e13b04e5e9bd52a8f2c3c1f7a".toList

theorem isDigits_sampleDigits : IsDigits sampleDigits :=
  ⟨rfl, List.all_eq_true.mp (by decide +kernel)⟩

theorem trackingIds_in_four_spellings_sample :
    (Rule.trackingIdFormat.run
      (Dict.ofList [("tracking_id", "hdl:21.14100/URN:uuid:8c5a4d7e-13b0-4e5e-9bd5-2a8f2c3c1f7a")])
      FileValidation.sampleVocabularies).status = .pass ∧
    "hdl:21.14100/8C5A4D7E13B04E5E9BD52A8F2C3C1F7A".toList.map Char.toLower =
      "hdl:21.14100/8c5a4d7e13b04e5e9bd52a8f2c3c1f7a".toList.map Char.toLower := by
  obtain ⟨hpass, hsame⟩ := trackingIds_in_four_spellings
  constructor
  · refine (hpass _ _ _ rfl).mpr ⟨.urn, sampleDigits, ⟨isDigits_sampleDigits, ?_⟩, rfl⟩
    exact ⟨_, ⟨"URN:uuid:".toList, by decide +kernel, rfl⟩, by decide +kernel⟩
  · have hdigits : IsDigits "8C5A4D7E13B04E5E9BD52A8F2C3C1F7A".toList :=
      ⟨rfl, List.all_eq_true.mp (by decide +kernel)⟩
    have hupper : Writes "hdl:21.14100/8C5A4D7E13B04E5E9BD52A8F2C3C1F7A" .plain
      "8C5A4D7E13B04E5E9BD52A8F2C3C1F7A".toList := ⟨hdigits, _, rfl, by decide +kernel⟩
    have hlower : Writes "hdl:21.14100/8c5a4d7e13b04e5e9bd52a8f2c3c1f7a" .plain sampleDigits :=
      ⟨isDigits_sampleDigits, _, rfl, by decide +kernel⟩
    exact (hsame _ _ _ _ _ _ hupper hlower (by decide +kernel)).mpr rfl

/-- The same identifier without hyphens and with them: both texts pass. -/
theorem plain_and_hyphenated_pass :
    (Rule.trackingIdFormat.run
      (Dict.ofList [("tracking_id", "hdl:21.14100/8c5a4d7e13b04e5e9bd52a8f2c3c1f7a")])
      FileValidation.sampleVocabularies).status = .pass ∧
    (∀ digits, ¬Writes "hdl:21.14100/8c5a4d7e13b04e5e9bd52a8f2c3c1f7a" .hyphenated digits) ∧
    (Rule.trackingIdFormat.run
      (Dict.ofList [("tracking_id", "hdl:21.14100/8c5a4d7e-13b0-4e5e-9bd5-2a8f2c3c1f7a")])
      FileValidation.sampleVocabularies).status = .pass ∧
    Writes "hdl:21.14100/8c5a4d7e13b04e5e9bd52a8f2c3c1f7a" .plain sampleDigits ∧
    Writes "hdl:21.14100/8c5a4d7e-13b0-4e5e-9bd5-2a8f2c3c1f7a" .hyphenated sampleDigits ∧
    "hdl:21.14100/8c5a4d7e13b04e5e9bd52a8f2c3c1f7a".toList.map Char.toLower ≠
      "hdl:21.14100/8c5a4d7e-13b0-4e5e-9bd5-2a8f2c3c1f7a".toList.map Char.toLower := by
  have hplain : Writes "hdl:21.14100/8c5a4d7e13b04e5e9bd52a8f2c3c1f7a" .plain sampleDigits :=
    ⟨isDigits_sampleDigits, _, rfl, by decide +kernel⟩
  have hhyphenated : Writes "hdl:21.14100/8c5a4d7e-13b0-4e5e-9bd5-2a8f2c3c1f7a" .hyphenated
    sampleDigits := ⟨isDigits_sampleDigits, _, rfl, by decide +kernel⟩
  refine ⟨(status_trackingIdFormat rfl).mpr (isTrackingId_iff.mpr ⟨_, _, hplain, rfl⟩),
    fun digits h => ?_,
    (status_trackingIdFormat rfl).mpr (isTrackingId_iff.mpr ⟨_, _, hhyphenated, rfl⟩),
    hplain, hhyphenated, by decide +kernel⟩
  cases (hplain.unique h).1

end TrackingId
end ForcingData
