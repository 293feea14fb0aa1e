import ForcingData.Url.Percent
import Mathlib.Data.List.Basic

/-! # Percent encoding, twice

What is escaped somewhere in a URL needs no escaping there any more (`isSpared_percentEncode`), so
escaping it again changes nothing (`percentEncode_of_isSpared`). Text without percent signs is
decoded to itself (`textOfBytes?_percentDecode`), and where percent signs are escaped, decoding
gives back what was encoded (`percentDecode_percentEncode`). -/

namespace ForcingData.Url

/-- The characters are all ones that stand for themselves. -/
def IsSpared (escape : Char → Bool) (cs : List Char) : Prop :=
  ∀ c ∈ cs, c.toNat < 0x80 ∧ escape c = false

/-- What escaping writes needs no escaping. -/
structure SparesEscapes (escape : Char → Bool) : Prop where
  sign : escape '%' = false
  digit : ∀ n < 16, escape (hexDigitUpper n) = false

section
variable {escape : Char → Bool} {cs : List Char}

theorem percentEncode_of_isSpared (h : IsSpared escape cs) : percentEncode escape cs = cs := by
  induction cs with
  | nil => rfl
  | cons c cs ih =>
    have ⟨⟨hascii, hplain⟩, htail⟩ := List.forall_mem_cons.mp h
    rw [percentEncode] at ih ⊢
    rw [List.flatMap_cons, ih htail, if_pos (by simp [hascii, hplain]), List.singleton_append]

theorem IsSpared.bne (h : IsSpared escape cs) {d : Char} (hd : escape d = true) :
    ∀ c ∈ cs, (c != d) = true := by
  intro c hc
  rw [bne_iff_ne]
  rintro rfl
  simpa [hd] using (h c hc).2

theorem hexDigitUpper_mod (n : Nat) : hexDigitUpper n = hexDigitUpper (n % 16) := by
  rw [hexDigitUpper, hexDigitUpper, Nat.mod_mod]

theorem isSpared_escapeByte (h : SparesEscapes escape) (b : UInt8) :
    IsSpared escape (escapeByte b) := by
  have hascii : ∀ n < 16, (hexDigitUpper n).toNat < 0x80 := by decide
  have hdigit (n : Nat) :
      (hexDigitUpper n).toNat < 0x80 ∧ escape (hexDigitUpper n) = false := by
    rw [hexDigitUpper_mod]
    have hlt := Nat.mod_lt n (show 0 < 16 by decide)
    exact ⟨hascii _ hlt, h.digit _ hlt⟩
  simp only [IsSpared, escapeByte, List.forall_mem_cons]
  exact ⟨⟨by decide, h.sign⟩, hdigit _, hdigit _, List.forall_mem_nil _⟩

theorem isSpared_percentEncode (h : SparesEscapes escape) (cs : List Char) :
    IsSpared escape (percentEncode escape cs) := by
  intro d hd
  obtain ⟨c, -, hd⟩ := List.mem_flatMap.mp hd
  split_ifs at hd with hplain
  · obtain rfl := List.mem_singleton.mp hd
    simpa using hplain
  · obtain ⟨b, -, hb⟩ := List.mem_flatMap.mp hd
    exact isSpared_escapeByte h b d hb

theorem mem_percentEncode {d : Char} (h : d ∈ percentEncode escape cs) :
    d ∈ cs ∨ d = '%' ∨ ∃ n < 16, d = hexDigitUpper n := by
  obtain ⟨c, hc, hd⟩ := List.mem_flatMap.mp h
  split_ifs at hd
  · exact .inl (List.mem_singleton.mp hd ▸ hc)
  · obtain ⟨b, -, hb⟩ := List.mem_flatMap.mp hd
    have hdigit (n : Nat) : ∃ m < 16, hexDigitUpper n = hexDigitUpper m :=
      ⟨n % 16, Nat.mod_lt n (by decide), hexDigitUpper_mod n⟩
    simp only [escapeByte, List.mem_cons, List.not_mem_nil, or_false] at hb
    rcases hb with rfl | rfl | rfl
    · exact .inr (.inl rfl)
    · exact .inr (.inr (hdigit _))
    · exact .inr (.inr (hdigit _))

end

/-! ### Places in a URL -/

theorem sparesEscapes_fragment : SparesEscapes escapedInFragment := ⟨by decide, by decide⟩

theorem sparesEscapes_path : SparesEscapes escapedInPath := ⟨by decide, by decide⟩

theorem sparesEscapes_userInfo : SparesEscapes escapedInUserInfo := ⟨by decide, by decide⟩

theorem sparesEscapes_query (special : Bool) : SparesEscapes (escapedInQuery special) := by
  cases special <;> exact ⟨by decide, by decide⟩

/-- The characters show, and none of them is a blank. -/
def IsVisible (cs : List Char) : Prop := ∀ c ∈ cs, 0x20 < c.toNat ∧ c.toNat < 0x7f

theorem isVisible_of_all {cs : List Char}
    (h : (cs.all fun c => 0x20 < c.toNat && c.toNat < 0x7f) = true) : IsVisible cs := by
  simpa [IsVisible] using h

theorem IsVisible.append {cs ds : List Char} (h : IsVisible cs) (h' : IsVisible ds) :
    IsVisible (cs ++ ds) :=
  fun c hc => (List.mem_append.mp hc).elim (h c) (h' c)

theorem IsSpared.isVisible {escape : Char → Bool} {cs : List Char} (h : IsSpared escape cs)
    (hcontrol : ∀ c, escapedControl c = true → escape c = true) (hblank : escape ' ' = true) :
    IsVisible cs := by
  intro c hc
  obtain ⟨hascii, hplain⟩ := h c hc
  have hnot : escapedControl c ≠ true := fun hescaped => by simp [hcontrol c hescaped] at hplain
  have hne : c ≠ ' ' := fun he => by simp [he, hblank] at hplain
  have hne' : c.toNat ≠ 0x20 := fun he => hne (Char.toNat_inj.mp he)
  simp only [escapedControl, ne_eq, Bool.or_eq_true, decide_eq_true_eq] at hnot
  omega

section
variable {cs : List Char}

theorem IsSpared.isVisible_fragment (h : IsSpared escapedInFragment cs) : IsVisible cs :=
  h.isVisible (fun c hc => by simp [escapedInFragment, hc]) (by decide)

theorem IsSpared.isVisible_path (h : IsSpared escapedInPath cs) : IsVisible cs :=
  h.isVisible (fun c hc => by simp [escapedInPath, escapedInFragment, hc]) (by decide)

theorem IsSpared.isVisible_userInfo (h : IsSpared escapedInUserInfo cs) : IsVisible cs :=
  h.isVisible (fun c hc => by simp [escapedInUserInfo, escapedInPath, escapedInFragment, hc])
    (by decide)

theorem IsSpared.isVisible_query {special : Bool} (h : IsSpared (escapedInQuery special) cs) :
    IsVisible cs :=
  h.isVisible (fun c hc => by simp [escapedInQuery, hc]) (by cases special <;> decide)

/-! ### Decoding -/

theorem percentDecode_of_not_mem (h : '%' ∉ cs) : percentDecode cs = utf8 cs := by
  induction cs with
  | nil => rfl
  | cons c cs ih =>
    obtain ⟨hne, htail⟩ := not_or.mp (List.mem_cons.not.mp h)
    rw [percentDecode, ih htail, utf8, utf8, List.flatMap_cons]
    exact fun _ _ _ he _ => hne he.symm

theorem textOfBytes?_utf8 (cs : List Char) : textOfBytes? (utf8 cs) = some (String.ofList cs) := by
  have hbytes : (⟨(utf8 cs).toArray⟩ : ByteArray) = (String.ofList cs).toByteArray := by
    apply ByteArray.ext
    simp [utf8, List.utf8Encode]
  rw [textOfBytes?, hbytes]
  exact dif_pos (String.ofList cs).isValidUTF8

theorem textOfBytes?_percentDecode (h : '%' ∉ cs) :
    textOfBytes? (percentDecode cs) = some (String.ofList cs) := by
  rw [percentDecode_of_not_mem h, textOfBytes?_utf8]

theorem utf8_inj {cs ds : List Char} (h : utf8 cs = utf8 ds) : cs = ds := by
  have htext := textOfBytes?_utf8 cs
  rw [h, textOfBytes?_utf8] at htext
  exact (String.ofList_inj.mp (Option.some.inj htext)).symm

theorem hexValue?_hexDigitUpper (n : Nat) : hexValue? (hexDigitUpper n) = some (n % 16) := by
  have hdigit : ∀ n < 16, hexValue? (hexDigitUpper n) = some n := by decide
  rw [hexDigitUpper_mod]
  exact hdigit _ (Nat.mod_lt n (by decide))

theorem percentDecode_escapeByte (b : UInt8) (rest : List Char) :
    percentDecode (escapeByte b ++ rest) = b :: percentDecode rest := by
  have hhigh : b.toNat / 16 % 16 = b.toNat / 16 := by
    have := b.toNat_lt
    omega
  have hbyte : b.toNat / 16 * 16 + b.toNat % 16 = b.toNat := by omega
  show percentDecode ('%' :: _ :: _ :: rest) = _
  simp only [percentDecode, hexValue?_hexDigitUpper, hhigh, hbyte]
  rw [Nat.toUInt8_eq, UInt8.ofNat_toNat]

theorem percentDecode_escapeBytes : ∀ (bytes : List UInt8) (rest : List Char),
    percentDecode (bytes.flatMap escapeByte ++ rest) = bytes ++ percentDecode rest
  | [], _ => rfl
  | b :: bytes, rest => by
    rw [List.flatMap_cons, List.append_assoc, percentDecode_escapeByte,
      percentDecode_escapeBytes bytes rest, List.cons_append]

theorem percentDecode_percentEncode {escape : Char → Bool} (h : escape '%' = true)
    (cs : List Char) : percentDecode (percentEncode escape cs) = utf8 cs := by
  induction cs with
  | nil => rfl
  | cons c cs ih =>
    rw [percentEncode, List.flatMap_cons, ← percentEncode, utf8, List.flatMap_cons, ← utf8]
    split
    · rename_i hc
      -- a plain character is no percent sign, so it is not taken for the start of an escape
      have hne : c ≠ '%' := by
        rintro rfl
        simp [h] at hc
      rw [List.singleton_append, percentDecode, ih]
      exact fun _ _ _ he _ => hne he
    · rw [percentDecode_escapeBytes, ih]

theorem percentEncode_inj {escape : Char → Bool} (h : escape '%' = true) {cs ds : List Char} :
    percentEncode escape cs = percentEncode escape ds ↔ cs = ds := by
  constructor
  · intro he
    apply utf8_inj
    rw [← percentDecode_percentEncode h cs, he, percentDecode_percentEncode h]
  · rintro rfl
    rfl

theorem encodeComponent_inj {s t : String} : encodeComponent s = encodeComponent t ↔ s = t := by
  rw [encodeComponent, encodeComponent, String.ofList_inj, percentEncode_inj (by decide),
    String.toList_inj]

theorem of_mem_encodeComponent {s : String} {d : Char} (h : d ∈ (encodeComponent s).toList) :
    isUnreserved d = true ∨ d = '%' := by
  have hdigit (n : Nat) : isUnreserved (hexDigitUpper n) = true := by
    have hall : ∀ n < 16, isUnreserved (hexDigitUpper n) = true := by decide
    rw [hexDigitUpper_mod]
    exact hall _ (Nat.mod_lt n (by decide))
  rw [encodeComponent, String.toList_ofList] at h
  obtain ⟨c, -, hd⟩ := List.mem_flatMap.mp h
  split_ifs at hd with hplain
  · obtain rfl := List.mem_singleton.mp hd
    simp only [Bool.not_not, Bool.and_eq_true] at hplain
    exact .inl hplain.2
  · obtain ⟨b, -, hb⟩ := List.mem_flatMap.mp hd
    simp only [escapeByte, List.mem_cons, List.not_mem_nil, or_false] at hb
    rcases hb with rfl | rfl | rfl
    · exact .inr rfl
    · exact .inl (hdigit _)
    · exact .inl (hdigit _)

theorem sign_mem_encodeComponent {s : String} {c : Char} (hc : c ∈ s.toList)
    (hescaped : isUnreserved c = false) : '%' ∈ (encodeComponent s).toList := by
  rw [encodeComponent, String.toList_ofList, percentEncode, List.mem_flatMap]
  refine ⟨c, hc, ?_⟩
  rw [if_neg (by simp [hescaped])]
  obtain ⟨b, hb⟩ : ∃ b, b ∈ String.utf8EncodeChar c :=
    List.exists_mem_of_ne_nil _ (String.utf8EncodeChar_ne_nil)
  exact List.mem_flatMap.mpr ⟨b, hb, List.mem_cons_self⟩

end

end ForcingData.Url
