import ForcingData.Json.Parser
import ForcingData.Json.Printer

/-! # Texts in JSON, there and back

`parseText_textChars`: the text that is written for a string is read as this string, whatever
follows it. -/

namespace ForcingData.Json

theorem hex4?_hexDigitChar {n : Nat} (h : n < 0x20) :
    hex4? '0' '0' (hexDigitChar (n / 16)) (hexDigitChar n) = some n := by
  revert h
  revert n
  decide

/-- What reading one more unit does. -/
def consUnit (n : Nat) : List Nat × List Char → List Nat × List Char
  | (units, rest) => (n :: units, rest)

theorem textUnits_escape {e : Char} {n : Nat} (h : escaped? e = some n) (cs : List Char) :
    textUnits ('\\' :: e :: cs) = (textUnits cs).map (consUnit n) := by
  rw [textUnits.eq_def]
  split
  · contradiction
  · simp_all
  · rename_i heq
    obtain ⟨rfl, _⟩ : e = 'u' ∧ _ := by simpa using heq
    simp [escaped?] at h
  · rename_i heq
    obtain ⟨rfl, rfl⟩ := by simpa using heq
    simp only [h, Option.bind_eq_bind, Option.bind_some]
    cases textUnits cs <;> rfl
  · rename_i hnot heq
    obtain ⟨rfl, rfl⟩ := List.cons.inj heq
    exact absurd rfl (hnot e cs rfl)

theorem textUnits_hex {n : Nat} (h : n < 0x20) (cs : List Char) :
    textUnits ('\\' :: 'u' :: '0' :: '0' :: hexDigitChar (n / 16) :: hexDigitChar n :: cs) =
      (textUnits cs).map (consUnit n) := by
  simp only [textUnits, hex4?_hexDigitChar h, Option.bind_eq_bind, Option.bind_some]
  cases textUnits cs <;> rfl

theorem textUnits_plain {c : Char} (hquote : c ≠ '"') (hslash : c ≠ '\\') (hc : ¬c.toNat < 0x20)
    (cs : List Char) : textUnits (c :: cs) = (textUnits cs).map (consUnit c.toNat) := by
  rw [textUnits.eq_def]
  split
  · contradiction
  · simp_all
  · simp_all
  · simp_all
  · rename_i heq
    obtain ⟨rfl, rfl⟩ := List.cons.inj heq
    rw [if_neg hc]
    cases textUnits cs <;> rfl

theorem textUnits_escapeChar (c : Char) (cs : List Char) :
    textUnits (escapeChar c ++ cs) = (textUnits cs).map (consUnit c.toNat) := by
  -- the characters with a short escape, the other control characters, and all the rest
  unfold escapeChar
  split
  · subst_vars
    exact textUnits_escape (by rfl) cs
  split
  · subst_vars
    exact textUnits_escape (by rfl) cs
  split
  · subst_vars
    exact textUnits_escape (by rfl) cs
  split
  · subst_vars
    exact textUnits_escape (by rfl) cs
  split
  · subst_vars
    exact textUnits_escape (by rfl) cs
  split
  · rename_i hc
    exact textUnits_escape (by rw [hc]; rfl) cs
  split
  · rename_i hc
    exact textUnits_escape (by rw [hc]; rfl) cs
  split
  · rename_i hc
    exact textUnits_hex hc cs
  · rename_i hquote hslash _ _ _ _ _ hc
    exact textUnits_plain hquote hslash hc cs

theorem textUnits_escaped (cs rest : List Char) :
    textUnits (cs.flatMap escapeChar ++ '"' :: rest) = some (cs.map Char.toNat, rest) := by
  induction cs with
  | nil => rfl
  | cons c cs ih =>
    rw [List.flatMap_cons, List.append_assoc, textUnits_escapeChar, ih]
    rfl

theorem not_isSurrogate (c : Char) :
    isHighSurrogate c.toNat = false ∧ isLowSurrogate c.toNat = false := by
  have hvalid : c.toNat < 0xd800 ∨ 0xdfff < c.toNat ∧ c.toNat < 0x110000 := c.valid
  simp only [isHighSurrogate, isLowSurrogate, Bool.and_eq_false_iff, decide_eq_false_iff_not]
  omega

theorem unitChars?_map_toNat : ∀ cs : List Char, unitChars? (cs.map Char.toNat) = some cs
  | [] => rfl
  | [c] => by
    obtain ⟨hhigh, hlow⟩ := not_isSurrogate c
    simp [unitChars?, hhigh, hlow, Char.ofNat_toNat]
  | c :: d :: cs => by
    obtain ⟨hhigh, hlow⟩ := not_isSurrogate c
    have ih := unitChars?_map_toNat (d :: cs)
    rw [List.map_cons] at ih
    simp [unitChars?, hhigh, hlow, ih, Char.ofNat_toNat]

theorem parseText_escaped (s : String) (rest : List Char) :
    parseText (s.toList.flatMap escapeChar ++ '"' :: rest) = some (some s, rest) := by
  rw [parseText, textUnits_escaped, Option.map_some]
  simp only [unitChars?_map_toNat, Option.map_some, String.ofList_toList]

theorem textChars_append (s : String) (rest : List Char) :
    textChars s ++ rest = '"' :: (s.toList.flatMap escapeChar ++ '"' :: rest) := by
  simp [textChars]

theorem parseText_textChars (s : String) (rest : List Char) :
    parseText (textChars s ++ rest).tail = some (some s, rest) := by
  rw [textChars_append]
  exact parseText_escaped s rest

end ForcingData.Json
