import ForcingData.Json.Parser
import ForcingData.Proofs.Runs

/-! # Control characters

A control character that is no blank stands nowhere in JSON: a reader that comes upon one stops
with an error, so what it has read when it succeeds holds none (`Passes`, for each reader), and a
whole text that is JSON holds none (`Tree.notMem_of_parse?`). -/

namespace ForcingData.Json

/-- A character that no value may hold and that does not separate values. -/
def IsControl (c : Char) : Prop := c.toNat < 0x20 ∧ isSpace c = false

/-- What is read does not hold this character. -/
def Passes {α : Type} (c : Char) (read : List Char → Option (α × List Char)) : Prop :=
  ∀ ⦃cs rest a⦄, read cs = some (a, rest) → c ∈ cs → c ∈ rest

theorem Passes.map {α β : Type} {c : Char} {read : List Char → Option (α × List Char)}
    (h : Passes c read) (f : α → β) :
    Passes c fun cs => (read cs).map fun (a, rest) => (f a, rest) := by
  intro cs rest b hb
  obtain ⟨⟨a, rest'⟩, ha, he⟩ := Option.map_eq_some_iff.mp hb
  obtain ⟨-, rfl⟩ := Prod.mk.inj he
  exact h ha

section
variable {c : Char} (hc : IsControl c)
include hc

theorem IsControl.ne {d : Char} (hd : 0x20 ≤ d.toNat) : c ≠ d := by
  rintro rfl
  exact absurd hc.1 (by omega)

theorem IsControl.not_le {d : Char} (hd : 0x20 ≤ d.toNat) : ¬d ≤ c := fun h =>
  absurd hc.1 (by have : d.toNat ≤ c.toNat := h; omega)

theorem IsControl.mem_skipSpace {cs : List Char} (h : c ∈ cs) : c ∈ skipSpace cs :=
  mem_dropWhile hc.2 h

/-! ### Texts -/

theorem IsControl.ne_of_hexDigit? {d : Char} {n : Nat} (h : hexDigit? d = some n) : c ≠ d := by
  rintro rfl
  simp [hexDigit?, hc.not_le] at h

theorem IsControl.ne_of_escaped? {d : Char} {n : Nat} (h : escaped? d = some n) : c ≠ d := by
  rintro rfl
  unfold escaped? at h
  split at h <;> first | exact absurd rfl (hc.ne (by decide)) | cases h

theorem textUnits_passes : Passes c textUnits := by
  intro cs rest units h hm
  -- no escape and no plain character that is read is a control character
  induction cs using textUnits.induct generalizing units rest with
  | case1 => cases h
  | case2 cs =>
    simp only [textUnits, Option.some.injEq, Prod.mk.injEq] at h
    simpa [hc.ne, ← h.2] using hm
  | case3 a b d e cs ih =>
    simp only [textUnits, Option.bind_eq_bind, Option.bind_eq_some_iff] at h
    obtain ⟨n, hn, ⟨units', rest'⟩, ht, he⟩ := h
    obtain rfl := (Prod.mk.inj (Option.some.inj he)).2
    simp only [hex4?, Option.bind_eq_bind, Option.bind_eq_some_iff] at hn
    obtain ⟨_, ha, _, hb, _, hd, _, he, -⟩ := hn
    refine ih ht ?_
    simpa [hc.ne, hc.ne_of_hexDigit? ha, hc.ne_of_hexDigit? hb, hc.ne_of_hexDigit? hd,
      hc.ne_of_hexDigit? he] using hm
  | case4 e cs hu ih =>
    simp only [textUnits, Option.bind_eq_bind, Option.bind_eq_some_iff] at h
    obtain ⟨n, hn, ⟨units', rest'⟩, ht, he⟩ := h
    obtain rfl := (Prod.mk.inj (Option.some.inj he)).2
    refine ih ht ?_
    simpa [hc.ne, hc.ne_of_escaped? hn] using hm
  | case5 d cs _ _ _ hd =>
    simp [textUnits, hd] at h
  | case6 d cs _ _ _ hd ih =>
    simp only [textUnits, if_neg hd, Option.bind_eq_bind, Option.bind_eq_some_iff] at h
    obtain ⟨⟨units', rest'⟩, ht, he⟩ := h
    obtain rfl := (Prod.mk.inj (Option.some.inj he)).2
    refine ih ht ?_
    simpa [hc.ne (Nat.le_of_not_lt hd)] using hm

theorem parseText_passes : Passes c parseText :=
  (textUnits_passes hc).map fun units => (unitChars? units).map String.ofList

/-! ### Numbers -/

theorem IsControl.mem_spanDigits {cs : List Char} (h : c ∈ cs) : c ∈ (spanDigits cs).2 :=
  mem_dropWhile (by simp [isDecimal, hc.not_le]) h

theorem parseExponent_passes : Passes c parseExponent := by
  intro cs rest x h hm
  unfold parseExponent at h
  split at h
  · rename_i e cs
    split at h
    · rename_i he
      have hcs : c ∈ cs := by
        have : c ≠ e := by
          rintro rfl
          simp [hc.ne] at he
        simpa [this] using hm
      split at h
      rename_i down unsigned hsign
      have hunsigned : c ∈ unsigned := by
        split at hsign <;> obtain ⟨-, rfl⟩ := Prod.mk.inj hsign <;> simpa [hc.ne] using hcs
      have hdigits := hc.mem_spanDigits hunsigned
      split at h
      · cases h
      · rename_i hspan
        rw [hspan] at hdigits
        cases h
        exact hdigits
    · cases h
      exact hm
  · cases hm

theorem parseLexeme_passes : Passes c parseLexeme := by
  intro cs rest x h hm
  unfold parseLexeme at h
  split at h
  rename_i negative unsigned hsign
  have hunsigned : c ∈ unsigned := by
    split at hsign <;> obtain ⟨-, rfl⟩ := Prod.mk.inj hsign <;> simpa [hc.ne] using hm
  have hwhole := hc.mem_spanDigits hunsigned
  split at h
  rename_i whole left hspan
  rw [hspan] at hwhole
  extract_lets exponent fraction at h
  -- the exponent is read after the fraction, or after the whole part if there is none
  have hexponent {q : Option (List Nat) × List Char} (hq : c ∈ q.2)
      (h : some q >>= exponent = some (x, rest)) : c ∈ rest := by
    obtain ⟨⟨e, rest'⟩, he, hx⟩ : ∃ y, parseExponent q.2 = some y ∧ _ :=
      Option.bind_eq_some_iff.mp h
    obtain rfl := (Prod.mk.inj (Option.some.inj hx)).2
    exact parseExponent_passes hc he hq
  split at h
  · cases h
  · unfold fraction at h
    split at h
    · rename_i digits
      have hdigits : c ∈ (spanDigits digits).2 :=
        hc.mem_spanDigits (by simpa [hc.ne] using hwhole)
      split at h
      · cases h
      · rename_i hspan
        rw [hspan] at hdigits
        exact hexponent hdigits h
    · exact hexponent hwhole h

/-! ### Values -/

mutual

theorem parseTree_passes (fuel : Nat) : Passes c (parseTree fuel) := by
  cases fuel with
  | zero => exact fun _ _ _ h => by cases h
  | succ fuel =>
    intro cs rest t h hm
    have hcs := hc.mem_skipSpace hm
    unfold parseTree at h
    split at h
    -- `null`, `true` and `false`
    iterate 3
      rename_i heq
      cases h
      simpa [heq, hc.ne] using hcs
    · rename_i heq
      exact (parseText_passes hc).map Tree.text h (by simpa [heq, hc.ne] using hcs)
    · rename_i after heq
      have hafter : c ∈ skipSpace after := hc.mem_skipSpace (by simpa [heq, hc.ne] using hcs)
      split at h
      · rename_i heq
        cases h
        simpa [heq, hc.ne] using hafter
      · exact (parseItems_passes fuel).map Tree.array h hafter
    · rename_i after heq
      have hafter : c ∈ skipSpace after := hc.mem_skipSpace (by simpa [heq, hc.ne] using hcs)
      split at h
      · rename_i heq
        cases h
        simpa [heq, hc.ne] using hafter
      · exact (parseMembers_passes fuel).map Tree.object h hafter
    · exact (parseLexeme_passes hc).map (fun l => Tree.number l.number?) h hcs

theorem parseItems_passes (fuel : Nat) : Passes c (parseItems fuel) := by
  cases fuel with
  | zero => exact fun _ _ _ h => by cases h
  | succ fuel =>
    intro cs rest items h hm
    simp only [parseItems, Option.bind_eq_bind, Option.bind_eq_some_iff] at h
    obtain ⟨⟨t, after⟩, ht, h⟩ := h
    have hafter := hc.mem_skipSpace (parseTree_passes fuel ht hm)
    split at h
    · rename_i heq
      cases h
      simpa [heq, hc.ne] using hafter
    · rename_i heq
      obtain ⟨⟨items', rest'⟩, hitems, h⟩ := Option.bind_eq_some_iff.mp h
      cases h
      exact parseItems_passes fuel hitems (by simpa [heq, hc.ne] using hafter)
    · cases h

theorem parseMembers_passes (fuel : Nat) : Passes c (parseMembers fuel) := by
  cases fuel with
  | zero => exact fun _ _ _ h => by cases h
  | succ fuel =>
    intro cs rest members h hm
    have hcs := hc.mem_skipSpace hm
    unfold parseMembers at h
    split at h
    · rename_i afterQuote heq
      simp only [Option.bind_eq_bind, Option.bind_eq_some_iff] at h
      obtain ⟨⟨name, afterName⟩, hname, h⟩ := h
      have hcolon := hc.mem_skipSpace
        (parseText_passes hc hname (by simpa [heq, hc.ne] using hcs))
      split at h
      · rename_i heq
        obtain ⟨⟨t, after⟩, ht, h⟩ := Option.bind_eq_some_iff.mp h
        have hafter := hc.mem_skipSpace
          (parseTree_passes fuel ht (by simpa [heq, hc.ne] using hcolon))
        split at h
        · rename_i heq
          cases h
          simpa [heq, hc.ne] using hafter
        · rename_i heq
          obtain ⟨⟨members', rest'⟩, hmembers, h⟩ := Option.bind_eq_some_iff.mp h
          cases h
          exact parseMembers_passes fuel hmembers (by simpa [heq, hc.ne] using hafter)
        · cases h
      · cases h
    · cases h

end

theorem Tree.notMem_of_parse? {s : String} {t : Tree} (h : Tree.parse? s = some t) :
    c ∉ s.toList := by
  intro hm
  unfold Tree.parse? Tree.parseChars? at h
  split at h
  · rename_i t' rest hparse
    have hrest := hc.mem_skipSpace (parseTree_passes hc _ hparse hm)
    split at h
    · simp_all
    · cases h
  · cases h

end
end ForcingData.Json
