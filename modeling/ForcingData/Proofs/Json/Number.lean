import ForcingData.Json.Parser

/-! # Whole numbers in JSON, there and back

`parseLexeme_int`: the digits that are written for a number of 64 bits are read as this number,
unless more digits, a point or an exponent follow. -/

namespace ForcingData.Json

/-- What may follow a number. -/
def EndsNumber (rest : List Char) : Prop :=
  ∀ c, rest.head? = some c → isDecimal c = false ∧ c ≠ '.' ∧ c ≠ 'e' ∧ c ≠ 'E'

/-! ### Digits -/

theorem isDecimal_of_isDigit {c : Char} (h : c.isDigit = true) : isDecimal c = true := by
  simpa [Char.isDigit, isDecimal, Char.le_def] using h

theorem isDecimal_of_mem_toDigits {m : Nat} {c : Char} (h : c ∈ Nat.toDigits 10 m) :
    isDecimal c = true :=
  isDecimal_of_isDigit (Nat.isDigit_of_mem_toDigits (by decide) (by decide) h)

theorem spanDigits_append {ds rest : List Char} (hds : ∀ c ∈ ds, isDecimal c = true)
    (hrest : ∀ c, rest.head? = some c → isDecimal c = false) :
    spanDigits (ds ++ rest) = (ds.map fun c => c.toNat - '0'.toNat, rest) := by
  have htake : rest.takeWhile isDecimal = [] ∧ rest.dropWhile isDecimal = rest := by
    cases rest with
    | nil => exact ⟨rfl, rfl⟩
    | cons c rest =>
      have hc := hrest c rfl
      exact ⟨List.takeWhile_cons_of_neg (by simp [hc]), List.dropWhile_cons_of_neg (by simp [hc])⟩
  rw [spanDigits, List.takeWhile_append_of_pos hds, List.dropWhile_append_of_pos hds, htake.1,
    htake.2, List.append_nil]

/-- The digits that a number is written with. -/
def decimalDigits (m : Nat) : List Nat := (Nat.toDigits 10 m).map fun c => c.toNat - '0'.toNat

theorem decimalDigits_of_lt {m : Nat} (h : m < 10) : decimalDigits m = [m] := by
  rw [decimalDigits, Nat.toDigits_of_lt_base h]
  exact congrArg (· :: []) (Nat.toNat_digitChar_sub_48_of_lt_ten h)

theorem decimalDigits_of_le {m : Nat} (h : 10 ≤ m) :
    decimalDigits m = decimalDigits (m / 10) ++ [m % 10] := by
  rw [decimalDigits, Nat.toDigits_of_base_le (by decide) h, List.map_append]
  exact congrArg (_ ++ · :: [])
    (Nat.toNat_digitChar_sub_48_of_lt_ten (Nat.mod_lt m (by decide)))

theorem decimalDigits_ne_nil (m : Nat) : decimalDigits m ≠ [] := by
  simp [decimalDigits]

theorem length_decimalDigits {m : Nat} (h : (decimalDigits m).head? = some 0) :
    (decimalDigits m).length = 1 := by
  induction m using Nat.strongRecOn with
  | _ m ih =>
    by_cases hm : m < 10
    · rw [decimalDigits_of_lt hm]
      rfl
    · have hne := decimalDigits_ne_nil (m / 10)
      rw [decimalDigits_of_le (by omega), List.head?_append, List.head?_eq_some_head hne] at h
      have hlen := ih (m / 10) (by omega) ((List.head?_eq_some_head hne).trans h)
      have hlt : m / 10 < 10 := by
        rw [decimalDigits, List.length_map] at hlen
        exact (Nat.length_toDigits_le_iff (by decide) (by decide)).mp (Nat.le_of_eq hlen)
      have hhead : m / 10 = 0 := by simpa [decimalDigits_of_lt hlt] using h
      omega

theorem foldl_decimalDigits (m : Nat) :
    (decimalDigits m).foldl (fun n d => n * 10 + d) 0 = m := by
  have h := Nat.ofDigitChars_ten_toDigits (n := m)
  rw [Nat.ofDigitChars_eq_foldl] at h
  rw [decimalDigits, List.foldl_map]
  simpa only [Nat.mul_comm] using h

theorem le_foldl_digits (ds : List Nat) : ∀ s, s ≤ ds.foldl (fun n d => n * 10 + d) s := by
  induction ds with
  | nil => exact Nat.le_refl
  | cons d ds ih =>
    intro s
    have := ih (s * 10 + d)
    rw [List.foldl_cons]
    omega

theorem significand_eq : ∀ (ds : List Nat) (s : Nat),
    ds.foldl (fun n d => n * 10 + d) s ≤ Lexeme.maxSignificand →
      Lexeme.significand s ds = (ds.foldl (fun n d => n * 10 + d) s, [])
  | [], _, _ => rfl
  | d :: ds, s, h => by
    rw [List.foldl_cons] at h
    rw [Lexeme.significand, if_pos (Nat.le_trans (le_foldl_digits ds _) h)]
    exact significand_eq ds _ h

/-! ### Numbers -/

theorem chars_int (m : Nat) : (Number.int m).chars = Nat.toDigits 10 m := by
  show (toString (m : Int)).toList = _
  rw [show toString (m : Int) = m.repr from rfl, Nat.toList_repr]

theorem parseExponent_of_ends {rest : List Char} (h : EndsNumber rest) :
    parseExponent rest = some (none, rest) := by
  cases rest with
  | nil => rfl
  | cons c rest =>
    obtain ⟨_, _, he, hE⟩ := h c rfl
    simp [parseExponent, he, hE]

theorem parseLexeme_int (m : Nat) {rest : List Char} (h : EndsNumber rest) :
    parseLexeme ((Number.int m).chars ++ rest) =
      some (⟨false, decimalDigits m, none, none⟩, rest) := by
  have hspan : spanDigits (Nat.toDigits 10 m ++ rest) = (decimalDigits m, rest) :=
    spanDigits_append (fun c hc => isDecimal_of_mem_toDigits hc) fun c hc => (h c hc).1
  have hzero : ¬(decimalDigits m = [] ∨
      (decimalDigits m).head? = some 0 ∧ 1 < (decimalDigits m).length) := by
    rintro (hnil | ⟨hhead, hlen⟩)
    · exact decimalDigits_ne_nil m hnil
    · have := length_decimalDigits hhead
      omega
  -- no sign, no point and no exponent: the digits are all there is
  have hminus : ∀ cs, Nat.toDigits 10 m ++ rest ≠ '-' :: cs := by
    intro cs hcs
    obtain ⟨c, ds, hds⟩ := List.exists_cons_of_ne_nil (Nat.toDigits_ne_nil (n := m) (b := 10))
    rw [hds, List.cons_append] at hcs
    have hc := isDecimal_of_mem_toDigits (m := m) (c := c) (by simp [hds])
    rw [(List.cons.inj hcs).1] at hc
    cases hc
  have hpoint : ∀ cs, rest ≠ '.' :: cs := by
    rintro cs rfl
    exact (h '.' rfl).2.1 rfl
  rw [chars_int]
  unfold parseLexeme
  split
  rename_i hsign
  split at hsign
  · exact absurd ‹_› (hminus _)
  · obtain ⟨rfl, rfl⟩ := Prod.mk.inj hsign
    simp only [hspan]
    rw [if_neg (by simpa using hzero)]
    simp only [Option.bind_eq_bind, Option.bind_some, parseExponent_of_ends h]
    rfl

theorem number?_int {m : Nat} (h : m ≤ Lexeme.maxSignificand) :
    (Lexeme.mk false (decimalDigits m) none none).number? = some (.int m) := by
  have hfold := foldl_decimalDigits m
  have hsig := significand_eq (decimalDigits m) 0 (by rw [hfold]; exact h)
  rw [hfold] at hsig
  simp [Lexeme.number?, hsig]

end ForcingData.Json
