import ForcingData.Text.Blank
import ForcingData.Text.Digit

/-! # Digits and forms

A digit of any script is no white space (`isBlank_eq_false_of_isDigit`). What has a form is a run of
digits and the character behind it, field after field (`hasForm_field`). -/

namespace ForcingData.Text

theorem inRanges_eq_false {ranges ranges' : List (Nat × Nat)} {n : Nat}
    (h : ∀ r ∈ ranges, ∀ r' ∈ ranges', r.2 < r'.1 ∨ r'.2 < r.1)
    (hn : inRanges ranges n = true) : inRanges ranges' n = false := by
  obtain ⟨r, hr, hin⟩ := List.any_eq_true.mp hn
  refine List.any_eq_false.mpr fun r' hr' => ?_
  have hapart := h r hr r' hr'
  simp only [Bool.and_eq_true, decide_eq_true_eq] at hin ⊢
  omega

theorem isDigit_eq_false_of_isBlank {c : Char} (h : isBlank c = true) : isDigit c = false :=
  inRanges_eq_false (by decide) h

theorem isBlank_eq_false_of_isDigit {c : Char} (h : isDigit c = true) : isBlank c = false := by
  rw [Bool.eq_false_iff]
  exact fun hblank => Bool.false_ne_true ((isDigit_eq_false_of_isBlank hblank).symm.trans h)

theorem isDigit_of_ascii {c : Char} (h : c.isDigit = true) : isDigit c = true := by
  have hrange : 48 ≤ c.toNat ∧ c.toNat ≤ 57 := by
    simpa [Char.isDigit, Char.le_def, UInt32.le_iff_toNat_le] using h
  exact List.any_eq_true.mpr ⟨(0x30, 0x39), List.mem_cons_self .., by simpa using hrange⟩

/-! ### Forms -/

theorem hasForm_nil {cs : List Char} : hasForm [] cs = true ↔ cs = [] := by
  cases cs <;> simp [hasForm]

/-- Digits, and the character that ends their field. -/
theorem hasForm_field {mark : Char} (hmark : mark ≠ 'd') {form : List Char} :
    ∀ (n : Nat) {cs : List Char}, hasForm (List.replicate n 'd' ++ mark :: form) cs = true ↔
      ∃ ds rest, cs = ds ++ mark :: rest ∧ ds.length = n ∧ (∀ c ∈ ds, isDigit c = true) ∧
        hasForm form rest = true
  | 0, [] => by simp [hasForm]
  | 0, c :: cs => by
    rw [List.replicate_zero, List.nil_append, hasForm, if_neg hmark, Bool.and_eq_true, beq_iff_eq]
    constructor
    · rintro ⟨rfl, h⟩
      exact ⟨[], cs, rfl, rfl, nofun, h⟩
    · rintro ⟨ds, rest, heq, hlength, -, h⟩
      obtain rfl := List.eq_nil_of_length_eq_zero hlength
      obtain ⟨rfl, rfl⟩ := List.cons.inj heq
      exact ⟨rfl, h⟩
  | n + 1, [] => by simp [List.replicate_succ, hasForm]
  | n + 1, c :: cs => by
    rw [List.replicate_succ, List.cons_append, hasForm, if_pos rfl, Bool.and_eq_true,
      hasForm_field hmark n]
    constructor
    · rintro ⟨hc, ds, rest, rfl, rfl, hds, h⟩
      exact ⟨c :: ds, rest, rfl, rfl, List.forall_mem_cons.mpr ⟨hc, hds⟩, h⟩
    · rintro ⟨ds, rest, heq, hlength, hds, h⟩
      -- the first digit is one of the field
      cases ds with
      | nil => cases hlength
      | cons d ds =>
        obtain ⟨rfl, rfl⟩ := List.cons.inj heq
        obtain ⟨hc, hds⟩ := List.forall_mem_cons.mp hds
        exact ⟨hc, ds, rest, rfl, Nat.succ.inj hlength, hds, h⟩

end ForcingData.Text
