import ForcingData.Time.Parser
import Mathlib.Algebra.Group.Nat.Defs

/-! # Instants, there and back

An instant that a clock can show (`Instant.IsValid`) is read from its text in universal time as it
was: `parseUtc?_utcText`. -/

namespace ForcingData.Instant
open Text

/-- A time on a day that times are kept for; leap seconds are the last ones of their minutes. -/
structure IsValid (t : Instant) : Prop where
  date : t.date.isValid = true
  inRange : t.date.inRange = true
  second : t.second < 86400
  nano : t.nano < billion ∨ t.second % 60 = 59 ∧ t.nano < 2 * billion

/-! ### Digits -/

theorem toNat_of_isDigit {c : Char} (h : c.isDigit = true) : 48 ≤ c.toNat ∧ c.toNat ≤ 57 := by
  simpa [Char.isDigit, Char.le_def, UInt32.le_iff_toNat_le] using h

theorem not_isBlank_of_isDigit {c : Char} (h : c.isDigit = true) : isBlank c = false := by
  have hdigits : ∀ n < 58, 48 ≤ n → inRanges blankRanges n = false := by decide
  have hc := toNat_of_isDigit h
  exact hdigits c.toNat (by omega) hc.1

/-- A text of digits, and a number that it shows. -/
structure Shows (ds : List Char) (n : Nat) : Prop where
  isDigit : ∀ c ∈ ds, c.isDigit = true
  value : Nat.ofDigitChars 10 ds 0 = n

theorem shows_padded (width n : Nat) : Shows (padded width n).toList n := by
  rw [padded, String.toList_ofList]
  refine ⟨fun c hc => ?_, ?_⟩
  · rcases List.mem_append.mp hc with hc | hc
    · rw [List.eq_of_mem_replicate hc]
      rfl
    · exact Nat.isDigit_of_mem_toDigits (by decide) (by decide) hc
  · rw [Nat.ofDigitChars_append, Nat.ofDigitChars_replicate_zero, Nat.mul_zero,
      Nat.ofDigitChars_ten_toDigits]

theorem length_padded {w n : Nat} (hw : 0 < w) (h : n < 10 ^ w) :
    (padded w n).toList.length = w := by
  have hle := (Nat.length_toDigits_le_iff (b := 10) (n := n) (by decide) hw).mpr h
  rw [padded, String.toList_ofList, List.length_append, List.length_replicate]
  omega

theorem padded_ne_nil (width n : Nat) : (padded width n).toList ≠ [] := by
  rw [padded, String.toList_ofList]
  exact List.append_ne_nil_of_right_ne_nil _ Nat.toDigits_ne_nil

/-- No digit follows. -/
def EndsDigits (rest : List Char) : Prop := ∀ c, rest.head? = some c → c.isDigit = false

theorem takeWhile_isDigit_of_ends {rest : List Char} (h : EndsDigits rest) :
    rest.takeWhile Char.isDigit = [] := by
  cases rest with
  | nil => rfl
  | cons c rest => exact List.takeWhile_cons_of_neg (by simp [h c rfl])

theorem foldl_digits (ds : List Char) :
    ds.foldl (fun n c => n * 10 + (c.toNat - '0'.toNat)) 0 = Nat.ofDigitChars 10 ds 0 := by
  rw [Nat.ofDigitChars_eq_foldl]
  simp only [Nat.mul_comm]

theorem Shows.dropWhile_isBlank {ds rest : List Char} {n : Nat} (h : Shows ds n) (hne : ds ≠ []) :
    (ds ++ rest).dropWhile isBlank = ds ++ rest := by
  obtain ⟨c, ds, rfl⟩ := List.exists_cons_of_ne_nil hne
  exact List.dropWhile_cons_of_neg (by simp [not_isBlank_of_isDigit (h.isDigit c (by simp))])

theorem Shows.number?_append {ds rest : List Char} {n max : Nat} (h : Shows ds n) (hne : ds ≠ [])
    (hmax : ds.length ≤ max) (hend : ds.length = max ∨ EndsDigits rest) :
    number? max (ds ++ rest) = some (n, rest) := by
  have hrest : (rest.take (max - ds.length)).takeWhile Char.isDigit = [] := by
    rcases hend with hlen | hrest
    · rw [hlen, Nat.sub_self]
      rfl
    · refine takeWhile_isDigit_of_ends fun c hc => hrest c ?_
      cases rest with
      | nil => simp at hc
      | cons d rest =>
        cases hk : max - ds.length with
        | zero => simp [hk] at hc
        | succ k => simpa [hk] using hc
  have hdigits : ((ds ++ rest).take max).takeWhile Char.isDigit = ds := by
    rw [List.take_append, List.take_of_length_le hmax, List.takeWhile_append_of_pos h.isDigit,
      hrest, List.append_nil]
  rw [number?, h.dropWhile_isBlank hne]
  simp only [hdigits, if_neg hne, foldl_digits, h.value, List.drop_left]

theorem number?_padded {n : Nat} (h : n < 100) (rest : List Char) :
    number? 2 ((padded 2 n).toList ++ rest) = some (n, rest) := by
  have hlen := length_padded (w := 2) (by decide) h
  exact (shows_padded 2 n).number?_append (padded_ne_nil 2 n) (Nat.le_of_eq hlen) (.inl hlen)

/-! ### Days -/

theorem sign?_cons {c : Char} (h : isBlank c = false) (rest : List Char) :
    sign? c (c :: rest) = some rest := by
  rw [sign?, List.dropWhile_cons_of_neg (by simp [h])]
  simp

theorem year?_yearText (year : Int) {rest : List Char} (h : EndsDigits rest) :
    year? ((yearText year).toList ++ rest) = some (year, rest) := by
  obtain ⟨c, ds, hds⟩ := List.exists_cons_of_ne_nil (padded_ne_nil 4 year.natAbs)
  have hshows := shows_padded 4 year.natAbs
  have hc := hshows.isDigit c (by simp [hds])
  have hsigned : number? ((ds ++ rest).length + 1) (c :: (ds ++ rest)) =
      some (year.natAbs, rest) := by
    have hmax : (padded 4 year.natAbs).toList.length ≤ (ds ++ rest).length + 1 := by simp [hds]
    have hn := hshows.number?_append (padded_ne_nil 4 year.natAbs) hmax (.inr h)
    rwa [hds] at hn
  -- four digits without a sign, or a sign and at least four digits
  unfold yearText
  split
  · rename_i hy
    simp only [Bool.and_eq_true, decide_eq_true_eq] at hy
    have hlen := length_padded (w := 4) (n := year.natAbs) (by decide) (by omega)
    have hn := hshows.number?_append (padded_ne_nil 4 year.natAbs) (Nat.le_of_eq hlen)
      (.inl hlen : _ ∨ EndsDigits rest)
    rw [year?, hshows.dropWhile_isBlank (padded_ne_nil 4 year.natAbs)]
    split
    · rename_i heq
      rw [hds] at heq
      rw [(List.cons.inj heq).1] at hc
      cases hc
    · rename_i heq
      rw [hds] at heq
      rw [(List.cons.inj heq).1] at hc
      cases hc
    · rw [hn, Option.map_some]
      simp only [Option.some.injEq, Prod.mk.injEq, and_true]
      omega
  · rename_i hy
    simp only [Bool.and_eq_true, decide_eq_true_eq, not_and] at hy
    split
    · have htext : ("-" ++ padded 4 year.natAbs).toList ++ rest = '-' :: c :: (ds ++ rest) := by
        simp [hds]
      rw [htext, year?, List.dropWhile_cons_of_neg (by decide)]
      simp only [hc, if_true, hsigned, Option.map_some, Option.some.injEq, Prod.mk.injEq, and_true]
      omega
    · have htext : ("+" ++ padded 4 year.natAbs).toList ++ rest = '+' :: c :: (ds ++ rest) := by
        simp [hds]
      rw [htext, year?, List.dropWhile_cons_of_neg (by decide)]
      simp only [hc, if_true, hsigned, Option.map_some, Option.some.injEq, Prod.mk.injEq, and_true]
      omega

theorem date?_dateText {d : Date} (hv : d.isValid = true) (hr : d.inRange = true)
    (rest : List Char) : date? ((dateText d).toList ++ rest) = some (d, rest) := by
  have hdays : d.month < 100 ∧ d.day < 100 := by
    have hmonth : Date.daysInMonth d.year d.month ≤ 31 := by
      unfold Date.daysInMonth
      split
      · split <;> decide
      · split <;> decide
    simp only [Date.isValid, Bool.and_eq_true, decide_eq_true_eq] at hv
    omega
  have htext : (dateText d).toList ++ rest = (yearText d.year).toList ++ '-' ::
      ((padded 2 d.month).toList ++ '-' :: ((padded 2 d.day).toList ++ rest)) := by
    simp [dateText, toString]
  have hdash : EndsDigits ('-' :: ((padded 2 d.month).toList ++ '-' ::
      ((padded 2 d.day).toList ++ rest))) := fun c hc => by cases hc; rfl
  rw [htext, date?, year?_yearText d.year hdash]
  simp only [Option.bind_eq_bind, Option.bind_some, sign?_cons (c := '-') (by decide),
    number?_padded hdays.1, number?_padded hdays.2, hv, hr]
  rfl

/-! ### Times of day -/

/-- Nothing follows that could belong to a fraction. -/
def EndsFraction (rest : List Char) : Prop := EndsDigits rest ∧ rest.head? ≠ some '.'

theorem fraction?_point {width value : Nat} (hw : 0 < width) (hwidth : width ≤ 9)
    (hv : value < 10 ^ width) {rest : List Char} (h : EndsDigits rest) :
    fraction? (("." ++ padded width value).toList ++ rest) =
      some (value * 10 ^ (9 - width), rest) := by
  have hlen := length_padded hw hv
  have hshows := shows_padded width value
  have hdigits : ((padded width value).toList ++ rest).takeWhile Char.isDigit =
      (padded width value).toList := by
    rw [List.takeWhile_append_of_pos hshows.isDigit, takeWhile_isDigit_of_ends h, List.append_nil]
  have htext : ("." ++ padded width value).toList ++ rest =
      '.' :: ((padded width value).toList ++ rest) := by simp
  rw [htext, fraction?]
  simp only [hdigits, if_neg (padded_ne_nil width value), List.drop_left]
  rw [List.take_of_length_le (by omega), foldl_digits, hshows.value, hlen]
  rfl

theorem fraction?_fractionText {nano : Nat} (hn : nano < billion) {rest : List Char}
    (h : EndsFraction rest) :
    fraction? ((fractionText nano).toList ++ rest) = some (nano, rest) := by
  have hbillion : billion = 1000000000 := rfl
  unfold fractionText
  split
  · subst_vars
    rw [String.toList_empty, List.nil_append, fraction?.eq_def]
    split
    · exact absurd rfl h.2
    · rfl
  split
  · rw [fraction?_point (by decide) (by decide) (by omega) h.1]
    simp only [Option.some.injEq, Prod.mk.injEq, and_true]
    omega
  split
  · rw [fraction?_point (by decide) (by decide) (by omega) h.1]
    simp only [Option.some.injEq, Prod.mk.injEq, and_true]
    omega
  · rw [fraction?_point (by decide) (by decide) (by omega) h.1]
    simp

/-- The text of a time of day; the second may be the second 60. -/
theorem time?_text (hour minute second nano : Nat) (hh : hour < 24) (hm : minute < 60)
    (hs : second ≤ 60) (hn : nano < billion) {rest : List Char} (h : EndsFraction rest)
    (hb : rest.dropWhile isBlank = rest) :
    time? ((padded 2 hour).toList ++ ':' :: ((padded 2 minute).toList ++ ':' ::
        ((padded 2 second).toList ++ ((fractionText nano).toList ++ rest)))) =
      some ((hour * 3600 + minute * 60 + (second - if second = 60 then 1 else 0),
        (if second = 60 then 1 else 0) * billion + nano), rest) := by
  have hrange : ¬((decide (23 < hour) || decide (59 < minute) || decide (60 < second)) = true) := by
    simp only [Bool.or_eq_true, decide_eq_true_eq]
    omega
  rw [time?]
  simp only [Option.bind_eq_bind, Option.bind_some, sign?_cons (c := ':') (by decide),
    number?_padded (show hour < 100 by omega), number?_padded (show minute < 100 by omega),
    number?_padded (show second < 100 by omega), fraction?_fractionText hn h, hb]
  rw [if_neg (by simpa using hrange)]
  rfl

/-! ### Instants -/

theorem shift?_zero {t : Instant} (h : t.IsValid) : t.shift? 0 = some t := by
  have hs := h.second
  have hbefore : ¬(t.second : Int) < 0 := by omega
  have hafter : ¬(86400 : Int) ≤ t.second := by omega
  simp [shift?, hbefore, hafter, h.inRange]

theorem parseUtc?_utcText {t : Instant} (h : t.IsValid) : parseUtc? t.utcText = some t := by
  have hsecond := h.second
  have hnano := h.nano
  have hbillion : billion = 1000000000 := rfl
  -- a leap second is written as the second 60
  obtain ⟨leap, hleap, hle⟩ : ∃ leap, (if billion ≤ t.nano then 1 else 0) = leap ∧
      (leap = 0 ∧ t.nano < billion ∨ leap = 1 ∧ billion ≤ t.nano ∧ t.second % 60 = 59) := by
    by_cases hb : billion ≤ t.nano
    · exact ⟨1, if_pos hb, .inr ⟨rfl, hb, by omega⟩⟩
    · exact ⟨0, if_neg hb, .inl ⟨rfl, by omega⟩⟩
  have htext : t.utcText.toList = (dateText t.date).toList ++ 'T' ::
      ((padded 2 (t.second / 3600)).toList ++ ':' :: ((padded 2 (t.second / 60 % 60)).toList ++
        ':' :: ((padded 2 (t.second % 60 + leap)).toList ++
          ((fractionText (t.nano - leap * billion)).toList ++ ['Z'])))) := by
    simp [utcText, text, toString, hleap]
  have hfraction : t.nano - leap * billion < billion := by
    rcases hle with ⟨rfl, _⟩ | ⟨rfl, _, _⟩ <;> omega
  have hend : EndsFraction ['Z'] := ⟨fun c hc => by cases hc; rfl, by decide⟩
  have htime := time?_text (t.second / 3600) (t.second / 60 % 60) (t.second % 60 + leap)
    (t.nano - leap * billion) (by omega) (by omega) (by omega) hfraction hend (by decide)
  have hinstant : (⟨t.date, t.second / 3600 * 3600 + t.second / 60 % 60 * 60 +
      (t.second % 60 + leap - if t.second % 60 + leap = 60 then 1 else 0),
      (if t.second % 60 + leap = 60 then 1 else 0) * billion + (t.nano - leap * billion)⟩ :
        Instant) = t := by
    rcases hle with ⟨rfl, hlt⟩ | ⟨rfl, hge, hlast⟩
    · rw [if_neg (by omega)]
      cases t
      simp only [mk.injEq, true_and] at hsecond ⊢
      omega
    · rw [if_pos (by omega)]
      cases t
      simp only [mk.injEq, true_and] at hsecond hlast hge ⊢
      omega
  have hzone : zone? ['Z'] = some (0, []) := rfl
  rw [parseUtc?, htext, date?_dateText h.date h.inRange]
  simp only [Option.bind_eq_bind, Option.bind_some, htime, hzone, hinstant]
  exact shift?_zero h

end ForcingData.Instant
