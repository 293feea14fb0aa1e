import ForcingData.Proofs.Time.Instant
import Mathlib.Data.List.Induction
import Mathlib.Data.List.TakeWhile

/-! # Instants that are read

What `parseUtc?` reads from a text is an instant that a clock can show: `isValid_of_parseUtc?`. A
zone moves the time by whole minutes, so that a leap second stays the last one of its minute. -/

namespace ForcingData

/-! ### Days -/

namespace Date
variable {d : Date}

theorem daysInMonth_pos (year : Int) (month : Nat) : 1 ≤ daysInMonth year month := by
  unfold daysInMonth
  split
  · split <;> decide
  · split <;> decide

theorem isValid_iff : d.isValid = true ↔
    1 ≤ d.month ∧ d.month ≤ 12 ∧ 1 ≤ d.day ∧ d.day ≤ daysInMonth d.year d.month := by
  simp [isValid, and_assoc]

theorem isValid_pred (h : d.isValid = true) : d.pred.isValid = true := by
  obtain ⟨hmonth, hmonth', hday, hday'⟩ := isValid_iff.mp h
  refine isValid_iff.mpr ?_
  unfold pred
  split
  · simp only
    omega
  · split
    · have hpos := daysInMonth_pos d.year (d.month - 1)
      simp only
      omega
    · have hdecember : daysInMonth (d.year - 1) 12 = 31 := rfl
      simp only
      omega

theorem isValid_succ (h : d.isValid = true) : d.succ.isValid = true := by
  obtain ⟨hmonth, hmonth', hday, hday'⟩ := isValid_iff.mp h
  refine isValid_iff.mpr ?_
  unfold succ
  split
  · simp only
    omega
  · split
    · have hpos := daysInMonth_pos d.year (d.month + 1)
      simp only
      omega
    · have hpos := daysInMonth_pos (d.year + 1) 1
      simp only
      omega

end Date

namespace Instant

theorem isValid_of_date? {cs rest : List Char} {d : Date} (h : date? cs = some (d, rest)) :
    d.isValid = true ∧ d.inRange = true := by
  simp only [date?, Option.bind_eq_bind, Option.bind_eq_some_iff] at h
  obtain ⟨_, _, _, _, _, _, _, _, _, _, h⟩ := h
  split at h
  · rename_i hvalid
    obtain ⟨rfl, rfl⟩ := Prod.mk.inj (Option.some.inj h)
    simpa using hvalid
  · cases h

/-! ### Times of day -/

theorem ofDigitChars_lt {ds : List Char} (h : ∀ c ∈ ds, c.isDigit = true) :
    Nat.ofDigitChars 10 ds 0 < 10 ^ ds.length := by
  induction ds using List.reverseRecOn with
  | nil => decide
  | append_singleton ds c ih =>
    have hlast := (toNat_of_isDigit (h c (by simp))).2
    have hbefore := ih fun d hd => h d (List.mem_append_left _ hd)
    have hzero : '0'.toNat = 48 := rfl
    rw [Nat.ofDigitChars_append, Nat.ofDigitChars_eq_foldl, List.length_append,
      List.length_singleton, Nat.pow_succ]
    simp only [List.foldl_cons, List.foldl_nil]
    omega

theorem nano_of_fraction? {cs rest : List Char} {nano : Nat}
    (h : fraction? cs = some (nano, rest)) : nano < billion := by
  unfold fraction? at h
  split at h
  · rename_i ds
    simp only at h
    split at h
    · cases h
    · obtain ⟨hnano, -⟩ := Prod.mk.inj (Option.some.inj h)
      rw [foldl_digits] at hnano
      have hdigits : ∀ c ∈ (ds.takeWhile Char.isDigit).take 9, c.isDigit = true := fun c hc =>
        List.mem_takeWhile_imp (List.mem_of_mem_take hc)
      have hlength : ((ds.takeWhile Char.isDigit).take 9).length ≤ 9 := List.length_take_le ..
      generalize (ds.takeWhile Char.isDigit).take 9 = first at hnano hdigits hlength
      calc nano = Nat.ofDigitChars 10 first 0 * 10 ^ (9 - first.length) := hnano.symm
        _ < 10 ^ first.length * 10 ^ (9 - first.length) :=
          Nat.mul_lt_mul_of_pos_right (ofDigitChars_lt hdigits) (Nat.pow_pos (by decide))
        _ = billion := by
          rw [← Nat.pow_add, Nat.add_sub_cancel' hlength]
          rfl
  · obtain ⟨rfl, -⟩ := Prod.mk.inj (Option.some.inj h)
    decide

theorem isValid_of_time? {cs rest : List Char} {second nano : Nat}
    (h : time? cs = some ((second, nano), rest)) :
    second < 86400 ∧ (nano < billion ∨ second % 60 = 59 ∧ nano < 2 * billion) := by
  simp only [time?, Option.bind_eq_bind, Option.bind_eq_some_iff] at h
  obtain ⟨⟨hour, _⟩, _, _, _, ⟨minute, _⟩, _, _, _, ⟨sec, _⟩, _, ⟨part, _⟩, hpart, h⟩ := h
  have hfraction := nano_of_fraction? hpart
  split at h
  · obtain ⟨_, ⟨⟩, _⟩ := h
  · rename_i hrange
    simp only [Bool.or_eq_true, decide_eq_true_eq, not_or, Nat.not_lt] at hrange
    cases h
    split <;> omega

/-! ### Zones -/

theorem seconds_of_zone? {cs rest : List Char} {ahead : Int} (h : zone? cs = some (ahead, rest)) :
    -86400 < ahead ∧ ahead < 86400 ∧ ahead % 60 = 0 := by
  unfold zone? at h
  split at h
  · split at h
    · cases h
      decide
    · split at h
      · cases h
        decide
      · split at h
        · simp only [Option.bind_eq_bind, Option.bind_eq_some_iff] at h
          obtain ⟨⟨hours, _⟩, _, ⟨minutes, _⟩, _, h⟩ := h
          split at h
          · obtain ⟨_, ⟨⟩, _⟩ := h
          · rename_i hrange
            simp only [Bool.or_eq_true, decide_eq_true_eq, not_or, Nat.not_lt] at hrange
            cases h
            split <;> omega
        · cases h
  · cases h

theorem isValid_of_shift? {t t' : Instant} {seconds : Int} (hdate : t.date.isValid = true)
    (hsecond : t.second < 86400)
    (hnano : t.nano < billion ∨ t.second % 60 = 59 ∧ t.nano < 2 * billion)
    (hseconds : -86400 < seconds ∧ seconds < 86400 ∧ seconds % 60 = 0)
    (h : t.shift? seconds = some t') : t'.IsValid := by
  have hkept : ∀ {date : Date} {second : Nat}, date.isValid = true → second < 86400 →
      (second : Int) % 60 = t.second % 60 →
      (if date.inRange then some (Instant.mk date second t.nano) else none) = some t' →
      t'.IsValid := by
    intro date second hdate hsecond hminute hmoved
    split at hmoved
    · rename_i hrange
      obtain rfl := Option.some.inj hmoved
      refine ⟨hdate, hrange, hsecond, ?_⟩
      simp only
      omega
    · cases hmoved
  unfold shift? at h
  simp only at h
  split at h
  · exact hkept (Date.isValid_pred hdate) (by omega) (by omega) h
  · split at h
    · exact hkept (Date.isValid_succ hdate) (by omega) (by omega) h
    · exact hkept hdate (by omega) (by omega) h

theorem isValid_of_parseUtc? {s : String} {t : Instant} (h : parseUtc? s = some t) :
    t.IsValid := by
  simp only [parseUtc?, Option.bind_eq_bind, Option.bind_eq_some_iff] at h
  obtain ⟨⟨date, cs⟩, hdate, h⟩ := h
  split at h
  · split at h
    · simp only [Option.bind_eq_some_iff] at h
      obtain ⟨⟨⟨second, nano⟩, cs⟩, htime, ⟨ahead, _⟩, hzone, h⟩ := h
      split at h
      · obtain ⟨hsecond, hnano⟩ := isValid_of_time? htime
        obtain ⟨hlow, hhigh, hminutes⟩ := seconds_of_zone? hzone
        have hback : -86400 < -ahead ∧ -ahead < 86400 ∧ -ahead % 60 = 0 := by omega
        exact isValid_of_shift? (isValid_of_date? hdate).1 hsecond hnano hback h
      · cases h
    · cases h
  · cases h

theorem isValid_of_parse? {s : String} {t : Instant} (h : parse? s = some t) :
    t.IsValid := by
  simp only [parse?, Option.bind_eq_bind, Option.bind_eq_some_iff] at h
  obtain ⟨⟨date, _⟩, hdate, _, _, ⟨⟨second, nano⟩, _⟩, htime, h⟩ := h
  split at h
  · obtain rfl := Option.some.inj h
    obtain ⟨hvalid, hrange⟩ := isValid_of_date? hdate
    obtain ⟨hsecond, hnano⟩ := isValid_of_time? htime
    exact ⟨hvalid, hrange, hsecond, hnano⟩
  · cases h

end Instant
end ForcingData
