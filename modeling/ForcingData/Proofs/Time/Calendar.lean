import ForcingData.Proofs.Time.Reading

/-! # The calendar

Days follow one another: `Date.days_succ`. A month is as long as `daysInMonth` says, so that a
number of months later is at least four weeks later for each of them (`Date.le_days_firstOfMonth`),
and the time between two instants is that between their days, up to a day or so
(`Instant.lt_since`). -/

namespace ForcingData

namespace Date
variable {d : Date}

theorem daysBeforeYear_succ (year : Int) :
    daysBeforeYear (year + 1) = daysBeforeYear year + if isLeap year then 366 else 365 := by
  unfold daysBeforeYear
  by_cases h : isLeap year = true
  · rw [if_pos h]
    simp only [isLeap, Bool.and_eq_true, Bool.or_eq_true, decide_eq_true_eq] at h
    omega
  · rw [if_neg h]
    simp only [isLeap, Bool.and_eq_true, Bool.or_eq_true, decide_eq_true_eq] at h
    omega

theorem daysBeforeMonth_succ (year : Int) (n : Nat) :
    daysBeforeMonth year (n + 2) = daysBeforeMonth year (n + 1) + daysInMonth year (n + 1) := by
  show (List.range (n + 1)).foldl _ 0 = (List.range n).foldl _ 0 + _
  rw [List.range_succ, List.foldl_append]
  rfl

theorem daysBeforeMonth_december (year : Int) :
    daysBeforeMonth year 12 + 31 = if isLeap year then 366 else 365 := by
  simp only [daysBeforeMonth, List.range_succ, List.foldl_append, daysInMonth]
  by_cases h : isLeap year = true <;> simp [h]

theorem daysInMonth_bounds (year : Int) (month : Nat) :
    28 ≤ daysInMonth year month ∧ daysInMonth year month ≤ 31 := by
  unfold daysInMonth
  split_ifs <;> omega

/-! ### Months -/

/-- The first day of a month; months are numbered as by `monthIndex`. -/
def firstOfMonth (index : Int) : Date := ⟨index / 12, (index % 12).toNat + 1, 1⟩

theorem days_firstOfMonth_succ (index : Int) :
    (firstOfMonth (index + 1)).days = (firstOfMonth index).days +
      daysInMonth (firstOfMonth index).year (firstOfMonth index).month := by
  unfold firstOfMonth days
  simp only
  by_cases h : index % 12 = 11
  · have hyear : (index + 1) / 12 = index / 12 + 1 := by omega
    have hmonth : ((index + 1) % 12).toNat + 1 = 1 := by omega
    have hlast : (index % 12).toNat + 1 = 12 := by omega
    have hdecember := daysBeforeMonth_december (index / 12)
    have hlength : daysInMonth (index / 12) 12 = 31 := rfl
    have hjanuary : daysBeforeMonth (index / 12 + 1) 1 = 0 := rfl
    rw [hyear, hmonth, hlast, daysBeforeYear_succ, hjanuary, hlength]
    split_ifs at hdecember ⊢ <;> omega
  · obtain ⟨n, hn⟩ : ∃ n : Nat, (index % 12).toNat = n := ⟨_, rfl⟩
    have hyear : (index + 1) / 12 = index / 12 := by omega
    have hmonth : ((index + 1) % 12).toNat = n + 1 := by omega
    rw [hyear, hmonth, hn, daysBeforeMonth_succ]
    omega

theorem le_days_firstOfMonth (index : Int) (n : Nat) :
    (firstOfMonth index).days + 28 * n ≤ (firstOfMonth (index + n)).days := by
  induction n with
  | zero => simp
  | succ n ih =>
    have hstep := days_firstOfMonth_succ (index + n)
    have hlength := (daysInMonth_bounds (firstOfMonth (index + n)).year
      (firstOfMonth (index + n)).month).1
    have hnext : index + ((n + 1 : Nat) : Int) = index + n + 1 := by omega
    rw [hnext]
    omega

theorem firstOfMonth_monthIndex (h : d.isValid = true) :
    firstOfMonth d.monthIndex = ⟨d.year, d.month, 1⟩ := by
  obtain ⟨hmonth, hmonth', -⟩ := isValid_iff.mp h
  unfold firstOfMonth monthIndex
  congr 1 <;> omega

theorem days_eq (h : d.isValid = true) :
    d.days = (firstOfMonth d.monthIndex).days + (d.day - 1) := by
  rw [firstOfMonth_monthIndex h]
  simp [days]

theorem isValid_bounds (h : d.isValid = true) : 1 ≤ d.day ∧ d.day ≤ 31 := by
  obtain ⟨-, -, hday, hday'⟩ := isValid_iff.mp h
  exact ⟨hday, hday'.trans (daysInMonth_bounds ..).2⟩

theorem le_days_of_monthIndex {a b : Date} (ha : a.isValid = true) (hb : b.isValid = true) {n : Nat}
    (h : b.monthIndex = a.monthIndex + n) : a.days + 28 * n + b.day - a.day ≤ b.days := by
  have hmonths := le_days_firstOfMonth a.monthIndex n
  rw [days_eq ha, days_eq hb, h]
  omega

theorem days_succ (h : d.isValid = true) : d.succ.days = d.days + 1 := by
  obtain ⟨hmonth, hmonth', hday, hday'⟩ := isValid_iff.mp h
  have hvalid := isValid_succ h
  rw [days_eq h, days_eq hvalid]
  unfold succ
  by_cases hlast : d.day < daysInMonth d.year d.month
  · simp only [if_pos hlast, monthIndex]
    omega
  · have hstep := days_firstOfMonth_succ d.monthIndex
    rw [firstOfMonth_monthIndex h] at hstep ⊢
    have hindex : (if d.month < 12 then (⟨d.year, d.month + 1, 1⟩ : Date)
        else ⟨d.year + 1, 1, 1⟩).monthIndex = d.monthIndex + 1 := by
      split_ifs <;> simp only [monthIndex] <;> omega
    simp only [if_neg hlast, hindex, hstep]
    split_ifs <;> simp only <;> omega

end Date

namespace Instant
variable {a b : Instant}

theorem since_of_same_time (hsecond : a.second = b.second) (hnano : a.nano = b.nano) :
    a.since b = days (a.date.days - b.date.days) := by
  simp only [since, days, hours, hsecond, hnano, billion, Nat.lt_irrefl, if_false]
  omega

/-- Two times of day are less than a day and some seconds apart, leap seconds included. -/
theorem lt_since (ha : a.IsValid) (hb : b.IsValid) :
    days (a.date.days - b.date.days - 2) < a.since b := by
  have hsecond := ha.second
  have hsecond' := hb.second
  have hnano : b.nano < 2 * billion := by
    have := hb.nano
    omega
  simp only [billion] at hnano
  simp only [since, days, hours, billion]
  split_ifs <;> omega

end Instant
end ForcingData
