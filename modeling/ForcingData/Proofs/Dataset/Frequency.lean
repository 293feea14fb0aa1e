import ForcingData.Dataset.Frequency
import ForcingData.Dataset.Header
import ForcingData.Proofs.Json.Decode
import ForcingData.Proofs.Time.Calendar

/-! # Frequencies of regular time axes

`Frequency.IsSpan` says what a step of a frequency is, in the calendar or in hours. Where all steps
of a time axis are such steps of one frequency, it is the one that is inferred: `infer?_of_isSpan`.
A day or three hours can run over the end of a month, but never through a whole one, and a month is
never twelve of them: so no frequency that is tried before takes the place of the right one. -/

namespace ForcingData

/-- The same day of the next month. -/
def Date.nextMonth (d : Date) : Date :=
  if d.month < 12 then { d with month := d.month + 1 }
  else { d with year := d.year + 1, month := 1 }

/-- The same day of the next year. -/
def Date.nextYear (d : Date) : Date := { d with year := d.year + 1 }

theorem Date.monthIndex_nextMonth {d : Date} (h : d.isValid = true) :
    d.nextMonth.monthIndex = d.monthIndex + 1 := by
  obtain ⟨-, hmonth, -⟩ := isValid_iff.mp h
  unfold nextMonth monthIndex
  split_ifs <;> simp only <;> omega

theorem Date.day_nextMonth (d : Date) : d.nextMonth.day = d.day := by
  unfold nextMonth
  split_ifs <;> rfl

/-! ### Times that are read -/

theorem isValid_of_instant? {t : Json.Tree} {i : Instant} (h : instant? t = some i) :
    i.IsValid := by
  obtain ⟨_, -, h⟩ := Option.bind_eq_some_iff.mp h
  exact Instant.isValid_of_parse? h

namespace TimeAxis

/-- All times are ones that a clock can show. -/
structure IsValid (axis : TimeAxis) : Prop where
  points : ∀ t ∈ axis.points, t.IsValid
  bounds : ∀ bounds, axis.bounds = some bounds → ∀ s ∈ bounds, s.1.IsValid ∧ s.2.IsValid

/-- A header holds no other times. -/
theorem isValid_of_ofTree? {t : Json.Tree} {axis : TimeAxis} (h : ofTree? t = some axis) :
    axis.IsValid := by
  simp only [ofTree?, Option.bind_eq_bind, Option.bind_eq_some_iff, Option.pure_def,
    Option.some.injEq] at h
  obtain ⟨r, -, _, -, points, hpoints, bounds, hbounds, _, -, rfl⟩ := h
  constructor
  case points =>
    obtain ⟨tree, -, hlist⟩ := Option.bind_eq_some_iff.mp hpoints
    exact Json.Tree.forall_mem_of_list? (fun _ _ => isValid_of_instant?) hlist
  case bounds =>
    rintro bounds rfl
    -- both ends of a bound are read as instants
    have hpair : ∀ t s, Json.Tree.pair? instant? instant? t = some s →
        s.1.IsValid ∧ s.2.IsValid := by
      intro t s hs
      unfold Json.Tree.pair? at hs
      split at hs
      · simp only [Option.bind_eq_bind, Option.bind_eq_some_iff, Option.pure_def,
          Option.some.injEq] at hs
        obtain ⟨a, ha, b, hb, rfl⟩ := hs
        exact ⟨isValid_of_instant? ha, isValid_of_instant? hb⟩
      · cases hs
    unfold Json.Record.withDefault at hbounds
    split at hbounds
    · rename_i tree _
      unfold Json.Tree.option? at hbounds
      split at hbounds
      · cases hbounds
      · obtain ⟨_, hlist, hsome⟩ := Option.map_eq_some_iff.mp hbounds
        obtain rfl := Option.some.inj hsome
        exact Json.Tree.forall_mem_of_list? hpair hlist
    · cases hbounds

end TimeAxis

namespace Frequency
open Instant

/-- The step is as long as the frequency says. A month or a year later it is the same time on the
same day, one that every month has. -/
def IsSpan : Frequency → Step → Prop
  | .monthly, (a, b) => a.date.day ≤ 28 ∧ b = { a with date := a.date.nextMonth }
  | .yearly, (a, b) => a.date.day ≤ 28 ∧ b = { a with date := a.date.nextYear }
  | .daily, (a, b) => b.since a = hours 24
  | .threeHourly, (a, b) => b.since a = hours 3
  | .fixed, _ | .monthlyClimatology, _ => False

section
variable {a b : Instant}

theorem months_ne_twelve (ha : a.IsValid) (hb : b.IsValid) (h : b.since a ≤ days 1) :
    months (a, b) ≠ 12 := by
  intro hmonths
  have hlater := Date.le_days_of_monthIndex ha.date hb.date (n := 12) (by
    simp only [months] at hmonths
    omega)
  have hsince := lt_since hb ha
  obtain ⟨-, hday⟩ := Date.isValid_bounds ha.date
  simp only [days, hours, billion] at h hsince
  omega

theorem months_of_monthly (ha : a.IsValid) (h : IsSpan .monthly (a, b)) : months (a, b) = 1 := by
  obtain ⟨-, rfl⟩ := h
  simp only [months, Date.monthIndex_nextMonth ha.date]
  omega

theorem length_of_monthly (ha : a.IsValid) (hb : b.IsValid) (h : IsSpan .monthly (a, b)) :
    days 28 ≤ length (a, b) := by
  obtain ⟨-, rfl⟩ := h
  have hlater := Date.le_days_of_monthIndex ha.date hb.date (n := 1)
    (Date.monthIndex_nextMonth ha.date)
  simp only [Date.day_nextMonth] at hlater
  have hwhole : length (a, { a with date := a.date.nextMonth }) =
      days (a.date.nextMonth.days - a.date.days) := since_of_same_time rfl rfl
  rw [hwhole]
  simp only [days, hours, billion]
  omega

theorem months_of_yearly (h : IsSpan .yearly (a, b)) : months (a, b) = 12 := by
  obtain ⟨-, rfl⟩ := h
  simp only [months, Date.monthIndex, Date.nextYear]
  omega

end

/-- The step from the first instant of a month to that of the next month, or of the next year. -/
theorem isSpan_of_first {d : Date} (h : d.day = 1) :
    IsSpan .monthly (⟨d, 0, 0⟩, ⟨d.nextMonth, 0, 0⟩) ∧
      IsSpan .yearly (⟨d, 0, 0⟩, ⟨d.nextYear, 0, 0⟩) :=
  ⟨⟨by simp [h], rfl⟩, by simp [h], rfl⟩

theorem isSpan_daily_succ {t : Instant} (h : t.IsValid) :
    IsSpan .daily (t, { t with date := t.date.succ }) := by
  have hwhole : Instant.since { t with date := t.date.succ } t =
      days (t.date.succ.days - t.date.days) := since_of_same_time rfl rfl
  show Instant.since { t with date := t.date.succ } t = hours 24
  rw [hwhole, Date.days_succ h.date]
  simp only [days]
  congr 1
  omega

/-- Steps that are all of one frequency fit no frequency that is tried before it. -/
theorem ofSteps?_of_isSpan {f : Frequency} {steps : List Step} (hne : steps ≠ [])
    (hvalid : ∀ s ∈ steps, s.1.IsValid ∧ s.2.IsValid) (h : ∀ s ∈ steps, f.IsSpan s) :
    ofSteps? steps = some f := by
  obtain ⟨⟨a, b⟩, hmem⟩ := List.exists_mem_of_ne_nil steps hne
  obtain ⟨ha, hb⟩ := hvalid _ hmem
  have hspan := h _ hmem
  have hnot : ∀ {p : Step → Bool}, p (a, b) = false → ¬steps.all p = true := fun hp hall => by
    rw [List.all_eq_true] at hall
    exact absurd (hall _ hmem) (by simp [hp])
  unfold ofSteps?
  rw [if_neg hne]
  -- one step is enough to rule out the frequencies that are tried before
  cases f with
  | fixed | monthlyClimatology => exact hspan.elim
  | yearly =>
    exact if_pos (List.all_eq_true.mpr fun s hs => decide_eq_true (months_of_yearly (h s hs)))
  | monthly =>
    have hone := months_of_monthly ha hspan
    rw [if_neg (hnot (by simp [hone])), if_pos]
    refine List.all_eq_true.mpr fun s hs => ?_
    obtain ⟨hs₁, hs₂⟩ := hvalid s hs
    simp [months_of_monthly hs₁ (h s hs), length_of_monthly hs₁ hs₂ (h s hs)]
  | daily =>
    have hday : b.since a = days 1 := hspan
    have hyear := months_ne_twelve ha hb hday.le
    have hmonth : ¬days 28 ≤ length (a, b) := by
      simp only [length, hday, days, hours, billion]
      omega
    rw [if_neg (hnot (by simp [hyear])), if_neg (hnot (by simp [hmonth])), if_pos]
    exact List.all_eq_true.mpr fun s hs => decide_eq_true (h s hs)
  | threeHourly =>
    have hhours : b.since a = hours 3 := hspan
    have hyear := months_ne_twelve ha hb (by
      simp only [hhours, days, hours, billion]
      omega)
    have hmonth : ¬days 28 ≤ length (a, b) := by
      simp only [length, hhours, days, hours, billion]
      omega
    have hday : ¬length (a, b) = days 1 := by
      simp only [length, hhours, days, hours, billion]
      omega
    rw [if_neg (hnot (by simp [hyear])), if_neg (hnot (by simp [hmonth])),
      if_neg (hnot (by simp [hday])), if_pos]
    exact List.all_eq_true.mpr fun s hs => decide_eq_true (h s hs)

/-! ### Steps between points -/

theorem pointSteps_ne_nil {points : List Instant} (h : 2 ≤ points.length) :
    pointSteps points ≠ [] := by
  match points, h with
  | a :: b :: rest, _ => simp [pointSteps]

theorem forall_mem_pointSteps {r : Instant → Instant → Prop} {points : List Instant}
    (h : points.IsChain r) :
    ∀ s ∈ pointSteps points, s.1 ∈ points ∧ s.2 ∈ points ∧ r s.1 s.2 := by
  induction points with
  | nil => simp [pointSteps]
  | cons a points ih =>
    cases points with
    | nil => simp [pointSteps]
    | cons b rest =>
      obtain ⟨hab, hrest⟩ := List.isChain_cons_cons.mp h
      intro s hs
      rcases List.mem_cons.mp hs with rfl | hs
      · exact ⟨by simp, by simp, hab⟩
      · obtain ⟨h₁, h₂, hr⟩ := ih hrest s hs
        exact ⟨List.mem_cons_of_mem a h₁, List.mem_cons_of_mem a h₂, hr⟩

/-- A regular time axis has the frequency of its steps: of its bounds, in any order, or else of the
steps from point to point. -/
theorem infer?_of_isSpan {axis : TimeAxis} (hvalid : axis.IsValid) (hc : axis.climatology = false)
    (f : Frequency) :
    (∀ bounds, axis.bounds = some bounds → bounds ≠ [] → (∀ s ∈ bounds, f.IsSpan s) →
      infer? (some axis) = some f) ∧
    (axis.bounds = none → 2 ≤ axis.points.length →
      axis.points.IsChain (fun a b => f.IsSpan (a, b)) → infer? (some axis) = some f) := by
  have hinfer : infer? (some axis) = ofSteps? (axis.bounds.getD (pointSteps axis.points)) := by
    simp [infer?, hc]
  rw [hinfer]
  constructor
  · intro bounds hbounds hne hall
    rw [hbounds, Option.getD_some]
    exact ofSteps?_of_isSpan hne (hvalid.bounds bounds hbounds) hall
  · intro hbounds hlength hchain
    rw [hbounds, Option.getD_none]
    have hsteps := forall_mem_pointSteps hchain
    refine ofSteps?_of_isSpan (pointSteps_ne_nil hlength) (fun s hs => ?_) fun s hs => ?_
    · obtain ⟨h₁, h₂, -⟩ := hsteps s hs
      exact ⟨hvalid.points _ h₁, hvalid.points _ h₂⟩
    · exact (hsteps s hs).2.2

/-- Two months before and within a leap year, the later one first. -/
def leapBounds : List Step :=
  [(⟨⟨2000, 2, 1⟩, 0, 0⟩, ⟨⟨2000, 3, 1⟩, 0, 0⟩), (⟨⟨1999, 12, 1⟩, 0, 0⟩, ⟨⟨2000, 1, 1⟩, 0, 0⟩)]

/-- Three noons around a leap day. -/
def leapPoints : List Instant :=
  [⟨⟨2000, 2, 28⟩, 43200, 0⟩, ⟨⟨2000, 2, 29⟩, 43200, 0⟩, ⟨⟨2000, 3, 1⟩, 43200, 0⟩]

theorem infer?_of_isSpan_sample :
    infer? (some ⟨"time", [], some leapBounds, false⟩) = some .monthly ∧
      infer? (some ⟨"time", leapPoints, none, false⟩) = some .daily := by
  have hwhole : ∀ d : Date, ∀ second, d.isValid = true → d.inRange = true → second < 86400 →
      IsValid ⟨d, second, 0⟩ := fun d second hd hr hs => ⟨hd, hr, hs, .inl (Nat.succ_pos _)⟩
  constructor
  · have hvalid : TimeAxis.IsValid ⟨"time", [], some leapBounds, false⟩ := by
      refine ⟨by simp, fun bounds h => ?_⟩
      obtain rfl := Option.some.inj h
      simp only [leapBounds, List.forall_mem_cons]
      refine ⟨⟨hwhole _ 0 ?_ ?_ ?_, hwhole _ 0 ?_ ?_ ?_⟩,
        ⟨hwhole _ 0 ?_ ?_ ?_, hwhole _ 0 ?_ ?_ ?_⟩, by simp⟩ <;> decide
    refine (infer?_of_isSpan hvalid rfl .monthly).1 leapBounds rfl (by simp [leapBounds]) ?_
    simp only [leapBounds, List.forall_mem_cons]
    exact ⟨(isSpan_of_first rfl).1, (isSpan_of_first rfl).1, by simp⟩
  · have hpoints : ∀ t ∈ leapPoints, t.IsValid := by
      simp only [leapPoints, List.forall_mem_cons]
      refine ⟨hwhole _ 43200 ?_ ?_ ?_, hwhole _ 43200 ?_ ?_ ?_, hwhole _ 43200 ?_ ?_ ?_, by simp⟩
        <;> decide
    have hvalid : TimeAxis.IsValid ⟨"time", leapPoints, none, false⟩ := ⟨hpoints, by simp⟩
    refine (infer?_of_isSpan hvalid rfl .daily).2 rfl (by simp [leapPoints]) ?_
    obtain ⟨hfirst, hnext⟩ := List.forall_mem_cons.mp hpoints
    obtain ⟨hsecond, -⟩ := List.forall_mem_cons.mp hnext
    exact .cons_cons (isSpan_daily_succ hfirst)
      (.cons_cons (isSpan_daily_succ hsecond) (.singleton _))

end Frequency
end ForcingData
