import ForcingData.Proofs.Dataset.TimeRange
import ForcingData.Proofs.Uniqueness

/-! # Metadata against data

Checking metadata against a dataset gives one finding for each of the five rules, whatever the
dataset and the attributes are, with one exception: the end of a climatology is moved to the day
before, and the first day that times are kept for has none (`Instant.dayBefore?_eq_none_iff`). Every
other calculation stays in its bounds (`Frequency.inBounds_of_isValid`), and every data variable is
found among the variables (`validate_done_or_aborted`). -/

namespace ForcingData

namespace Date
variable {d : Date}

/-- The first day that times are kept for. -/
def first : Date := ⟨minYear, 1, 1⟩

theorem inRange_iff : d.inRange = true ↔ -262143 ≤ d.year ∧ d.year ≤ 262142 := by
  unfold inRange
  rw [Bool.and_eq_true, decide_eq_true_eq, decide_eq_true_eq]
  rfl

theorem inRange_pred (hv : d.isValid = true) (hr : d.inRange = true) :
    d.pred.inRange = false ↔ d = first := by
  obtain ⟨hmonth, -, hday, -⟩ := isValid_iff.mp hv
  have hyears := inRange_iff.mp hr
  rw [← Bool.not_eq_true, inRange_iff]
  obtain ⟨year, month, day⟩ := d
  simp only [first, minYear, pred, mk.injEq] at hmonth hday hyears ⊢
  split_ifs <;> simp only <;> omega

theorem daysBeforeMonth_le (year : Int) (n : Nat) : daysBeforeMonth year (n + 1) ≤ 31 * n := by
  induction n with
  | zero => simp [daysBeforeMonth]
  | succ n ih =>
    have hmonth := (daysInMonth_bounds year (n + 1)).2
    rw [daysBeforeMonth_succ]
    omega

theorem days_bounds (hv : d.isValid = true) (hr : d.inRange = true) :
    -100000000 ≤ d.days ∧ d.days ≤ 100000000 := by
  obtain ⟨hmonth, hmonth', hday⟩ := isValid_iff.mp hv
  obtain ⟨n, hn⟩ : ∃ n, d.month = n + 1 := ⟨d.month - 1, by omega⟩
  have hbefore := daysBeforeMonth_le d.year n
  have hmost := (daysInMonth_bounds d.year d.month).2
  have hyears := inRange_iff.mp hr
  rw [days, daysBeforeYear, hn]
  omega

end Date

namespace Instant
variable {t : Instant}

/-- Only the first day that times are kept for has no day before, up to the leap second at its end,
which counts as the second after it. -/
theorem dayBefore?_eq_none_iff (h : t.IsValid) : t.dayBefore? = none ↔
    t.date = Date.first ∧ ¬(billion ≤ t.nano ∧ t.second = 86399) := by
  have hsecond := h.second
  rw [← Date.inRange_pred h.date h.inRange]
  simp only [dayBefore?]
  split_ifs with hnano hrange hlast hrange
  · simp [hrange]
  · have hleap : ¬(billion ≤ t.nano ∧ t.second = 86399) := by omega
    simp [hrange, hleap]
  · have hleap : billion ≤ t.nano ∧ t.second = 86399 := by omega
    simp [hleap]
  · simp [hrange]
  · have hleap : ¬(billion ≤ t.nano ∧ t.second = 86399) := by omega
    simp [hrange, hleap]

end Instant

namespace Frequency
open Instant
variable {a b : Instant}

/-- A number of whole months and a duration as they are kept: a signed number of 64 bits, and as
many milliseconds, up to the sign. -/
structure InBounds (s : Step) : Prop where
  months : -2 ^ 63 ≤ months s ∧ months s < 2 ^ 63
  length : -((2 ^ 63 - 1) * 1000000) ≤ length s ∧ length s ≤ (2 ^ 63 - 1) * 1000000

theorem inBounds_of_isValid (ha : a.IsValid) (hb : b.IsValid) : InBounds (a, b) := by
  obtain ⟨hmonth, hmonth', -⟩ := Date.isValid_iff.mp ha.date
  obtain ⟨hnext, hnext', -⟩ := Date.isValid_iff.mp hb.date
  have hyears := Date.inRange_iff.mp ha.inRange
  have hyears' := Date.inRange_iff.mp hb.inRange
  constructor
  · simp only [months, Date.monthIndex]
    omega
  · have hdays := Date.days_bounds ha.date ha.inRange
    have hdays' := Date.days_bounds hb.date hb.inRange
    have hafter := lt_since hb ha
    have hbefore := lt_since ha hb
    simp only [length, since, Instant.days, hours, billion] at hafter hbefore ⊢
    have hsecond := ha.second
    have hsecond' := hb.second
    have hnano : a.nano < 2 * billion := by have := ha.nano; omega
    have hnano' : b.nano < 2 * billion := by have := hb.nano; omega
    simp only [billion] at hnano hnano'
    split_ifs <;> omega

end Frequency

namespace TimeAxis
open Frequency (Precision)
open Instant
variable {axis : TimeAxis} {f : Frequency}

/-- The latest of the bounds ends on the first day that times are kept for, and not in the leap
second at its end. -/
def EndsOnFirstDay (axis : TimeAxis) : Prop :=
  ∃ bounds, axis.bounds = some bounds ∧ ∃ last ∈ bounds, (∀ s ∈ bounds, s.2.le last.2 = true) ∧
    last.2.date = Date.first ∧ ¬(billion ≤ last.2.nano ∧ last.2.second = 86399)

theorem lastMonth_cases {t : Instant} (h : t.IsValid) :
    (t.date = Date.first ∧ ¬(billion ≤ t.nano ∧ t.second = 86399) ∧
      lastMonth t = .aborted rangeOverflow) ∨
    (¬(t.date = Date.first ∧ ¬(billion ≤ t.nano ∧ t.second = 86399)) ∧
      ∃ last, lastMonth t = .done last) := by
  unfold lastMonth
  by_cases hfirst : t.date = Date.first ∧ ¬(billion ≤ t.nano ∧ t.second = 86399)
  · have hnone := (dayBefore?_eq_none_iff h).mpr hfirst
    have hday : t.date.day = 1 := by rw [hfirst.1]; rfl
    exact .inl ⟨hfirst.1, hfirst.2, by simp [hday, hnone]⟩
  · obtain ⟨before, hbefore⟩ :=
      Option.ne_none_iff_exists'.mp ((dayBefore?_eq_none_iff h).not.mpr hfirst)
    refine .inr ⟨hfirst, ?_⟩
    rw [hbefore]
    split_ifs <;> exact ⟨_, rfl⟩

/-- The range of a climatology that ends on the first day is the only one that there is no telling
of. -/
theorem range_done_or_aborted (hvalid : axis.IsValid) (f : Frequency) :
    (f = .monthlyClimatology ∧ axis.EndsOnFirstDay → axis.range f = .aborted rangeOverflow) ∧
      (¬(f = .monthlyClimatology ∧ axis.EndsOnFirstDay) →
        ∃ range?, axis.range f = .done range?) := by
  by_cases hf : f = .monthlyClimatology
  swap
  · refine ⟨fun h => absurd h.1 hf, fun _ => ?_⟩
    unfold range
    split
    · exact ⟨_, rfl⟩
    rw [if_neg hf]
    split <;> exact ⟨_, rfl⟩
  subst hf
  simp only [true_and]
  cases hbounds : axis.bounds with
  | none =>
    refine ⟨?_, fun _ => ⟨none, ?_⟩⟩
    · rintro ⟨_, h, -⟩
      cases hbounds.symm.trans h
    · simp [range, Frequency.precision?, hbounds, earliest?]
  | some bounds =>
    by_cases hnil : bounds = []
    · subst hnil
      refine ⟨?_, fun _ => ⟨none, ?_⟩⟩
      · rintro ⟨_, h, last, hlast, -⟩
        obtain rfl := Option.some.inj (hbounds.symm.trans h)
        cases hlast
      · simp [range, Frequency.precision?, hbounds, earliest?]
    obtain ⟨start, hstart⟩ := Option.isSome_iff_exists.mp
      (earliest?_isSome_iff.mpr (List.map_eq_nil_iff.not.mpr hnil : bounds.map (·.1) ≠ []))
    obtain ⟨stop, hstop⟩ := Option.isSome_iff_exists.mp
      (latest?_isSome_iff.mpr (List.map_eq_nil_iff.not.mpr hnil : bounds.map (·.2) ≠ []))
    -- with bounds, everything depends on whether the last one has a day before its end
    obtain ⟨-, last, hlast, rfl, hgreatest⟩ := exists_bound hstart hstop
    have hends : axis.EndsOnFirstDay ↔
        last.2.date = Date.first ∧ ¬(billion ≤ last.2.nano ∧ last.2.second = 86399) := by
      constructor
      · rintro ⟨_, h, last', hlast', hgreatest', hfirst⟩
        obtain rfl := Option.some.inj (hbounds.symm.trans h)
        rwa [le_antisymm (hgreatest last' hlast') (hgreatest' last hlast)] at hfirst
      · exact fun h => ⟨bounds, hbounds, last, hlast, hgreatest, h⟩
    have hrange : axis.range .monthlyClimatology =
        (lastMonth last.2).bind fun stop =>
          .done (some s!"{Precision.month.text start}-{Precision.month.text stop}-clim") := by
      simp only [range, Frequency.precision?, hbounds, Option.getD_some, hstart, hstop, if_true]
      rfl
    rw [hends, hrange]
    rcases lastMonth_cases (hvalid.bounds bounds hbounds last hlast).2 with
      ⟨hdate, hleap, habort⟩ | ⟨hnot, month, hmonth⟩
    · exact ⟨fun _ => by rw [habort]; rfl, fun h => absurd ⟨hdate, hleap⟩ h⟩
    · exact ⟨fun h => absurd h hnot, fun _ => ⟨_, by rw [hmonth]; rfl⟩⟩

end TimeAxis

theorem Dataset.contains_of_mem_dataVariables {d : Dataset} {indicators : List String}
    {name : String} (h : name ∈ d.dataVariables indicators) : d.vars.contains name = true :=
  d.vars.mem_keys.mp (List.mem_filter.mp h).1

namespace Consistency
open Frequency (pointSteps)
variable {d : Dataset} {attributes : Attributes} {indicators : List String}

/-- The rules, in the order of their findings. -/
def rules : List String :=
  [variableRule, frequencyRule, timeRangeRule, externalRule, timeDimensionRule]

/-- The attributes say that this is a climatology, and it ends on the first day that times are kept
for. -/
def EndsOnFirstDay (d : Dataset) (attributes : Attributes) : Prop :=
  attributes.get? "frequency" = some Frequency.monthlyClimatology.name ∧
    ∃ axis, d.time = some axis ∧ axis.EndsOnFirstDay

theorem map_rule_of_validate {findings : Findings}
    (h : validate d attributes indicators = .done findings) : findings.map (·.rule) = rules := by
  obtain ⟨timeRange, htime, h⟩ := Outcome.bind_eq_done.mp h
  cases h
  simp only [List.map_cons, List.map_nil, rule_checkVariable, rule_checkFrequency,
    rule_checkTimeRange htime, rule_checkExternal, rule_checkTimeDimension]
  rfl

theorem checkTimeRange_done_or_aborted (hvalid : ∀ axis, d.time = some axis → axis.IsValid)
    (attributes : Attributes) :
    (EndsOnFirstDay d attributes →
      checkTimeRange attributes d = .aborted TimeAxis.rangeOverflow) ∧
    (¬EndsOnFirstDay d attributes → ∃ f, checkTimeRange attributes d = .done f) := by
  unfold checkTimeRange
  cases hfrequency : attributes.get? "frequency" with
  | none => exact ⟨fun h => (by cases hfrequency.symm.trans h.1), fun _ => ⟨_, rfl⟩⟩
  | some frequency =>
    simp only
    cases hname : Frequency.ofName? frequency with
    | none =>
      refine ⟨fun h => ?_, fun _ => ⟨_, rfl⟩⟩
      obtain rfl := Option.some.inj (hfrequency.symm.trans h.1)
      cases hname
    | some f =>
      simp only
      have hiff : f = .monthlyClimatology ↔ frequency = Frequency.monthlyClimatology.name := by
        rw [Frequency.ofName?, List.find?_eq_some_iff_append] at hname
        have hf : f.name = frequency := by simpa using hname.1
        rw [← hf]
        cases f <;> simp [Frequency.name]
      cases htime : d.time with
      | none =>
        refine ⟨fun ⟨_, _, h, _⟩ => (by cases htime.symm.trans h), fun _ => ?_⟩
        rw [expectedRange, htime]
        exact ⟨_, rfl⟩
      | some axis =>
        -- all that is left is the range of the axis
        have hends : EndsOnFirstDay d attributes ↔
            f = .monthlyClimatology ∧ axis.EndsOnFirstDay := by
          rw [hiff, EndsOnFirstDay, hfrequency, htime]
          simp
        obtain ⟨habort, hdone⟩ := TimeAxis.range_done_or_aborted (hvalid axis htime) f
        rw [hends, expectedRange, htime]
        constructor
        · intro h
          simp only [habort h]
          rfl
        · intro h
          obtain ⟨range?, hrange⟩ := hdone h
          simp only [hrange]
          exact ⟨_, rfl⟩

/-- Every check comes to an end with one finding for each rule, unless the attributes say that a
dataset that ends on the first day is a climatology. No other calculation leaves its bounds, and
every data variable is found. -/
theorem validate_done_or_aborted (hvalid : ∀ axis, d.time = some axis → axis.IsValid)
    (attributes : Attributes) (indicators : List String) :
    (EndsOnFirstDay d attributes →
      validate d attributes indicators = .aborted TimeAxis.rangeOverflow) ∧
    (¬EndsOnFirstDay d attributes → ∃ findings,
      validate d attributes indicators = .done findings ∧ findings.map (·.rule) = rules) ∧
    (∀ axis, d.time = some axis →
      ∀ s ∈ pointSteps axis.points ++ axis.bounds.getD [], Frequency.InBounds s) ∧
    ∀ name ∈ d.dataVariables indicators, d.vars.contains name = true := by
  obtain ⟨habort, hdone⟩ := checkTimeRange_done_or_aborted hvalid attributes
  refine ⟨fun h => ?_, fun h => ?_, fun axis htime s hs => ?_,
    fun name => d.contains_of_mem_dataVariables⟩
  · show (checkTimeRange attributes d).bind _ = _
    rw [habort h]
    rfl
  · obtain ⟨f, hf⟩ := hdone h
    obtain ⟨findings, hvalidate⟩ :
        ∃ findings, validate d attributes indicators = .done findings := by
      show ∃ findings, (checkTimeRange attributes d).bind _ = _
      rw [hf]
      exact ⟨_, rfl⟩
    exact ⟨findings, hvalidate, map_rule_of_validate hvalidate⟩
  · have haxis := hvalid axis htime
    -- steps between points, and bounds: their ends are valid times in both cases
    rcases List.mem_append.mp hs with hs | hs
    · obtain ⟨ha, hb, -⟩ := Frequency.forall_mem_pointSteps
        (List.pairwise_of_forall fun _ _ => trivial : axis.points.Pairwise fun _ _ => True).isChain
        s hs
      exact Frequency.inBounds_of_isValid (haxis.points _ ha) (haxis.points _ hb)
    · cases hbounds : axis.bounds with
      | none => simp [hbounds] at hs
      | some bounds =>
        rw [hbounds, Option.getD_some] at hs
        exact Frequency.inBounds_of_isValid (haxis.bounds bounds hbounds s hs).1
          (haxis.bounds bounds hbounds s hs).2

/-- The header of a climatology with bounds that end on the first day. -/
def firstDayHeader : Json.Value :=
  .object [("variables", .object [("tas", .object [])]),
    ("time", .object [("points", .array [.text "2000-01-15T00:00:00"]),
      ("bounds", .array
        [.array [.text "2000-01-01T00:00:00", .text "-262143-01-01T00:00:00"]]),
      ("climatology", .bool true)])]

def firstDayDataset : Dataset where
  attributes := ∅
  dimensions := ∅
  vars := Dict.ofList [("tas", ⟨[], ∅⟩)]
  time := some ⟨"time", [⟨⟨2000, 1, 15⟩, 0, 0⟩],
    some [(⟨⟨2000, 1, 1⟩, 0, 0⟩, ⟨⟨-262143, 1, 1⟩, 0, 0⟩)], true⟩

theorem ofBytes?_firstDayHeader :
    Dataset.ofBytes? firstDayHeader.pretty.toUTF8 = some firstDayDataset := by
  have h : firstDayHeader.isPlain = true := by decide
  rw [Dataset.ofBytes?, Json.Tree.ofBytes?_pretty h]
  rfl

theorem validate_done_or_aborted_sample :
    Dataset.ofBytes? firstDayHeader.pretty.toUTF8 = some firstDayDataset ∧
    validate firstDayDataset (Dict.ofList [("frequency", "monC")]) [] =
      .aborted TimeAxis.rangeOverflow ∧
    ∃ findings, validate firstDayDataset (Dict.ofList [("frequency", "mon")]) [] = .done findings ∧
      findings.map (·.rule) = rules := by
  have hvalid : ∀ axis, firstDayDataset.time = some axis → axis.IsValid := by
    rintro _ ⟨⟩
    constructor
    · simp only [List.forall_mem_cons]
      exact ⟨Instant.isValid_whole (by decide), nofun⟩
    · rintro _ ⟨⟩
      simp only [List.forall_mem_cons]
      exact ⟨⟨Instant.isValid_whole (by decide), Instant.isValid_whole (by decide)⟩, nofun⟩
  refine ⟨ofBytes?_firstDayHeader, ?_, ?_⟩
  · refine (validate_done_or_aborted hvalid _ []).1 ⟨by decide, _, rfl, _, rfl, _,
      List.mem_singleton_self _, ?_, rfl, by decide⟩
    simp only [List.forall_mem_cons]
    exact ⟨by decide, nofun⟩
  · exact (validate_done_or_aborted hvalid _ []).2.1 fun h => absurd h.1 (by decide)

end Consistency
end ForcingData
