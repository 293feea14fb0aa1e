import ForcingData.Proofs.Dataset.Frequency
import ForcingData.Proofs.Drs.Rebuilding
import ForcingData.Proofs.Time.Order

/-! # Time ranges

The range of a time axis goes from its first to its last point, whatever order they stand in, and
the text of every point lies between those of the ends. The range of a climatology goes to the month
of the day before the end of its bounds: only an end on the first of a month is moved, but no other
day of a month has the day before it in another month (`exists_lastMonth`). Ranges hold digits, `-`
and letters alone, so they stand in file names as they are (`range_covers`). -/

namespace ForcingData

namespace Drs

/-- Every placeholder of a file name, in a section or on its own, shows the value as it is. -/
def ShownUnchanged (value : String) : Prop :=
  ∀ (fields : Attributes) (key : String), fields.get? key = some value →
    (Item.key key).render .fileName fields = .ok value.toList ∧
    ∀ items, renderSection .fileName fields (.key key :: items) =
      (·.map (value.toList ++ ·)) <$> renderSection .fileName fields items

theorem shownUnchanged_of_forall {value : String} (hne : value ≠ "")
    (h : ∀ c ∈ value.toList, isFileNameChar c = true) : ShownUnchanged value := by
  have hshown : Part.fileName.shown value = value.toList := by
    refine (List.map_congr_left fun c hc => ?_).trans (List.map_id _)
    have hc := h c hc
    unfold replaceChar
    split
    · rename_i hreplaced
      rcases (by simpa using hreplaced : c = '_' ∨ c = '.') with rfl | rfl <;> cases hc
    · rfl
  intro fields key hget
  have hvalue := fieldValue?_eq_some.mpr ⟨hget, hne⟩
  have hrender : Part.fileName.render key value = .ok value.toList := by
    rw [Part.render_of_allows (by simpa [hshown] using hne) (by rw [hshown]; exact h), hshown]
  constructor
  · simp only [Item.render, hvalue, hrender]
  · intro items
    simp only [renderSection, hvalue, hrender]
    rfl

theorem isFileNameChar_of_isDigit {c : Char} (h : c.isDigit = true) : isFileNameChar c = true := by
  have hdigit : '0' ≤ c ∧ c ≤ '9' := by simpa [Char.isDigit, Char.le_def] using h
  simp [isFileNameChar, hdigit]

end Drs

namespace Instant
variable {t before : Instant}

theorem isValid_whole {d : Date} {second : Nat}
    (h : d.isValid = true ∧ d.inRange = true ∧ second < 86400) : IsValid ⟨d, second, 0⟩ :=
  ⟨h.1, h.2.1, h.2.2, .inl (Nat.succ_pos _)⟩

/-- A leap second counts as the second after it, so that a day before may be on the same day. -/
theorem date_dayBefore (h : t.dayBefore? = some before) :
    before.date = t.date.pred ∨ before.date = t.date := by
  simp only [dayBefore?] at h
  split_ifs at h
  · obtain rfl := Option.some.inj h
    exact .inl rfl
  · obtain rfl := Option.some.inj h
    exact .inr rfl
  · obtain rfl := Option.some.inj h
    exact .inl rfl

theorem month_dayBefore (h : t.dayBefore? = some before) (hday : t.date.day ≠ 1)
    (hv : t.date.isValid = true) :
    before.date.year = t.date.year ∧ before.date.month = t.date.month := by
  rcases date_dayBefore h with hdate | hdate
  · have := (Date.isValid_bounds hv).1
    rw [hdate, Date.pred, if_pos (by omega)]
    exact ⟨rfl, rfl⟩
  · rw [hdate]
    exact ⟨rfl, rfl⟩

theorem exists_dayBefore (hy : t.HasPlainYear) :
    ∃ before, t.dayBefore? = some before := by
  have hrange : t.date.pred.inRange = true := by
    have := hy.1
    have := hy.2
    unfold Date.pred Date.inRange Date.minYear Date.maxYear
    split_ifs <;> simp only [Bool.and_eq_true, decide_eq_true_eq] <;> omega
  simp only [dayBefore?, hrange, if_true]
  split_ifs
  · exact ⟨_, rfl⟩
  · exact ⟨_, rfl⟩
  · exact ⟨_, rfl⟩

end Instant

open Frequency (Precision)

namespace TimeAxis
open Instant Drs
variable {axis : TimeAxis} {f : Frequency} {range : String}

/-- All years have four digits, that of the day before the latest end as well. -/
structure HasPlainYears (axis : TimeAxis) : Prop where
  points : ∀ t ∈ axis.points, t.HasPlainYear
  bounds : ∀ bounds, axis.bounds = some bounds → ∀ s ∈ bounds,
    s.1.HasPlainYear ∧ s.2.HasPlainYear
  dayBefore : ∀ bounds, axis.bounds = some bounds → ∀ last ∈ bounds,
    (∀ s ∈ bounds, s.2.le last.2 = true) → ∀ before, last.2.dayBefore? = some before →
      before.HasPlainYear

/-- There is a point, or for a climatology a bound. -/
def HasTimes (axis : TimeAxis) (f : Frequency) : Prop :=
  if f = .monthlyClimatology then ∃ bounds, axis.bounds = some bounds ∧ bounds ≠ []
  else axis.points ≠ []

/-- The same times in another order. -/
structure Reordered (axis axis' : TimeAxis) : Prop where
  points : axis.points.Perm axis'.points
  bounds : Option.Rel List.Perm axis.bounds axis'.bounds

/-- The range shows two points, and no point has a text that is not between theirs. -/
def Covers (axis : TimeAxis) (f : Frequency) (range : String) : Prop :=
  ∃ p, f.precision? = some p ∧ ∃ start ∈ axis.points, ∃ stop ∈ axis.points,
    range = p.text start ++ "-" ++ p.text stop ∧
      ∀ t ∈ axis.points, p.text start ≤ p.text t ∧ p.text t ≤ p.text stop

/-- The range shows the month of the earliest start of the bounds, and that of the day before their
latest end. -/
def CoversMonths (axis : TimeAxis) (range : String) : Prop :=
  ∃ bounds, axis.bounds = some bounds ∧
    ∃ first ∈ bounds, (∀ s ∈ bounds, first.1.le s.1 = true) ∧
      ∃ last ∈ bounds, (∀ s ∈ bounds, s.2.le last.2 = true) ∧
        ∃ before, last.2.dayBefore? = some before ∧
          range = Precision.month.text first.1 ++ "-" ++ Precision.month.text before ++ "-clim"

/-! ### The order of times -/

theorem range_of_reordered {axis' : TimeAxis} (h : axis.Reordered axis') (f : Frequency) :
    axis'.range f = axis.range f := by
  have hbounds : (axis.bounds.getD []).Perm (axis'.bounds.getD []) := by
    have hrel := h.bounds
    generalize axis.bounds = bounds, axis'.bounds = bounds' at hrel
    cases hrel with
    | some hperm => exact hperm
    | none => exact .refl _
  unfold range
  simp only [earliest?_eq_of_perm h.points, latest?_eq_of_perm h.points,
    earliest?_eq_of_perm (hbounds.map (·.1)), latest?_eq_of_perm (hbounds.map (·.2))]

/-! ### Points -/

theorem range_of_points {p : Precision} (hp : f.precision? = some p)
    (hf : f ≠ .monthlyClimatology) :
    axis.range f = .done ((earliest? axis.points).bind fun start =>
      (latest? axis.points).map fun stop => p.text start ++ "-" ++ p.text stop) := by
  unfold range
  simp only [hp, if_neg hf]
  cases earliest? axis.points <;> cases latest? axis.points <;> simp [toString]

theorem covers_of_points (hvalid : axis.IsValid) (hyears : axis.HasPlainYears) {p : Precision}
    (hp : f.precision? = some p) {start stop : Instant}
    (hstart : earliest? axis.points = some start) (hstop : latest? axis.points = some stop) :
    axis.Covers f (p.text start ++ "-" ++ p.text stop) := by
  obtain ⟨hfirst, hleast⟩ := earliest?_eq_some_iff.mp hstart
  obtain ⟨hlast, hgreatest⟩ := latest?_eq_some_iff.mp hstop
  refine ⟨p, hp, start, hfirst, stop, hlast, rfl, fun t ht => ⟨?_, ?_⟩⟩
  · exact p.text_le_text (hvalid.points _ hfirst) (hvalid.points t ht) (hyears.points _ hfirst)
      (hyears.points t ht) (hleast t ht)
  · exact p.text_le_text (hvalid.points t ht) (hvalid.points _ hlast) (hyears.points t ht)
      (hyears.points _ hlast) (hgreatest t ht)

/-! ### Bounds -/

/-- The month that ends a climatology is that of the day before, whatever day the end is. -/
theorem exists_lastMonth {t : Instant} (hv : t.date.isValid = true) (hy : t.HasPlainYear) :
    ∃ before last, t.dayBefore? = some before ∧ lastMonth t = .done last ∧
      Precision.month.text last = Precision.month.text before := by
  obtain ⟨before, hbefore⟩ := exists_dayBefore hy
  unfold lastMonth
  split_ifs with hday
  · exact ⟨before, before, hbefore, by rw [hbefore], rfl⟩
  · obtain ⟨hyear, hmonth⟩ := month_dayBefore hbefore hday hv
    refine ⟨before, t, hbefore, rfl, ?_⟩
    unfold Precision.text
    rw [hyear, hmonth]

theorem exists_bound {bounds : List Frequency.Step} {start stop : Instant}
    (hstart : earliest? (bounds.map (·.1)) = some start)
    (hstop : latest? (bounds.map (·.2)) = some stop) :
    (∃ first ∈ bounds, first.1 = start ∧ ∀ s ∈ bounds, first.1.le s.1 = true) ∧
      ∃ last ∈ bounds, last.2 = stop ∧ ∀ s ∈ bounds, s.2.le last.2 = true := by
  obtain ⟨hfirst, hleast⟩ := earliest?_eq_some_iff.mp hstart
  obtain ⟨hlast, hgreatest⟩ := latest?_eq_some_iff.mp hstop
  obtain ⟨first, hmem, rfl⟩ := List.mem_map.mp hfirst
  obtain ⟨last, hmem', rfl⟩ := List.mem_map.mp hlast
  exact ⟨⟨first, hmem, rfl, fun s hs => hleast _ (List.mem_map_of_mem hs)⟩,
    last, hmem', rfl, fun s hs => hgreatest _ (List.mem_map_of_mem hs)⟩

/-- The range of a climatology, which is never the cause of an abort in these years. -/
theorem exists_range_of_bounds (hvalid : axis.IsValid) (hyears : axis.HasPlainYears) :
    (axis.range .monthlyClimatology = .done none ∧ axis.bounds.getD [] = []) ∨
      ∃ range, axis.range .monthlyClimatology = .done (some range) ∧
        axis.bounds.getD [] ≠ [] ∧ axis.CoversMonths range := by
  unfold range
  simp only [Frequency.precision?, if_true]
  by_cases hnil : axis.bounds.getD [] = []
  · left
    simp [hnil, earliest?]
  obtain ⟨bounds, hbounds⟩ : ∃ bounds, axis.bounds = some bounds :=
    Option.ne_none_iff_exists'.mp fun hnone => hnil (by rw [hnone]; rfl)
  rw [hbounds, Option.getD_some] at hnil ⊢
  obtain ⟨start, hstart⟩ := Option.isSome_iff_exists.mp
    (earliest?_isSome_iff.mpr (List.map_eq_nil_iff.not.mpr hnil : bounds.map (·.1) ≠ []))
  obtain ⟨stop, hstop⟩ := Option.isSome_iff_exists.mp
    (latest?_isSome_iff.mpr (List.map_eq_nil_iff.not.mpr hnil : bounds.map (·.2) ≠ []))
  obtain ⟨⟨first, hfirst, rfl, hleast⟩, last, hlast, rfl, hgreatest⟩ := exists_bound hstart hstop
  -- the range ends in the month of the day before the last bound ends
  obtain ⟨before, month, hbefore, hmonth, htext⟩ :=
    exists_lastMonth (hvalid.bounds bounds hbounds last hlast).2.date
      (hyears.bounds bounds hbounds last hlast).2
  right
  refine ⟨Precision.month.text first.1 ++ "-" ++ Precision.month.text before ++ "-clim", ?_, hnil,
    bounds, hbounds, first, hfirst, hleast, last, hlast, hgreatest, before, hbefore, rfl⟩
  rw [hstart, hstop]
  simp only [hmonth]
  show Outcome.done _ = _
  rw [← htext]
  simp [toString]

/-! ### Ranges in file names -/

theorem shownUnchanged_of_covers (hyears : axis.HasPlainYears) (h : axis.Covers f range) :
    ShownUnchanged range := by
  obtain ⟨p, -, start, hstart, stop, hstop, rfl, -⟩ := h
  refine shownUnchanged_of_forall (by simp) fun c hc => ?_
  simp only [String.toList_append, List.mem_append] at hc
  rcases hc with (hc | hc) | hc
  · exact isFileNameChar_of_isDigit (p.isDigit_of_mem_text (hyears.points _ hstart) c hc)
  · obtain rfl : c = '-' := by simpa using hc
    rfl
  · exact isFileNameChar_of_isDigit (p.isDigit_of_mem_text (hyears.points _ hstop) c hc)

theorem shownUnchanged_of_coversMonths (hyears : axis.HasPlainYears) (h : axis.CoversMonths range) :
    ShownUnchanged range := by
  obtain ⟨bounds, hbounds, first, hfirst, -, last, hlast, hgreatest, before, hbefore, rfl⟩ := h
  have hend := hyears.dayBefore bounds hbounds last hlast hgreatest before hbefore
  have hfixed : ∀ c ∈ "-clim".toList, isFileNameChar c = true := List.all_eq_true.mp (by rfl)
  refine shownUnchanged_of_forall (by simp) fun c hc => ?_
  simp only [String.toList_append, List.mem_append] at hc
  rcases hc with ((hc | hc) | hc) | hc
  · exact isFileNameChar_of_isDigit (Precision.month.isDigit_of_mem_text
      (hyears.bounds bounds hbounds first hfirst).1 c hc)
  · obtain rfl : c = '-' := by simpa using hc
    rfl
  · exact isFileNameChar_of_isDigit (Precision.month.isDigit_of_mem_text hend c hc)
  · exact hfixed c hc

/-! ### All ranges -/

/-- There is a range where there are times, it does not depend on their order, it covers them, and
file names show it as it is. -/
theorem range_covers (hvalid : axis.IsValid) (hyears : axis.HasPlainYears) (f : Frequency) :
    ∃ range?, axis.range f = .done range? ∧
      (range?.isSome = true ↔ f ≠ .fixed ∧ axis.HasTimes f) ∧
      (∀ axis', axis.Reordered axis' → axis'.range f = .done range?) ∧
      ∀ range, range? = some range →
        (f ≠ .monthlyClimatology → axis.Covers f range) ∧
        (f = .monthlyClimatology → axis.CoversMonths range) ∧ ShownUnchanged range := by
  suffices h : ∃ range?, axis.range f = .done range? ∧
      (range?.isSome = true ↔ f ≠ .fixed ∧ axis.HasTimes f) ∧
      ∀ range, range? = some range →
        (f ≠ .monthlyClimatology → axis.Covers f range) ∧
        (f = .monthlyClimatology → axis.CoversMonths range) ∧ ShownUnchanged range by
    obtain ⟨range?, hrange, hsome, hshape⟩ := h
    exact ⟨range?, hrange, hsome, fun _ h => (range_of_reordered h f).trans hrange, hshape⟩
  -- a climatology has its range from the bounds, all others from the points
  by_cases hclim : f = .monthlyClimatology
  · subst hclim
    have htimes : axis.HasTimes .monthlyClimatology ↔ axis.bounds.getD [] ≠ [] := by
      rw [HasTimes, if_pos rfl]
      cases axis.bounds <;> simp
    rcases exists_range_of_bounds hvalid hyears with ⟨hrange, hnil⟩ | ⟨range, hrange, hnil, hcovers⟩
    · exact ⟨none, hrange, by simp [htimes, hnil], nofun⟩
    · refine ⟨some range, hrange, by simp [htimes, hnil], fun _ h => ?_⟩
      obtain rfl := Option.some.inj h
      exact ⟨fun hne => absurd rfl hne, fun _ => hcovers,
        shownUnchanged_of_coversMonths hyears hcovers⟩
  have htimes : axis.HasTimes f ↔ axis.points ≠ [] := by rw [HasTimes, if_neg hclim]
  cases hp : f.precision? with
  | none =>
    have hfixed : f = .fixed := by cases f <;> first | rfl | cases hp
    refine ⟨none, ?_, by simp [hfixed], nofun⟩
    rw [range, hp]
  | some p =>
    have hfixed : f ≠ .fixed := by
      rintro rfl
      cases hp
    refine ⟨_, range_of_points hp hclim, ?_, fun range h => ?_⟩
    · cases hpoints : axis.points <;> simp [htimes, hpoints, hfixed, earliest?, latest?]
    · obtain ⟨start, hstart, h⟩ := Option.bind_eq_some_iff.mp h
      obtain ⟨stop, hstop, rfl⟩ := Option.map_eq_some_iff.mp h
      have hcovers := covers_of_points hvalid hyears hp hstart hstop
      exact ⟨fun _ => hcovers, fun h => absurd h hclim, shownUnchanged_of_covers hyears hcovers⟩

/-- Days around a leap day, the last one first, and two months that end with a leap day. -/
def leapAxis : TimeAxis :=
  ⟨"time", [⟨⟨2000, 3, 1⟩, 43200, 0⟩, ⟨⟨2000, 2, 28⟩, 43200, 0⟩, ⟨⟨2000, 2, 29⟩, 43200, 0⟩],
    some [(⟨⟨2000, 2, 1⟩, 0, 0⟩, ⟨⟨2000, 3, 1⟩, 0, 0⟩),
      (⟨⟨1999, 12, 1⟩, 0, 0⟩, ⟨⟨2000, 1, 1⟩, 0, 0⟩)], true⟩

theorem range_covers_sample :
    (leapAxis.range .daily = .done (some "20000228-20000301") ∧
      leapAxis.Covers .daily "20000228-20000301") ∧
    leapAxis.range .monthlyClimatology = .done (some "199912-200002-clim") ∧
      leapAxis.CoversMonths "199912-200002-clim" ∧ ShownUnchanged "199912-200002-clim" := by
  have hvalid : leapAxis.IsValid := by
    constructor
    · simp only [leapAxis, List.forall_mem_cons]
      refine ⟨isValid_whole ?_, isValid_whole ?_, isValid_whole ?_, by simp⟩ <;> decide
    · intro bounds h
      obtain rfl := Option.some.inj h
      simp only [List.forall_mem_cons]
      refine ⟨⟨isValid_whole ?_, isValid_whole ?_⟩, ⟨isValid_whole ?_, isValid_whole ?_⟩, by simp⟩
        <;> decide
  have hyears : leapAxis.HasPlainYears := by
    refine ⟨by decide, fun bounds h => ?_, fun bounds h last hlast _ before hbefore => ?_⟩
    · obtain rfl := Option.some.inj h
      decide
    · obtain rfl := Option.some.inj h
      rcases List.mem_pair.mp hlast with rfl | rfl <;> (cases hbefore; decide)
  have covers := range_covers hvalid hyears
  constructor
  · obtain ⟨range?, hrange, -, -, hshape⟩ := covers .daily
    have hdaily : leapAxis.range .daily = .done (some "20000228-20000301") := by decide
    obtain rfl := Outcome.done.inj (hrange.symm.trans hdaily)
    exact ⟨hdaily, (hshape _ rfl).1 nofun⟩
  · obtain ⟨range?, hrange, -, -, hshape⟩ := covers .monthlyClimatology
    have hmonths : leapAxis.range .monthlyClimatology = .done (some "199912-200002-clim") := by
      decide
    obtain rfl := Outcome.done.inj (hrange.symm.trans hmonths)
    exact ⟨hmonths, (hshape _ rfl).2.1 rfl, (hshape _ rfl).2.2⟩

end TimeAxis
end ForcingData
