import ForcingData.Proofs.Drs.FileName
import ForcingData.Proofs.Metadata.Ranking
import ForcingData.Proofs.Metadata.Steps

/-! # Which source a value comes from

The metadata has the values of the explicit arguments, then those of the file content, then those of
the path, and these at most respelt by what is inferred (`prioritized`). Of the values that are
dropped, there is one warning for each that a file name would show otherwise than the one that is
used, and none for the others (`reported`). -/

namespace ForcingData
namespace Inferred
open Layers

/-- What is inferred for a key also where a path shows a value for it. -/
inductive Inferable (d : Dataset) (indicators : List String) (fresh : Fresh) (m : Metadata) :
    String → String → Prop
  | variable {name : String} (h : inferVariable d indicators = .ok name) :
    Inferable d indicators fresh m "variable_id" name
  | timeRange {range : String} (h : rangeValue d (m.get? "frequency") = .done (some range)) :
    Inferable d indicators fresh m "time_range" range
  | conventions : Inferable d indicators fresh m "Conventions" defaultConventions
  | creationDate : Inferable d indicators fresh m "creation_date" fresh.creationDate
  | trackingId : Inferable d indicators fresh m "tracking_id" fresh.trackingId
  | version : Inferable d indicators fresh m "version"
      (versionOf ((m.get? "creation_date").getD ""))

variable {m : Minimum} {d : Dataset} {path? : Option Path} {cv : Vocabularies}
  {indicators : List String} {fresh : Fresh} {i : Inferred}

theorem exists_infers (h : ofMinimum m d path? cv indicators fresh = .done (.ok i)) :
    ∃ l, Infers (Inferable d indicators fresh i.metadata) (ofSources m d path? cv.drs) l ∧
      Retains (ofSources m d path? cv.drs) l ∧
      Metadata.ofAttributes? l.values cv = .ok i.metadata := by
  obtain ⟨l, hl, hm, _⟩ := ofMinimum_eq_ok.mp h
  have hfrequency : i.metadata.get? "frequency" = l.get? "frequency" :=
    (Metadata.get?_of_ofAttributes?_required hm (by decide)).trans
      (keeps_settleFresh "frequency" (by decide))
  have hdate : (i.metadata.get? "creation_date").getD "" =
      ((l.settleFresh fresh).get? "creation_date").getD "" :=
    Metadata.getD_get?_of_ofAttributes? hm (by decide)
  refine ⟨l.settleFresh fresh, ?_, hl.retains.trans (retains_settleFresh fresh l), hm⟩
  exact (hl.infers (fun _ => .variable) fun _ hrange => .timeRange (hfrequency ▸ hrange)).trans <|
    infers_settleFresh fresh l .conventions .creationDate .trackingId (hdate ▸ .version)

/-- Every value is from the first source that has one; where this is the path, the value is at most
respelt. There are only warnings, about keys for which two sources have different values. -/
structure Prioritized (m : Minimum) (d : Dataset) (path? : Option Path) (drs : Drs)
    (indicators : List String) (fresh : Fresh) (i : Inferred) : Prop where
  explicit : ∀ key value, Metadata.isKnown key = true →
    Drs.fieldValue? m.attributes key = some value → i.metadata.get? key = some value
  content : ∀ key value, Metadata.isKnown key = true →
    Drs.fieldValue? m.attributes key = none → Drs.fieldValue? d.textAttributes key = some value →
    i.metadata.get? key = some value
  path : ∀ path fields key value, path? = some path → readPath? drs path = some fields →
    Metadata.isKnown key = true → Drs.fieldValue? m.attributes key = none →
    Drs.fieldValue? d.textAttributes key = none → Drs.fieldValue? fields key = some value →
    ∃ w, i.metadata.get? key = some w ∧ (w = value ∨
      Inferable d indicators fresh i.metadata key w ∧
        Drs.applyKnownReplacements w = Drs.applyKnownReplacements value)
  warnings : ∀ f ∈ i.discrepancies, f.status = .warning ∧ Metadata.isKnown f.target = true ∧
    ∃ s ∈ ranked m d path? drs, ∃ s' ∈ ranked m d path? drs, s.1 ≠ s'.1 ∧ ∃ value value',
      Drs.fieldValue? s.2 f.target = some value ∧ Drs.fieldValue? s'.2 f.target = some value' ∧
        value ≠ value'

theorem discrepancies_eq (h : ofMinimum m d path? cv indicators fresh = .done (.ok i)) :
    i.discrepancies = (ofSources m d path? cv.drs).discrepancies := by
  obtain ⟨l, hl, _, hd⟩ := ofMinimum_eq_ok.mp h
  rw [hd, discrepancies_settleFresh, hl.discrepancies_eq]

/-- A warning is about a source whose value another one has taken the place of. -/
theorem exists_of_mem_discrepancies
    (h : ofMinimum m d path? cv indicators fresh = .done (.ok i)) {f : Finding}
    (hf : f ∈ i.discrepancies) : Metadata.isKnown f.target = true ∧ ∃ xs s ys kept value,
      ranked m d path? cv.drs = xs ++ s :: ys ∧ first? f.target xs = some kept ∧
        Drs.fieldValue? s.2 f.target = some value ∧ sameInFileName kept.2 value = false ∧
          f = disagreement f.target kept s.1 value := by
  rw [discrepancies_eq h] at hf
  have hsources := holds_ofSources m d path? cv.drs
  have hkey := hsources.known f hf
  have hmem : f ∈ warningsAt f.target [] (ranked m d path? cv.drs) := by
    rw [← hsources.warnings _ hkey]
    exact List.mem_filter.mpr ⟨hf, by simp⟩
  obtain ⟨xs, s, ys, hsplit, hs⟩ := mem_warningsAt hmem
  obtain ⟨kept, value, hkept, hs⟩ := disagreement?_eq_some.mp hs
  exact ⟨hkey, xs, s, ys, kept, value, hsplit, hkept, hs⟩

/-- The value that the sources have first stays; one from a path may be respelt. -/
theorem get?_of_first? (h : ofMinimum m d path? cv indicators fresh = .done (.ok i)) {key : String}
    (hkey : Metadata.isKnown key = true) {first : Origin × String}
    (hfirst : first? key (ranked m d path? cv.drs) = some first) :
    ∃ w, i.metadata.get? key = some w ∧ (w = first.2 ∨ first.1 = .fileName ∧
      Inferable d indicators fresh i.metadata key w ∧
        Drs.applyKnownReplacements w = Drs.applyKnownReplacements first.2) := by
  obtain ⟨l, hinfers, hretains, hm⟩ := exists_infers h
  have hsources := holds_ofSources m d path? cv.drs
  obtain ⟨s, _, _, hv⟩ := exists_of_first? hfirst
  have hne : first.2 ≠ "" := (Drs.fieldValue?_eq_some.mp hv).2
  have hget : (ofSources m d path? cv.drs).get? key = some first.2 := by
    rw [hsources.value key hkey, hfirst, Option.map_some]
  by_cases horigin : first.1 = .fileName
  · obtain ⟨w, hw, hor⟩ := hinfers.respelt hget
    have hne' : w ≠ "" := by
      rintro rfl
      rcases hor with he | ⟨_, hsame⟩
      · exact hne he.symm
      · exact Drs.applyKnownReplacements_ne_empty hne hsame.symm
    exact ⟨w, Metadata.get?_of_ofAttributes? hm hkey hne' hw, hor.imp_right fun h => ⟨horigin, h⟩⟩
  · have hstays : (ofSources m d path? cv.drs).Stays key first.2 := by
      refine ⟨hget, fun _ he => horigin ?_⟩
      rw [hsources.origin key hkey, hfirst, Option.map_some] at he
      exact Option.some.inj he
    exact ⟨first.2, Metadata.get?_of_ofAttributes? hm hkey hne (hretains _ _ hstays).1, .inl rfl⟩

theorem prioritized (h : ofMinimum m d path? cv indicators fresh = .done (.ok i)) :
    Prioritized m d path? cv.drs indicators fresh i := by
  refine ⟨fun key value hkey hv => ?_, fun key value hkey hnone hv => ?_,
    fun path fields key value hpath hfields hkey hnone hnone' hv => ?_, fun f hf => ?_⟩
  · have hfirst : first? key (ranked m d path? cv.drs) = some (.arguments, value) := by
      simp [ranked, first?, hv]
    obtain ⟨w, hw, rfl | ⟨hpath, _⟩⟩ := get?_of_first? h hkey hfirst
    · exact hw
    · cases hpath
  · have hfirst : first? key (ranked m d path? cv.drs) = some (.content, value) := by
      simp [ranked, first?, hnone, hv]
    obtain ⟨w, hw, rfl | ⟨hpath, _⟩⟩ := get?_of_first? h hkey hfirst
    · exact hw
    · cases hpath
  · have hfirst : first? key (ranked m d path? cv.drs) = some (.fileName, value) := by
      simp [ranked, first?, hnone, hnone', hpath, hfields, hv]
    obtain ⟨w, hw, hor⟩ := get?_of_first? h hkey hfirst
    exact ⟨w, hw, hor.imp_right fun h => h.2⟩
  · -- a warning is about a source behind the one whose value is kept, and no two are the same
    obtain ⟨hkey, xs, s, ys, kept, value, hsplit, hkept, hv, hsame, hwarning⟩ :=
      exists_of_mem_discrepancies h hf
    obtain ⟨s₀, hs₀, horigin, hv₀⟩ := exists_of_first? hkept
    have hnodup := nodup_ranked m d path? cv.drs
    rw [hsplit, List.map_append, List.nodup_append] at hnodup
    refine ⟨by rw [hwarning]; rfl, hkey, s₀, ?_, s, ?_, ?_, kept.2, value, hv₀, hv, ?_⟩
    · rw [hsplit]
      exact List.mem_append_left _ hs₀
    · rw [hsplit]
      exact List.mem_append_right _ (List.mem_cons_self ..)
    · exact hnodup.2.2 _ (List.mem_map_of_mem hs₀) _ (List.mem_cons_self ..)
    · rintro rfl
      simp [sameInFileName] at hsame

/-- A title that a file name would show as it shows the one of the data, and another comment. -/
def retoldMinimum : Minimum :=
  { sampleMinimum with extra := Dict.ofList [("comment", "new"), ("title", "a-b")] }

/-- The name of the variable is not what a file name shows. -/
def carbonMonths : Dataset :=
  { sampleMonths with
    attributes := Dict.ofList [("activity_id", .text "input"), ("comment", .text "old"),
      ("title", .text "a_b")]
    vars := Dict.ofList
      [("mole_fraction_of_methane_in_air", ⟨["time"], ∅⟩), ("time", ⟨["time"], ∅⟩)] }

def retold : Outcome (Except InferenceError Inferred) :=
  ofMinimum retoldMinimum carbonMonths (some ⟨"s1/mole-fraction-of-methane-in-air.nc"⟩)
    FileValidation.sampleVocabularies [] sampleFresh

theorem exists_retold : ∃ i, retold = .done (.ok i) ∧
    i.metadata.get? "variable_id" = some "mole_fraction_of_methane_in_air" := by
  have hvalues : sampleValues retold =
      [some "mole_fraction_of_methane_in_air", some "mon", some "200001-200003"] := by
    decide +kernel
  rw [sampleValues.eq_def] at hvalues
  split at hvalues
  · rename_i i hi
    exact ⟨i, hi, (List.cons.inj hvalues).1⟩
  · cases hvalues

theorem prioritized_sample : ∃ i, retold = .done (.ok i) ∧
    Prioritized retoldMinimum carbonMonths (some ⟨"s1/mole-fraction-of-methane-in-air.nc"⟩)
      FileValidation.sampleVocabularies.drs [] sampleFresh i ∧
    i.metadata.get? "comment" = some "new" ∧
    i.metadata.get? "variable_id" = some "mole_fraction_of_methane_in_air" := by
  obtain ⟨i, hi, hvariable⟩ := exists_retold
  have h := prioritized hi
  exact ⟨i, hi, h, h.explicit "comment" "new" (by decide) (by decide), hvariable⟩

/-- Where a source has a value for a key that one before it has a value for too, there is one
warning, or none if a file name would show both values in the same way. There are no others. -/
structure Reported (m : Minimum) (d : Dataset) (path? : Option Path) (drs : Drs) (i : Inferred) :
    Prop where
  count : ∀ key before s after kept value, Metadata.isKnown key = true →
    ranked m d path? drs = before ++ s :: after → first? key before = some kept →
    Drs.fieldValue? s.2 key = some value →
    i.discrepancies.count (disagreement key kept s.1 value) =
      if sameInFileName kept.2 value then 0 else 1
  sound : ∀ f ∈ i.discrepancies, Metadata.isKnown f.target = true ∧ ∃ before s after kept value,
    ranked m d path? drs = before ++ s :: after ∧ first? f.target before = some kept ∧
      Drs.fieldValue? s.2 f.target = some value ∧ sameInFileName kept.2 value = false ∧
        f = disagreement f.target kept s.1 value

theorem reported (h : ofMinimum m d path? cv indicators fresh = .done (.ok i)) :
    Reported m d path? cv.drs i := by
  refine ⟨fun key before s after kept value hkey hsplit hkept hv => ?_,
    fun f => exists_of_mem_discrepancies h⟩
  have hnodup := nodup_ranked m d path? cv.drs
  rw [hsplit, List.map_append, List.map_cons, List.nodup_append, List.nodup_cons] at hnodup
  obtain ⟨_, ⟨hafter, _⟩, hbefore⟩ := hnodup
  have hother : ∀ s' ∈ before, s'.1 ≠ s.1 := fun s' hs' =>
    hbefore _ (List.mem_map_of_mem hs') _ (List.mem_cons_self ..)
  have hother' : ∀ s' ∈ after, s'.1 ≠ s.1 := fun s' hs' he =>
    hafter (he ▸ List.mem_map_of_mem hs')
  have htarget : (i.discrepancies.filter (·.target = key)).count (disagreement key kept s.1 value) =
      i.discrepancies.count (disagreement key kept s.1 value) :=
    List.count_filter (decide_eq_true rfl)
  rw [← htarget, discrepancies_eq h, (holds_ofSources m d path? cv.drs).warnings key hkey, hsplit,
    warningsAt_append, warningsAt, List.count_append, List.count_append,
    count_warningsAt_eq_zero hother, count_warningsAt_eq_zero hother', List.nil_append,
    Nat.zero_add, Nat.add_zero, hkept, disagreement?, Option.bind_some, hv, Option.bind_some]
  split_ifs
  · rfl
  · exact List.count_singleton_self ..

/-- There is a warning about the comment, and none about the title. -/
theorem reported_sample : ∃ i, retold = .done (.ok i) ∧
    i.discrepancies.count (disagreement "comment" (.arguments, "new") .content "old") = 1 ∧
    i.discrepancies.count (disagreement "title" (.arguments, "a-b") .content "a_b") = 0 := by
  obtain ⟨i, hi, _⟩ := exists_retold
  have h := reported hi
  refine ⟨i, hi, (h.count "comment" [_] (.content, _) _ (.arguments, "new") "old" (by decide) rfl
    (by decide) (by decide)).trans (if_neg (by decide)), ?_⟩
  exact (h.count "title" [_] (.content, _) _ (.arguments, "a-b") "a_b" (by decide) rfl
    (by decide) (by decide)).trans (if_pos (by decide))

end Inferred
end ForcingData
