import ForcingData.Proofs.Metadata.OwnName
import ForcingData.Proofs.Metadata.Ranking

/-! # Creation dates and versions

A creation date passes exactly if it is a stamp. Wherever the creation date of inferred metadata
comes from, it has passed its rule, so that a version that no source has is the day of a stamp
(`creationDates_are_stamps`). -/

namespace ForcingData

theorem Rule.status_creationDateFormat {attributes : Attributes} {cv : Vocabularies}
    {value : String} (hv : attributes.get? "creation_date" = some value) :
    (creationDateFormat.run attributes cv).status = .pass ↔ ∃ s : Stamp, value = s.text := by
  have hcheck : (creationDateFormat.run attributes cv).status = .pass ↔
      isCreationDate value.toList = true := by
    simp only [run, check, hv]
    by_cases hdate : isCreationDate value.toList = true <;>
      simp [hdate, Finding.pass, Finding.fail]
  rw [hcheck, isCreationDate_iff]
  exact exists_congr fun s => String.toList_inj

namespace Layers
variable {m : Minimum} {d : Dataset} {path? : Option Path} {cv : Vocabularies}
  {indicators : List String} {l : Layers} {key value : String}

theorem ne_empty_of_ofSources (hkey : Metadata.isKnown key = true)
    (hv : (ofSources m d path? cv.drs).get? key = some value) : value ≠ "" := by
  rw [(holds_ofSources m d path? cv.drs).value key hkey, Option.map_eq_some_iff] at hv
  obtain ⟨kept, hkept, rfl⟩ := hv
  obtain ⟨_, _, _, hfield⟩ := exists_of_first? hkept
  exact (Drs.fieldValue?_eq_some.mp hfield).2

theorem exists_creationDate (h : Settles m d cv indicators (ofSources m d path? cv.drs) l)
    {fresh : Fresh} (hfresh : fresh.creationDate ≠ "") :
    ∃ date, date ≠ "" ∧ (l.settleFresh fresh).get? "creation_date" = some date := by
  have hsettled : l.get? "creation_date" =
    (ofSources m d path? cv.drs).get? "creation_date" := h.keeps _ (by decide)
  cases hv : l.get? "creation_date" with
  | none => exact ⟨fresh.creationDate, hfresh, get?_settleFresh_creationDate fresh hv⟩
  | some value =>
    have hvalue : value ≠ "" := ne_empty_of_ofSources (by decide) (hsettled.symm.trans hv)
    have hinfers : Infers (fun key w => key = "creation_date" → w ≠ "") l (l.settleFresh fresh) :=
      infers_settleFresh fresh l (by decide) (fun _ => hfresh) (fun he => absurd he (by decide))
        fun he => absurd he (by decide)
    obtain ⟨w, hw, rfl | ⟨hne, _⟩⟩ := hinfers.respelt hv
    · exact ⟨w, hvalue, hw⟩
    · exact ⟨w, hne rfl, hw⟩

end Layers

namespace Inferred
open Layers

theorem exists_stamp {m : Minimum} {d : Dataset} {path? : Option Path} {cv : Vocabularies}
    {indicators : List String} {fresh : Fresh} {i : Inferred} (hfresh : fresh.creationDate ≠ "")
    (h : ofMinimum m d path? cv indicators fresh = .done (.ok i))
    (hs : ¬Supplied m d path? cv.drs "version") : ∃ s : Stamp,
      i.metadata.get? "creation_date" = some s.text ∧ i.metadata.get? "version" = some s.day := by
  obtain ⟨l, hsettles, hm, _⟩ := ofMinimum_eq_ok.mp h
  obtain ⟨date, hne, hdate⟩ := exists_creationDate hsettles hfresh
  have hkept := Metadata.get?_of_ofAttributes? hm (by decide) hne hdate
  have hpassed := Metadata.isCreationDate_of_ofAttributes? hm hkept
  obtain ⟨s, htext⟩ := Rule.isCreationDate_iff.mp hpassed
  rw [String.toList_injective htext] at hdate hkept
  have hunset : l.get? "version" = none :=
    (hsettles.keeps _ (by decide)).trans (unset_ofSources hs).1
  have hversion : (l.settleFresh fresh).get? "version" = some s.day := by
    rw [get?_settleFresh_version fresh (by simp [hunset]), hunset, hdate, ← s.versionOf_text]
    rfl
  exact ⟨s, hkept, Metadata.get?_of_ofAttributes? hm (by decide) s.day_ne_empty hversion⟩

/-- Of all texts it is the stamps that pass as creation dates, and a version that no source has is
the day of the creation date. Where no source has a date the clock is asked, and all that matters of
what it says is that it is not empty. -/
theorem creationDates_are_stamps :
    (∀ s : Stamp, s.text.length = 20 ∧ ∀ c ∈ s.text.toList, c.toNat < 128) ∧
    (∀ (attributes : Attributes) (cv : Vocabularies) (value : String),
      attributes.get? "creation_date" = some value →
        ((Rule.creationDateFormat.run attributes cv).status = .pass ↔
          ∃ s : Stamp, value = s.text)) ∧
    ∀ (m : Minimum) (d : Dataset) (path? : Option Path) (cv : Vocabularies)
      (indicators : List String) (fresh : Fresh) (i : Inferred), fresh.creationDate ≠ "" →
        ofMinimum m d path? cv indicators fresh = .done (.ok i) →
          ¬Supplied m d path? cv.drs "version" → ∃ s : Stamp,
            i.metadata.get? "creation_date" = some s.text ∧
              i.metadata.get? "version" = some s.day :=
  ⟨fun s => ⟨s.length_text, fun _ => s.isAscii_text⟩,
    fun _ _ _ => Rule.status_creationDateFormat,
    fun _ _ _ _ _ _ _ hfresh h hs => exists_stamp hfresh h hs⟩

/-- The last second of a day with a leap second. -/
def leapSecond : Stamp := ⟨⟨2016, 12, 31⟩, 23, 59, 60, by decide, by decide, by decide, by decide,
  by decide⟩

/-- Creation date and version of what was inferred, or nothing where this failed. -/
def sampleDates : Outcome (Except InferenceError Inferred) → List (Option String)
  | .done (.ok i) => ["creation_date", "version"].map i.metadata.get?
  | _ => []

theorem creationDates_are_stamps_sample :
    (Rule.creationDateFormat.run (Dict.ofList [("creation_date", "2016-12-31T23:59:60Z")])
      FileValidation.sampleVocabularies).status = .pass ∧
    ∃ i, sampleInferred = .done (.ok i) ∧ ∃ s : Stamp,
      i.metadata.get? "creation_date" = some s.text ∧ i.metadata.get? "version" = some s.day ∧
      s.text = "2020-01-01T00:00:00Z" ∧ s.day = "20200101" := by
  obtain ⟨_, hpass, hstamp⟩ := creationDates_are_stamps
  refine ⟨(hpass _ _ leapSecond.text (by decide +kernel)).mpr ⟨leapSecond, rfl⟩, ?_⟩
  have hdates : sampleDates sampleInferred = [some "2020-01-01T00:00:00Z", some "20200101"] := by
    decide +kernel
  rw [sampleDates.eq_def] at hdates
  split at hdates
  · rename_i i hi
    simp only [List.map_cons, List.map_nil, List.cons.injEq, and_true] at hdates
    obtain ⟨hdate, hversion⟩ := hdates
    have hunsupplied : ¬Supplied sampleMinimum sampleMonths none
      FileValidation.sampleVocabularies.drs "version" := by decide +kernel
    obtain ⟨s, hstext, hsday⟩ := hstamp _ _ _ _ _ _ i (by decide) hi hunsupplied
    exact ⟨i, hi, s, hstext, hsday, Option.some.inj (hstext.symm.trans hdate),
      Option.some.inj (hsday.symm.trans hversion)⟩
  · cases hdates

end Inferred
end ForcingData
