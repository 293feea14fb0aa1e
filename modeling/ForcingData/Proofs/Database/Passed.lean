import ForcingData.Proofs.Database.Completing
import ForcingData.Proofs.FileTree.Growth
import ForcingData.Proofs.FileTree.Inside
import ForcingData.Proofs.Text.Blank

/-! # Entries that passed

The rules look at the attributes of an entry as they are, the metadata is made of them without the
blanks around the values. Values from the file have none, and neither has a frequency that fits the
time axis (`encoded_of_blanks`). So only a path can part the two, and an entry that passed holds its
metadata exactly if no known value has blanks around it: `holdsMetadata_of_passed`. -/

namespace ForcingData

theorem Frequency.trim_name (f : Frequency) : Text.trim f.name = f.name := by
  cases f <;> decide

theorem EntryStatus.hasFailures_of_passed {fs : Findings} (h : ofStatus fs.summary = .passed) :
    fs.hasFailures = false := by
  by_contra hne
  rw [Findings.summary_eq_fail.mpr (Bool.eq_true_of_not_eq_false hne)] at h
  cases h

/-- A frequency that does not fail is the one of the time axis, if that has one. -/
theorem Consistency.eq_name_of_checkFrequency {attributes : Attributes} {d : Dataset}
    {f : Frequency} {value : String} (h : (checkFrequency attributes d).isFail = false)
    (hf : Frequency.infer? d.time = some f) (hv : attributes.get? "frequency" = some value) :
    value = f.name := by
  by_contra hne
  unfold checkFrequency at h
  simp only [hv, hf, if_neg (Ne.symm hne)] at h
  cases h

/-- The metadata is there, of the entry's vocabularies, and has the known attributes of the entry
that have a value. -/
def Entry.HoldsMetadata (e : Entry) : Prop :=
  ∃ m, e.metadata = some m ∧ e.cvVersion = some m.cvVersion ∧ ∀ key, m.attributes.get? key =
    (e.attributes.get? key).filter fun value => Metadata.isKnown key && value ≠ ""

namespace EntryContext
open Text
variable {c : EntryContext} {t : FileTree} {path : Path} {d : Dataset} {e : Entry}

theorem trim_said {key value : String} (h : (said d).get? key = some value) :
    trim value = value := by
  rw [said, Dict.get?_map] at h
  obtain ⟨raw, -, rfl⟩ := Option.map_eq_some_iff.mp h
  exact trim_trim raw

/-- A frequency off the time axis, or that of files without one, has no blanks around it if it fits
the file. -/
theorem trim_axisFrequency {attributes : Attributes} {value : String}
    (h : (Consistency.checkFrequency attributes d).isFail = false)
    (hv : attributes.get? "frequency" = some value) (haxis : c.axisFrequency d = some value) :
    trim value = value := by
  obtain ⟨f, hf⟩ : ∃ f, Frequency.infer? d.time = some f := by
    unfold axisFrequency at haxis
    cases htime : d.time with
    | none => exact ⟨.fixed, rfl⟩
    | some axis =>
      simp only [htime] at haxis
      obtain ⟨f, hf, -⟩ := Option.map_eq_some_iff.mp haxis
      exact ⟨f, hf⟩
  rw [Consistency.eq_name_of_checkFrequency h hf hv, f.trim_name]

/-- Blanks around a value come from the path, unless the frequency does not fit the file. -/
theorem encoded_of_blanks {key value : String}
    (hfrequency : (Consistency.checkFrequency (c.complete path d) d).isFail = false)
    (h : (c.complete path d).get? key = some value) (hblanks : trim value ≠ value) :
    (c.encoded path).get? key = some value ∨
      key = "frequency" ∧ (c.encoded path).get? c.frequencyKeys.key = some value := by
  have hnot : ∀ key', (said d).get? key' ≠ some value := fun _ hs => hblanks (trim_said hs)
  have htaken := h
  rw [get?_complete, taken] at htaken
  split_ifs at htaken with hkey
  · subst hkey
    simp only [Option.or_eq_some_iff, hnot, false_or] at htaken
    rcases htaken with ⟨-, hpath | ⟨-, -, hpath | ⟨-, haxis⟩⟩⟩
    · exact .inl hpath
    · exact .inr ⟨rfl, hpath⟩
    · exact absurd (trim_axisFrequency hfrequency h haxis) hblanks
  · simp only [Option.or_eq_some_iff, hnot, false_or] at htaken
    exact .inl htaken.2

theorem of_metadata {m : Metadata} (h : c.createEntry t path = .done (.ok e))
    (hm : e.metadata = some m) : e.cvVersion = some m.cvVersion ∧
      m.attributes = Metadata.knownAttributes (e.attributes.map trim) := by
  obtain ⟨_, _, -, -, hattributes, hversion, hmetadata, -⟩ := exists_of_createEntry h
  rw [hmetadata] at hm
  obtain ⟨-, -, rfl⟩ := Metadata.ofAttributes?_eq_ok.mp (Except.toOption_eq_some.mp hm)
  rw [hattributes]
  exact ⟨hversion, rfl⟩

theorem isSome_metadata (h : c.createEntry t path = .done (.ok e)) :
    e.metadata.isSome = true ↔ (Rule.validateAttributes
      (Metadata.dropEmpty (e.attributes.map trim)) c.cv).hasFailures = false := by
  obtain ⟨_, _, -, -, hattributes, -, hmetadata, -⟩ := exists_of_createEntry h
  rw [hmetadata, hattributes, ← Metadata.isOk_ofAttributes?, Option.isSome_iff_exists]
  simp only [Except.toOption_eq_some, Metadata.ofFile?]

/-- What a passed entry has not failed. -/
theorem not_failed_of_passed (h : c.createEntry t path = .done (.ok e))
    (hp : e.status = .passed) :
    ∃ d, e.attributes = c.complete path d ∧
      (Rule.validateAttributes e.attributes c.cv).hasFailures = false ∧
      (Consistency.checkFrequency (c.complete path d) d).isFail = false := by
  obtain ⟨d, consistency, -, hconsistency, hattributes, -, -, hstatus⟩ := exists_of_createEntry h
  have hpass := EntryStatus.hasFailures_of_passed (hstatus.symm.trans hp)
  rw [Findings.hasFailures_withTarget, Findings.hasFailures_eq_false] at hpass
  obtain ⟨timeRange, -, hfindings⟩ := Outcome.bind_eq_done.mp hconsistency
  cases hfindings
  refine ⟨d, hattributes, ?_, hpass _ (by simp)⟩
  rw [hattributes]
  exact Findings.hasFailures_eq_false.mpr fun f hf => hpass f (List.mem_append_left _ hf)

theorem trim_eq_of_holdsMetadata (h : c.createEntry t path = .done (.ok e))
    (hm : e.HoldsMetadata) {key value : String}
    (hkey : Metadata.isKnown key = true) (hv : e.attributes.get? key = some value) :
    trim value = value := by
  obtain ⟨m, hm, -, hvalues⟩ := hm
  have hget := hvalues key
  rw [(of_metadata h hm).2, Metadata.get?_knownAttributes, Dict.get?_map, hv, Option.map_some,
    hkey] at hget
  by_cases hempty : value = ""
  · subst hempty
    rfl
  · have hkept : (some value).filter (fun value => true && decide (value ≠ "")) = some value :=
      Option.filter_some_pos (by simpa using hempty)
    rw [hkept] at hget
    exact Option.some.inj (Option.filter_eq_some_iff.mp hget).1

theorem holdsMetadata_of_trim (h : c.createEntry t path = .done (.ok e))
    (hp : e.status = .passed)
    (htrim : ∀ key value, Metadata.isKnown key = true → e.attributes.get? key = some value →
      trim value = value) : e.HoldsMetadata := by
  obtain ⟨_, -, hrules, -⟩ := not_failed_of_passed h hp
  obtain ⟨_, _, -, -, hattributes, hversion, hmetadata, -⟩ := exists_of_createEntry h
  have hagree : Metadata.Agree (e.attributes.map trim) e.attributes := fun key hkey => by
    rw [Dict.get?_map]
    cases hv : e.attributes.get? key with
    | none => rfl
    | some value => exact congrArg some (htrim key value hkey hv)
  refine ⟨⟨Metadata.knownAttributes e.attributes, c.cv.version⟩, ?_, hversion,
    fun key => Metadata.get?_knownAttributes ..⟩
  rw [hmetadata, ← hattributes, Metadata.ofFile?, hagree.ofAttributes?_eq,
    Metadata.ofAttributes?_of_validateAttributes hrules]
  rfl

/-- A passed entry holds its metadata if there are no blanks around the known values; they come from
the path. Otherwise the metadata, if any, has the values without the blanks. -/
theorem holdsMetadata_of_passed (h : c.createEntry t path = .done (.ok e))
    (hp : e.status = .passed) :
    (e.HoldsMetadata ↔ ∀ key value, Metadata.isKnown key = true →
      e.attributes.get? key = some value → trim value = value) ∧
    (∀ key value, e.attributes.get? key = some value → trim value ≠ value →
      (c.encoded path).get? key = some value ∨
        key = "frequency" ∧ (c.encoded path).get? c.frequencyKeys.key = some value) ∧
    (e.metadata.isSome = true ↔ (Rule.validateAttributes
      (Metadata.dropEmpty (e.attributes.map trim)) c.cv).hasFailures = false) ∧
    ∀ m, e.metadata = some m → e.cvVersion = some m.cvVersion ∧
      m.attributes = Metadata.knownAttributes (e.attributes.map trim) := by
  refine ⟨⟨fun hm _ _ => trim_eq_of_holdsMetadata h hm, holdsMetadata_of_trim h hp⟩,
    fun key value hv hblanks => ?_, isSome_metadata h, fun m => of_metadata h⟩
  obtain ⟨d, hattributes, -, hfrequency⟩ := not_failed_of_passed h hp
  rw [hattributes] at hv
  exact encoded_of_blanks hfrequency hv hblanks

/-! ### A directory with a blank name -/

/-- The label of the grid is missing. -/
def unlabelledDataset : Dataset :=
  { ValidationContext.agreeingDataset with
    attributes := ValidationContext.agreeingDataset.attributes.erase "grid_label" }

/-- The directory is the label. -/
def labelledContext : EntryContext where
  cv := { FileValidation.sampleVocabularies with
    drs := ⟨[⟨"<grid_label>", [.item (.key "grid_label")]⟩],
      ⟨"<variable_id>", [.item (.key "variable_id")]⟩⟩ }
  frequencyKeys := .standard
  indicators := []
  loader := fun _ _ => .done (.ok unlabelledDataset)
  now := default

def blankTree : FileTree :=
  ⟨Dict.ofList [([" "], .directory), ([" ", "tas"], .file ByteArray.empty)], []⟩

theorem read_blankTree : blankTree.read ⟨" /tas"⟩ = .ok ByteArray.empty := by
  have hname : FileTree.IsPathName " " := by decide
  have hlocate : blankTree.locate ⟨" "⟩ = .ok [" "] := hname.locate rfl (n := .directory) rfl nofun
  have hjoin : (Path.mk " ").join ⟨"tas"⟩ = ⟨" /tas"⟩ := by decide
  rw [← hjoin]
  exact FileTree.read_join hlocate rfl (by decide) ⟨by decide, by decide, by decide⟩ (by decide) rfl

/-- A blank label passes, and then there is no metadata without one. -/
theorem holdsMetadata_of_passed_sample :
    ∃ e, labelledContext.createEntry blankTree ⟨" /tas"⟩ = .done (.ok e) ∧ e.status = .passed ∧
      e.attributes.get? "grid_label" = some " " ∧ ¬e.HoldsMetadata ∧ e.metadata = none := by
  obtain ⟨e, he, hstatus, hlabel, hmetadata⟩ :
      ∃ e, labelledContext.createEntry blankTree ⟨" /tas"⟩ = .done (.ok e) ∧
        e.status = .passed ∧ e.attributes.get? "grid_label" = some " " ∧ e.metadata = none :=
    ⟨_, createEntry_eq_done rfl rfl read_blankTree, by decide +kernel, by decide +kernel,
      by decide +kernel⟩
  refine ⟨e, he, hstatus, hlabel, fun hm => ?_, hmetadata⟩
  have htrim := (holdsMetadata_of_passed he hstatus).1.mp hm "grid_label" " " (by decide) hlabel
  revert htrim
  decide

end EntryContext
end ForcingData
