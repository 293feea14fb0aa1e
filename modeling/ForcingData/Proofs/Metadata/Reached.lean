import ForcingData.Proofs.Metadata.Inferred

/-! # Metadata along a run

A value of `Metadata` is made, read, evolved or inferred, each time against vocabularies that may be
other ones than before. `Checked` is what holds of it afterwards: every one of the four ways ends
with `Metadata.ofAttributes?`, so one lemma (`Checked.of_ofAttributes?`) serves all of them, and the
history does not matter. -/

namespace ForcingData

/-! ### The rule that a finding names -/

namespace Vocabularies
variable (cv : Vocabularies)

theorem rule_validateValue (c : Category) (value : String) :
    (cv.validateValue c value).rule = c.valueRule := by
  unfold validateValue
  split
  · rfl
  · split <;> rfl

theorem rule_checkActivitySource (rule activityId sourceId : String) :
    (cv.checkActivitySource rule activityId sourceId).rule = rule := by
  unfold checkActivitySource
  split
  · rfl
  · rfl
  · split
    · rfl
    · split <;> rfl

theorem rule_checkSourceDetermined (rule sourceId : String) (c : Category) (value : String) :
    (cv.checkSourceDetermined rule sourceId c value).rule = rule := by
  unfold checkSourceDetermined
  split
  · rfl
  · split <;> rfl

theorem rule_validateCross (a b : Category) (valueA valueB : String) :
    (cv.validateCross a valueA b valueB).rule = a.crossRule b := by
  unfold validateCross
  split
  · exact rule_checkActivitySource ..
  · exact rule_checkActivitySource ..
  · split
    · exact rule_checkSourceDetermined ..
    · split
      · exact rule_checkSourceDetermined ..
      · rfl

end Vocabularies

namespace Rule
variable {attributes : Attributes} {cv : Vocabularies} {f : Finding}

theorem rule_ifSet {c : Category} {id : String} {check : String → Finding}
    (hcheck : ∀ value, (check value).rule = id) (h : ifSet attributes c id check = .ok f) :
    f.rule = id := by
  unfold ifSet at h
  split at h
  · cases h
    exact hcheck _
  · split at h
    · cases h
    · cases h
      rfl

theorem rule_checkExternal {id : String} {names : List String}
    (h : checkExternal attributes id names = .ok f) : f.rule = id := by
  unfold checkExternal at h
  split at h
  · cases h
    rfl
  · split at h
    · cases h
      rfl
    · split at h
      · cases h
      · cases h
        rfl

theorem rule_check {r : Rule} (h : r.check attributes cv = .ok f) : f.rule = r.id := by
  -- whatever a rule finds, it puts its own name there
  cases r with
  | valueInCvs c => exact rule_ifSet (fun _ => cv.rule_validateValue ..) h
  | activitySource =>
    obtain ⟨activityId, _, h⟩ := Except.bind_eq_ok.mp h
    obtain ⟨sourceId, _, h⟩ := Except.bind_eq_ok.mp h
    cases h
    exact cv.rule_validateCross ..
  | sourceDetermined c =>
    obtain ⟨sourceId, _, h⟩ := Except.bind_eq_ok.mp h
    exact rule_ifSet (fun _ => cv.rule_validateCross ..) h
  | licenseText =>
    obtain ⟨license, _, h⟩ := Except.bind_eq_ok.mp h
    obtain ⟨licenseId, _, h⟩ := Except.bind_eq_ok.mp h
    cases licenseId with
    | none =>
      cases h
      rfl
    | some licenseId =>
      simp only at h
      split at h
      · cases h
        rfl
      · split at h <;> cases h <;> rfl
  | contactFormat =>
    obtain ⟨contact, _, h⟩ := Except.bind_eq_ok.mp h
    simp only at h
    split at h <;> cases h <;> rfl
  | furtherInfoUrlFormat =>
    obtain ⟨url, _, h⟩ := Except.bind_eq_ok.mp h
    simp only at h
    split at h
    · split at h <;> cases h <;> rfl
    · cases h
      rfl
  | trackingIdFormat | creationDateFormat | conventionsFormat =>
    simp only [check] at h
    split at h
    · cases h
      rfl
    · split at h <;> cases h <;> rfl
  | variableIdCharacters =>
    obtain ⟨variableId, _, h⟩ := Except.bind_eq_ok.mp h
    simp only at h
    split at h <;> cases h <;> rfl
  | commentContent =>
    simp only [check] at h
    split at h
    · cases h
      rfl
    · split at h <;> cases h <;> rfl
  | externalVariables =>
    simp only [check] at h
    split at h
    · cases h
      rfl
    · exact rule_checkExternal h

theorem rule_run (r : Rule) (attributes : Attributes) (cv : Vocabularies) :
    (r.run attributes cv).rule = r.id := by
  unfold run
  split
  · exact rule_check ‹_›
  · rfl
  · rfl

theorem map_rule_runAll (attributes : Attributes) (cv : Vocabularies) :
    (runAll attributes cv).map (·.rule) = all.map id := by
  rw [runAll, List.map_map]
  exact List.map_congr_left fun r _ => rule_run r attributes cv

theorem nodup_map_id : (all.map id).Nodup := by decide

end Rule

namespace Metadata

theorem knownAttributes_knownAttributes (attributes : Attributes) :
    knownAttributes (knownAttributes attributes) = knownAttributes attributes := by
  refine Dict.ext_get? fun key => ?_
  rw [get?_knownAttributes, get?_knownAttributes, Option.filter_filter]
  simp only [Bool.and_self]

theorem missing_knownAttributes (attributes : Attributes) :
    missing (knownAttributes attributes) = missing attributes := by
  rw [(agree_knownAttributes attributes).missing_eq, missing_dropEmpty]

/-! ### What holds of metadata -/

/-- The metadata is as the vocabularies want it, and would be made the same again. -/
structure Checked (cv : Vocabularies) (m : Metadata) : Prop where
  known : ∀ key value, m.attributes.get? key = some value → isKnown key = true ∧ value ≠ ""
  complete : requiredAttributes ⊆ m.attributes.keys
  version : m.cvVersion = cv.version
  /-- One finding for each rule, and no rule twice. -/
  reported : (m.validate cv).map (·.rule) = Rule.all.map Rule.id ∧ (Rule.all.map Rule.id).Nodup
  passed : ∀ f ∈ m.validate cv, f.isFail = false
  remade : ofAttributes? m.attributes cv = .ok m

variable {cv : Vocabularies} {m : Metadata}

theorem Checked.of_ofAttributes? {attributes : Attributes}
    (h : ofAttributes? attributes cv = .ok m) : Checked cv m := by
  obtain ⟨hmissing, hpassed, rfl⟩ := ofAttributes?_eq_ok.mp h
  have hmissing' : missing (knownAttributes attributes) = [] := by
    rw [missing_knownAttributes, hmissing]
  constructor
  case known =>
    intro key value hvalue
    rw [get?_knownAttributes, Option.filter_eq_some_iff] at hvalue
    simpa using hvalue.2
  case complete =>
    intro key hkey
    obtain ⟨value, hvalue, _⟩ := ne_empty_of_missing hmissing' (List.contains_iff_mem.mpr hkey)
    exact (Dict.mem_keys _).mpr (Option.isSome_iff_exists.mpr ⟨value, hvalue⟩)
  case version => rfl
  case reported => exact ⟨Rule.map_rule_runAll _ cv, Rule.nodup_map_id⟩
  case passed => exact Findings.hasFailures_eq_false.mp hpassed
  case remade =>
    refine ofAttributes?_eq_ok.mpr ⟨hmissing', ?_, ?_⟩
    · rwa [knownAttributes_knownAttributes]
    · rw [knownAttributes_knownAttributes]

theorem evolve?_eq_ok {changes : Attributes} {m' : Metadata} :
    m.evolve? changes cv = .ok m' ↔ (∀ key ∈ changes.keys, isKnown key = true) ∧
      ofAttributes? (applyChanges m.attributes changes) cv = .ok m' := by
  have hknown : (∀ key ∈ changes.keys, isKnown key = true) ↔
      changes.keys.find? (!isKnown ·) = none := by
    simp [List.find?_eq_none]
  rw [hknown, evolve?]
  cases changes.keys.find? (!isKnown ·) <;> simp

/-! ### Runs -/

/-- What a sequence of steps leads to; the vocabularies are those of the last step. -/
inductive Reached : Vocabularies → Metadata → Prop
  | made {attributes : Attributes} {cv : Vocabularies} {m : Metadata}
      (h : ofAttributes? attributes cv = .ok m) : Reached cv m
  | read {attributes : Attributes} {cv : Vocabularies} {m : Metadata}
      (h : ofFile? attributes cv = .ok m) : Reached cv m
  | evolved {before : Vocabularies} {m : Metadata} (hm : Reached before m) {changes : Attributes}
      {cv : Vocabularies} {m' : Metadata} (h : m.evolve? changes cv = .ok m') : Reached cv m'
  | inferred {minimum : Minimum} {d : Dataset} {path? : Option Path} {cv : Vocabularies}
      {indicators : List String} {fresh : Fresh} {i : Inferred}
      (h : Inferred.ofMinimum minimum d path? cv indicators fresh = .done (.ok i)) :
      Reached cv i.metadata

/-- However metadata came about, it is as the last vocabularies want it. -/
theorem Reached.checked {cv : Vocabularies} {m : Metadata} (h : Reached cv m) : Checked cv m := by
  induction h with
  | made h => exact .of_ofAttributes? h
  | read h => exact .of_ofAttributes? h
  | evolved _ h => exact .of_ofAttributes? (evolve?_eq_ok.mp h).2
  | inferred h =>
    obtain ⟨_, _, _, _, l, _, _, _, _, _, h⟩ := Inferred.exists_layers h
    exact .of_ofAttributes? h

def sampleAttributes : Attributes :=
  Dict.ofList [("activity_id", "input"), ("comment", "none"), ("contact", "a@b.cd"),
    ("dataset_category", "any"), ("frequency", "fx"), ("further_info_url", "http://a.b"),
    ("grid_label", " gn "), ("history", "none"), ("institution_id", "home"), ("license", "Free."),
    ("mip_era", "now"), ("nominal_resolution", "10 km"), ("realm", "atmos"), ("source_id", "s1"),
    ("source_version", "1"), ("target_mip", "any"), ("variable_id", "tas")]

def sample : Metadata :=
  ⟨knownAttributes (sampleAttributes.map Text.trim), FileValidation.sampleVocabularies.version⟩

theorem ofFile?_sample : ofFile? sampleAttributes FileValidation.sampleVocabularies = .ok sample :=
  ofAttributes?_eq_ok.mpr ⟨by decide, by decide, rfl⟩

/-- Another text of the license. -/
def laterVocabularies : Vocabularies :=
  { FileValidation.sampleVocabularies with
    version := ⟨"later", ""⟩
    licenses := Dict.ofList [("free", ⟨"Still free.", "http://a.b", ""⟩)] }

/-- Takes over the license, and drops the comment. -/
def sampleChanges : Attributes := Dict.ofList [("comment", ""), ("license", "Still free.")]

theorem checked_sample :
    ∃ m, sample.evolve? sampleChanges laterVocabularies = .ok m ∧ m.get? "comment" = none ∧
      m.get? "license" = some "Still free." ∧ Checked laterVocabularies m := by
  let m : Metadata :=
    ⟨knownAttributes (applyChanges sample.attributes sampleChanges), ⟨"later", ""⟩⟩
  have hevolve : sample.evolve? sampleChanges laterVocabularies = .ok m :=
    evolve?_eq_ok.mpr ⟨by decide +kernel,
      ofAttributes?_eq_ok.mpr ⟨by decide +kernel, by decide +kernel, rfl⟩⟩
  exact ⟨m, hevolve, by decide +kernel, by decide +kernel,
    (Reached.evolved (.read ofFile?_sample) hevolve).checked⟩

end Metadata
end ForcingData
