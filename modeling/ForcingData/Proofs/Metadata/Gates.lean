import ForcingData.Metadata.Basic
import ForcingData.Proofs.Dict
import ForcingData.Proofs.Results

/-! # Two gates for metadata

`Rule.validateAttributes` reports on all attributes of a file, as they are; `Metadata.ofAttributes?`
first drops the unknown ones and the empty ones. The rules read known attributes only
(`Rule.check_congr`), and dropping an empty value never makes a rule fail that passed
(`Rule.run_dropEmpty`): so what the one gate lets through, the other one does too. -/

namespace ForcingData

namespace Findings

theorem hasFailures_eq_false {fs : Findings} :
    fs.hasFailures = false ↔ ∀ f ∈ fs, f.isFail = false := by
  simp [hasFailures]

theorem failures_eq_nil {fs : Findings} : fs.failures = [] ↔ fs.hasFailures = false := by
  simp [failures, withStatus, hasFailures, Finding.isFail]

end Findings

namespace Metadata

/-- The known attributes have the same values in both. -/
def Agree (a b : Attributes) : Prop := ∀ key, isKnown key = true → a.get? key = b.get? key

/-- The attributes that have a value. -/
def dropEmpty (attributes : Attributes) : Attributes := attributes.filter fun _ value => value ≠ ""

theorem isKnown_of_mem {key : String} (h : key ∈ requiredAttributes) : isKnown key = true := by
  rw [isKnown, isRequired, List.contains_iff_mem.mpr h, Bool.true_or]

theorem isKnown_name (c : Category) : isKnown c.name = true := by
  cases c <;> decide

theorem get?_dropEmpty (attributes : Attributes) (key : String) :
    (dropEmpty attributes).get? key = (attributes.get? key).filter (· ≠ "") :=
  Dict.get?_filter ..

theorem get?_knownAttributes (attributes : Attributes) (key : String) :
    (knownAttributes attributes).get? key =
      (attributes.get? key).filter fun value => isKnown key && value ≠ "" :=
  Dict.get?_filter ..

theorem agree_knownAttributes (attributes : Attributes) :
    Agree (knownAttributes attributes) (dropEmpty attributes) := by
  intro key hkey
  rw [get?_knownAttributes, get?_dropEmpty, hkey]
  rfl

theorem Agree.knownAttributes_eq {a b : Attributes} (h : Agree a b) :
    knownAttributes a = knownAttributes b := by
  refine Dict.ext_get? fun key => ?_
  rw [get?_knownAttributes, get?_knownAttributes]
  cases hkey : isKnown key with
  | true => rw [h key hkey]
  | false => simp

theorem Agree.missing_eq {a b : Attributes} (h : Agree a b) : missing a = missing b := by
  refine List.filter_congr fun key hkey => ?_
  rw [h key (isKnown_of_mem hkey)]

theorem missing_dropEmpty (attributes : Attributes) :
    missing (dropEmpty attributes) = missing attributes := by
  refine List.filter_congr fun key _ => ?_
  rw [get?_dropEmpty]
  cases attributes.get? key with
  | none => rfl
  | some value => by_cases hv : value = "" <;> simp [Option.filter, hv]

theorem ne_empty_of_missing {attributes : Attributes} (h : missing attributes = []) {key : String}
    (hkey : isRequired key = true) : ∃ value, attributes.get? key = some value ∧ value ≠ "" := by
  have hnot := List.filter_eq_nil_iff.mp h key (List.contains_iff_mem.mp hkey)
  cases hv : attributes.get? key with
  | none => simp [hv] at hnot
  | some value => exact ⟨value, rfl, by simpa [hv] using hnot⟩

end Metadata

namespace Rule
open Metadata

/-! ### What the rules read -/

/-- The attributes that the rule looks at. -/
def reads : Rule → List String
  | valueInCvs c => [c.name]
  | activitySource => ["activity_id", "source_id"]
  | sourceDetermined c => ["source_id", c.name]
  | licenseText => ["license", "license_id", "source_id"]
  | contactFormat => ["contact"]
  | furtherInfoUrlFormat => ["further_info_url"]
  | trackingIdFormat => ["tracking_id"]
  | creationDateFormat => ["creation_date"]
  | conventionsFormat => ["Conventions"]
  | variableIdCharacters => ["variable_id"]
  | commentContent => ["comment"]
  | externalVariables => ["external_variables", "variable_id"]

theorem isKnown_of_mem_reads {r : Rule} : ∀ key ∈ r.reads, isKnown key = true := by
  cases r with
  | valueInCvs c => exact List.forall_mem_singleton.mpr (isKnown_name c)
  | sourceDetermined c =>
    exact List.forall_mem_cons.mpr ⟨by decide, List.forall_mem_singleton.mpr (isKnown_name c)⟩
  | _ => decide

section
variable {a b : Attributes}

theorem need_congr {key : String} (h : a.get? key = b.get? key) : need a key = need b key := by
  rw [need, need, h]

theorem ifSet_congr {c : Category} (h : a.get? c.name = b.get? c.name) (id : String)
    (check : String → Finding) : ifSet a c id check = ifSet b c id check := by
  rw [ifSet, ifSet, h]

theorem check_eq_of_reads {r : Rule} (h : ∀ key ∈ r.reads, a.get? key = b.get? key)
    (cv : Vocabularies) : r.check a cv = r.check b cv := by
  cases r with
  | valueInCvs c => exact ifSet_congr (h _ (by simp [reads])) _ _
  | activitySource =>
    simp only [check, need_congr (h "activity_id" (by decide)),
      need_congr (h "source_id" (by decide))]
  | sourceDetermined c =>
    simp only [check, need_congr (h "source_id" (by simp [reads])),
      ifSet_congr (h c.name (by simp [reads]))]
  | licenseText =>
    simp only [check, licenseId, need_congr (h "license" (by decide)), h "license_id" (by decide),
      need_congr (h "source_id" (by decide))]
  | contactFormat => simp only [check, need_congr (h "contact" (by decide))]
  | furtherInfoUrlFormat => simp only [check, need_congr (h "further_info_url" (by decide))]
  | trackingIdFormat => simp only [check, h "tracking_id" (by decide)]
  | creationDateFormat => simp only [check, h "creation_date" (by decide)]
  | conventionsFormat => simp only [check, h "Conventions" (by decide)]
  | variableIdCharacters => simp only [check, need_congr (h "variable_id" (by decide))]
  | commentContent => simp only [check, h "comment" (by decide)]
  | externalVariables =>
    simp only [check, checkExternal, h "external_variables" (by decide),
      h "variable_id" (by decide)]

variable (h : Agree a b)
include h

theorem check_congr (r : Rule) (cv : Vocabularies) : r.check a cv = r.check b cv :=
  check_eq_of_reads (fun key hkey => h key (isKnown_of_mem_reads key hkey)) cv

theorem runAll_congr (cv : Vocabularies) : runAll a cv = runAll b cv := by
  refine List.map_congr_left fun r _ => ?_
  rw [run, run, check_congr h]

theorem validateAttributes_congr (cv : Vocabularies) :
    validateAttributes a cv = validateAttributes b cv := by
  rw [validateAttributes, validateAttributes, h.missing_eq, runAll_congr h]

end

/-! ### Empty values -/

section
variable {attributes : Attributes} {cv : Vocabularies}

/-- A required attribute stays; any other one stays too, or was empty. -/
theorem get?_dropEmpty_cases (hm : missing attributes = []) (key : String) :
    (dropEmpty attributes).get? key = attributes.get? key ∨
      isRequired key = false ∧ attributes.get? key = some "" ∧
        (dropEmpty attributes).get? key = none := by
  rw [get?_dropEmpty]
  cases hv : attributes.get? key with
  | none => exact .inl rfl
  | some value =>
    by_cases he : value = ""
    · subst he
      refine .inr ⟨Bool.eq_false_iff.mpr fun hr => ?_, rfl, rfl⟩
      obtain ⟨w, hw, hne⟩ := ne_empty_of_missing hm hr
      rw [hv] at hw
      exact hne (Option.some.inj hw).symm
    · exact .inl (by simp [Option.filter, he])

theorem get?_dropEmpty_required (hm : missing attributes = []) {key : String}
    (hr : isRequired key = true) : (dropEmpty attributes).get? key = attributes.get? key := by
  rcases get?_dropEmpty_cases hm key with h | ⟨hr', _⟩
  · exact h
  · rw [hr] at hr'
    cases hr'

theorem need_dropEmpty (hm : missing attributes = []) (key : String)
    (hr : isRequired key = true) : need (dropEmpty attributes) key = need attributes key := by
  rw [need, need, get?_dropEmpty_required hm hr]

theorem isFail_run {r : Rule} :
    (r.run attributes cv).isFail = false ↔
      ∃ f, r.check attributes cv = .ok f ∧ f.isFail = false := by
  rw [run]
  cases r.check attributes cv with
  | ok f => exact ⟨fun h => ⟨f, rfl, h⟩, fun ⟨g, hg, h⟩ => by cases hg; exact h⟩
  | error e => cases e <;> exact ⟨(by cases ·), fun ⟨_, hg, _⟩ => by cases hg⟩

theorem ifSet_dropEmpty (hm : missing attributes = []) {c : Category} {id : String}
    {check : String → Finding} {f : Finding} (h : ifSet attributes c id check = .ok f)
    (hf : f.isFail = false) :
    ∃ g, ifSet (dropEmpty attributes) c id check = .ok g ∧ g.isFail = false := by
  rcases get?_dropEmpty_cases hm c.name with he | ⟨hr, _, hn⟩
  · refine ⟨f, ?_, hf⟩
    rw [ifSet, he]
    exact h
  · refine ⟨.pass id s!"{c.name} is not set", ?_, rfl⟩
    rw [ifSet, hn, hr]
    rfl

/-- If the license may stay unnamed, then the source has none to name either. -/
theorem licenseId_dropEmpty (hm : missing attributes = [])
    (hs : ((sourceDetermined .licenseId).run attributes cv).isFail = false) :
    licenseId (dropEmpty attributes) cv = licenseId attributes cv := by
  have hneed := need_dropEmpty hm "source_id" (by decide)
  rcases get?_dropEmpty_cases hm "license_id" with he | ⟨_, hl, hn⟩
  · rw [licenseId, licenseId, he, hneed]
  · obtain ⟨f, hcheck, hf⟩ := isFail_run.mp hs
    obtain ⟨sourceId, hsource, hcheck⟩ := Except.bind_eq_ok.mp hcheck
    have hset : ifSet attributes .licenseId (sourceDetermined .licenseId).id
        (cv.validateCross .sourceId sourceId .licenseId) =
          .ok (cv.checkSourceDetermined (Category.crossRule .sourceId .licenseId) sourceId
            .licenseId "") := by
      rw [ifSet, show Category.licenseId.name = "license_id" from rfl, hl]
      rfl
    rw [hset] at hcheck
    obtain rfl := Except.ok.inj hcheck
    rw [licenseId, licenseId, hn, hl, hneed, hsource]
    unfold Vocabularies.checkSourceDetermined at hf
    cases hget : cv.sources.get? sourceId with
    | none =>
      rw [hget] at hf
      cases hf
    | some source =>
      have hid : source.licenseId = "" := by
        by_contra hne
        simp [hget, Source.determined?, Option.filter, hne, Finding.fail, Finding.isFail] at hf
      simp [bind, Except.bind, pure, Except.pure, hget, hid]

/-- A rule on an optional attribute, which does not mind its absence. -/
theorem check_dropEmpty_optional (hm : missing attributes = []) (key : String) {r : Rule}
    {f : Finding} (hcheck : r.check attributes cv = .ok f) (hf : f.isFail = false)
    (hsame : (dropEmpty attributes).get? key = attributes.get? key →
      r.check (dropEmpty attributes) cv = r.check attributes cv)
    {message : String} (hnone : (dropEmpty attributes).get? key = none →
      r.check (dropEmpty attributes) cv = .ok (.pass r.id message)) :
    ∃ g, r.check (dropEmpty attributes) cv = .ok g ∧ g.isFail = false := by
  rcases get?_dropEmpty_cases hm key with he | ⟨_, _, hn⟩
  · exact ⟨f, (hsame he).trans hcheck, hf⟩
  · exact ⟨_, hnone hn, rfl⟩

/-- A rule that passes does so without the empty values. -/
theorem run_dropEmpty (hm : missing attributes = [])
    (hs : ((sourceDetermined .licenseId).run attributes cv).isFail = false) {r : Rule}
    (hr : (r.run attributes cv).isFail = false) :
    (r.run (dropEmpty attributes) cv).isFail = false := by
  obtain ⟨f, hcheck, hf⟩ := isFail_run.mp hr
  refine isFail_run.mpr ?_
  -- required attributes keep their values, and rules on optional ones pass without them
  cases r with
  | valueInCvs c => exact ifSet_dropEmpty hm hcheck hf
  | activitySource =>
    refine ⟨f, ?_, hf⟩
    rw [check, need_dropEmpty hm "activity_id" (by decide),
      need_dropEmpty hm "source_id" (by decide)]
    exact hcheck
  | sourceDetermined c =>
    obtain ⟨sourceId, hsource, hset⟩ := Except.bind_eq_ok.mp hcheck
    obtain ⟨g, hg, hgf⟩ := ifSet_dropEmpty hm hset hf
    refine ⟨g, Except.bind_eq_ok.mpr ⟨sourceId, ?_, hg⟩, hgf⟩
    rw [need_dropEmpty hm "source_id" (by decide), hsource]
  | licenseText =>
    refine ⟨f, ?_, hf⟩
    rw [check, need_dropEmpty hm "license" (by decide), licenseId_dropEmpty hm hs]
    exact hcheck
  | contactFormat =>
    refine ⟨f, ?_, hf⟩
    rw [check, need_dropEmpty hm "contact" (by decide)]
    exact hcheck
  | furtherInfoUrlFormat =>
    refine ⟨f, ?_, hf⟩
    rw [check, need_dropEmpty hm "further_info_url" (by decide)]
    exact hcheck
  | trackingIdFormat =>
    exact check_dropEmpty_optional hm "tracking_id" hcheck hf (fun h => by rw [check, check, h])
      fun h => by rw [check, h]
  | creationDateFormat =>
    exact check_dropEmpty_optional hm "creation_date" hcheck hf (fun h => by rw [check, check, h])
      fun h => by rw [check, h]
  | conventionsFormat =>
    exact check_dropEmpty_optional hm "Conventions" hcheck hf (fun h => by rw [check, check, h])
      fun h => by rw [check, h]
  | variableIdCharacters =>
    refine ⟨f, ?_, hf⟩
    rw [check, need_dropEmpty hm "variable_id" (by decide)]
    exact hcheck
  | commentContent =>
    exact check_dropEmpty_optional hm "comment" hcheck hf (fun h => by rw [check, check, h])
      fun h => by rw [check, h]
  | externalVariables =>
    have hvar : ∀ names, checkExternal (dropEmpty attributes) externalVariables.id names =
        checkExternal attributes externalVariables.id names := fun names => by
      rw [checkExternal, checkExternal, get?_dropEmpty_required hm (by decide)]
    exact check_dropEmpty_optional hm "external_variables" hcheck hf
      (fun h => by simp only [check, h, hvar]) fun h => by rw [check, h]

end

theorem hasFailures_runAll {attributes : Attributes} {cv : Vocabularies} :
    (runAll attributes cv).hasFailures = false ↔
      ∀ r ∈ all, (r.run attributes cv).isFail = false := by
  rw [Findings.hasFailures_eq_false, runAll, List.forall_mem_map]

theorem hasFailures_validateAttributes {attributes : Attributes} {cv : Vocabularies} :
    (validateAttributes attributes cv).hasFailures = false ↔
      missing attributes = [] ∧ (runAll attributes cv).hasFailures = false := by
  simp only [Findings.hasFailures_eq_false, validateAttributes, List.forall_mem_append,
    List.forall_mem_map]
  refine and_congr_left fun _ => ⟨fun h => List.eq_nil_iff_forall_not_mem.mpr fun key hkey => ?_,
    fun h key hkey => ?_⟩
  · exact absurd (h key hkey) (by simp [Finding.fail, Finding.isFail])
  · rw [h] at hkey
    cases hkey

end Rule

namespace Metadata
open Rule

/-! ### The gates -/

theorem ofAttributes?_eq_ok {attributes : Attributes} {cv : Vocabularies} {m : Metadata} :
    ofAttributes? attributes cv = .ok m ↔
      missing attributes = [] ∧ (runAll (knownAttributes attributes) cv).hasFailures = false ∧
        m = ⟨knownAttributes attributes, cv.version⟩ := by
  rw [← Findings.failures_eq_nil]
  unfold ofAttributes?
  cases missing attributes with
  | cons key keys => simp
  | nil =>
    simp only
    cases Findings.failures (runAll (knownAttributes attributes) cv) with
    | cons f fs => simp
    | nil => simp [eq_comm]

theorem isOk_ofAttributes? (attributes : Attributes) (cv : Vocabularies) :
    (∃ m, ofAttributes? attributes cv = .ok m) ↔
      (validateAttributes (dropEmpty attributes) cv).hasFailures = false := by
  rw [hasFailures_validateAttributes, missing_dropEmpty,
    ← runAll_congr (agree_knownAttributes attributes)]
  simp only [ofAttributes?_eq_ok]
  exact ⟨fun ⟨_, hm, hr, _⟩ => ⟨hm, hr⟩, fun ⟨hm, hr⟩ => ⟨_, hm, hr, rfl⟩⟩

theorem ofAttributes?_of_validateAttributes {attributes : Attributes} {cv : Vocabularies}
    (h : (validateAttributes attributes cv).hasFailures = false) :
    ofAttributes? attributes cv = .ok ⟨knownAttributes attributes, cv.version⟩ := by
  obtain ⟨hm, hr⟩ := hasFailures_validateAttributes.mp h
  rw [hasFailures_runAll] at hr
  rw [ofAttributes?_eq_ok, runAll_congr (agree_knownAttributes attributes), hasFailures_runAll]
  exact ⟨hm, fun r hmem => run_dropEmpty hm (hr _ (by decide)) (hr r hmem), rfl⟩

theorem Agree.ofAttributes?_eq {a b : Attributes} (h : Agree a b) (cv : Vocabularies) :
    ofAttributes? a cv = ofAttributes? b cv := by
  unfold ofAttributes?
  rw [h.missing_eq, h.knownAttributes_eq]

/-- Both gates let the same values through, and see the known attributes only. -/
theorem gates_agree (attributes : Attributes) (cv : Vocabularies) :
    ((∃ m, ofAttributes? attributes cv = .ok m) ↔
      (validateAttributes (attributes.filter fun _ value => value ≠ "") cv).hasFailures = false) ∧
    ((validateAttributes attributes cv).hasFailures = false →
      ∃ m, ofAttributes? attributes cv = .ok m ∧ ∀ key, m.attributes.get? key =
        (attributes.get? key).filter fun value => isKnown key && value ≠ "") ∧
    ∀ others : Attributes, (∀ key, isKnown key = true → others.get? key = attributes.get? key) →
      validateAttributes others cv = validateAttributes attributes cv ∧
        ofAttributes? others cv = ofAttributes? attributes cv := by
  refine ⟨isOk_ofAttributes? attributes cv, fun h => ?_, fun others h => ⟨?_, ?_⟩⟩
  · exact ⟨_, ofAttributes?_of_validateAttributes h, get?_knownAttributes attributes⟩
  · exact validateAttributes_congr h cv
  · exact Agree.ofAttributes?_eq h cv

end Metadata
end ForcingData
