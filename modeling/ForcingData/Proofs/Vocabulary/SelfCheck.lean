import ForcingData.Proofs.Metadata.Growth
import ForcingData.Proofs.Vocabulary.Cross

/-! # The self check

The self check of vocabularies looks for the values of a source that are not known. It finds none
exactly if every value that the source determines is permitted (`sourceProblems_eq_nil_iff`). It
does not look at the globs of activities: a source can declare an activity that does not accept it,
and then the two do not go together, although the self check has found nothing
(`determined_of_selfCheck`). -/

namespace ForcingData.Vocabularies
open Text
variable {cv : Vocabularies} {c : Category} {id value : String} {source : Source}

/-- The category is not constrained, or this is one of its values. -/
def Permits (cv : Vocabularies) (c : Category) (value : String) : Prop :=
  ∀ names, cv.values? c = some names → names.contains value = true

theorem status_validateValue : (cv.validateValue c value).status = .pass ↔ cv.Permits c value := by
  unfold validateValue Permits
  cases cv.values? c with
  | none => simp [Finding.pass]
  | some names => cases hvalue : names.contains value <;> simp [hvalue, Finding.pass, Finding.fail]

/-! ### Known values -/

theorem permits_institution :
    cv.Permits .institutionId value ↔ cv.institutions.contains value = true := by
  simp [Permits, values?]

theorem permits_license : cv.Permits .licenseId value ↔ cv.licenses.contains value = true := by
  simp [Permits, values?, Dict.contains_map]

theorem permits_activity : cv.Permits .activityId value ↔ cv.activities.contains value = true := by
  simp [Permits, values?, Dict.contains_map]

theorem permits_mipEra : cv.Permits .mipEra value ↔
    ∀ eras, cv.simple.lookup .mipEra = some eras → eras.contains value = true := Iff.rfl

theorem permits_free (h : c = .contact ∨ c = .furtherInfoUrl ∨ c = .sourceVersion) :
    cv.Permits c value := by
  rcases h with rfl | rfl | rfl <;> exact nofun

theorem sourceProblems_eq_nil_iff : cv.sourceProblems id source = [] ↔
    ∀ c value, source.determined? c = some value → cv.Permits c value := by
  have hknown : cv.sourceProblems id source = [] ↔
      cv.Permits .institutionId source.institutionId ∧ cv.Permits .licenseId source.licenseId ∧
        (∀ a, source.activityId = some a → cv.Permits .activityId a) ∧
        cv.Permits .mipEra source.mipEra := by
    rw [permits_institution, permits_license, permits_mipEra]
    simp only [permits_activity, sourceProblems, List.append_eq_nil_iff, ite_eq_left_iff]
    cases source.activityId <;> cases cv.simple.lookup .mipEra <;> simp [and_assoc]
  rw [hknown]
  constructor
  · rintro ⟨hinstitution, hlicense, hactivity, hera⟩ c value hvalue
    cases c with
    | activityId => exact hactivity value hvalue
    | institutionId => exact Option.some.inj hvalue ▸ hinstitution
    | licenseId => exact Option.some.inj hvalue ▸ hlicense
    | mipEra => exact Option.some.inj hvalue ▸ hera
    | contact | furtherInfoUrl | sourceVersion => exact permits_free (by simp)
    | sourceId | targetMip | datasetCategory | product | frequency | gridLabel | realm =>
      cases hvalue
  · intro h
    exact ⟨h _ _ rfl, h _ _ rfl, fun a ha => h .activityId a ha, h _ _ rfl⟩

theorem permits_of_selfCheck (h : cv.selfCheck = []) (hsource : cv.sources.get? id = some source)
    (hvalue : source.determined? c = some value) : cv.Permits c value := by
  simp only [selfCheck, List.append_eq_nil_iff, List.flatMap_eq_nil_iff] at h
  have hproblems := h.1.2 (id, source) (cv.sources.mem_toList.mpr hsource)
  exact sourceProblems_eq_nil_iff.mp hproblems c value hvalue

/-! ### Values together with their source -/

/-- The activity has no globs, or one that the source matches. -/
def AcceptsSource (cv : Vocabularies) (activityId sourceId : String) : Prop :=
  ∀ activity, cv.activities.get? activityId = some activity → activity.patterns = [] ∨
    ∃ glob ∈ activity.patterns, Expression.Matches (Glob.expression glob) sourceId

/-- A permitted value agrees with the source that determines it, if it is an activity exactly if
the activity accepts the source. -/
theorem agree_of_permits (hsource : cv.sources.get? id = some source)
    (hvalue : source.determined? c = some value) (hpermits : cv.Permits c value) :
    cv.Agree .sourceId id c value ↔ (c = .activityId → cv.AcceptsSource value id) := by
  by_cases hc : c = .activityId
  · subst hc
    obtain ⟨activity, hactivity⟩ := (Dict.contains_iff _ _).mp (permits_activity.mp hpermits)
    rw [agree_comm, agree_activity]
    constructor
    · rintro ⟨activity', _, hactivity', _, _, hglob⟩ - other hother
      obtain rfl := Option.some.inj (hactivity'.symm.trans hother)
      exact hglob
    · intro haccepts
      exact ⟨activity, source, hactivity, hsource, .inr hvalue, haccepts rfl activity hactivity⟩
  · have hdetermined : c.isDetermined = true := by
      cases c <;> first | rfl | exact absurd rfl hc | cases hvalue
    rw [agree_determined _ hdetermined]
    exact ⟨fun _ h => absurd h hc, fun _ => ⟨source, hsource, hvalue⟩⟩

/-- If the self check finds nothing, every value that a source determines is permitted, and goes
together with the source, in whichever order, unless it is an activity that does not accept the
source. -/
theorem determined_of_selfCheck (hcheck : cv.selfCheck = [])
    (hsource : cv.sources.get? id = some source) (hvalue : source.determined? c = some value) :
    (cv.validateValue c value).status = .pass ∧
      ((cv.validateCross .sourceId id c value).status = .pass ↔
        (c = .activityId → cv.AcceptsSource value id)) ∧
      ((cv.validateCross c value .sourceId id).status = .pass ↔
        (c = .activityId → cv.AcceptsSource value id)) := by
  have hpermits := permits_of_selfCheck hcheck hsource hvalue
  have hagree := agree_of_permits hsource hvalue hpermits
  refine ⟨status_validateValue.mpr hpermits, ?_, ?_⟩
  · exact (cv.decides_validateCross ..).status_eq_pass_iff.trans hagree
  · exact (cv.decides_validateCross ..).status_eq_pass_iff.trans (cv.agree_comm.trans hagree)

/-- The source declares an activity that is for other sources. -/
def unmatchedVocabularies : Vocabularies :=
  { FileValidation.sampleVocabularies with
    activities := Dict.ofList [("input", ⟨"http://a.b", "", ["CR-*"]⟩)]
    sources := Dict.ofList
      [("s1", ⟨some "input", "a@b.cd", "http://a.b", "home", "free", "now", "1"⟩)] }

theorem determined_of_selfCheck_sample : unmatchedVocabularies.selfCheck = [] ∧
    (unmatchedVocabularies.validateValue .activityId "input").status = .pass ∧
    (unmatchedVocabularies.validateCross .sourceId "s1" .activityId "input").status ≠ .pass ∧
    (unmatchedVocabularies.validateCross .sourceId "s1" .licenseId "free").status = .pass := by
  have hcheck : unmatchedVocabularies.selfCheck = [] := by decide +kernel
  obtain ⟨source, hsource, hactivity, hlicense⟩ :
      ∃ source, unmatchedVocabularies.sources.get? "s1" = some source ∧
        source.determined? .activityId = some "input" ∧
          source.determined? .licenseId = some "free" := ⟨_, rfl, rfl, rfl⟩
  obtain ⟨hpermitted, hcross, -⟩ := determined_of_selfCheck hcheck hsource hactivity
  refine ⟨hcheck, hpermitted, fun hpass => ?_, ?_⟩
  · have hrejects : (⟨"http://a.b", "", ["CR-*"]⟩ : Activity).accepts "s1" = false := by
      decide +kernel
    have haccepts := accepts_iff.mpr (hcross.mp hpass rfl ⟨"http://a.b", "", ["CR-*"]⟩ rfl)
    rw [hrejects] at haccepts
    cases haccepts
  · exact (determined_of_selfCheck hcheck hsource hlicense).2.1.mpr nofun

end ForcingData.Vocabularies
