import ForcingData.Proofs.Metadata.Reached

/-! # Vocabularies that grow

A larger edition of the vocabularies keeps every entry as it is. A rule passes either because of
what the vocabularies hold, and then it still does, or because they lack something: for the names
of a category this is excluded by `Extends.constrained`, for licenses by the self check, since a
source that passed has its license among them. `ofAttributes?_of_extends` puts the rules
together. -/

namespace ForcingData

namespace Finding

@[simp] theorem isFail_pass (rule message : String) : (pass rule message).isFail = false := rfl

@[simp] theorem isFail_fail (rule : String) (fault : Fault) (message : String) :
    (fail rule fault message).isFail = true := rfl

end Finding

theorem Dict.contains_map {κ β γ : Type} [Ord κ] [Std.TransOrd κ] [Std.LawfulEqOrd κ]
    (d : Dict κ β) (f : β → γ) (k : κ) : (d.map f).contains k = d.contains k := by
  rw [contains, contains, get?_map, Option.isSome_map]

theorem Dict.get?_insert_of_new {κ β : Type} [Ord κ] [Std.TransOrd κ] [Std.LawfulEqOrd κ]
    [DecidableEq κ] {d : Dict κ β} {k k' : κ} {v v' : β} (hnew : d.get? k = none)
    (h : d.get? k' = some v') : (d.insert k v).get? k' = some v' := by
  rw [get?_insert, if_neg, h]
  rintro rfl
  rw [hnew] at h
  cases h

namespace Vocabularies

/-- All that the smaller vocabularies say, the larger ones say too; and they constrain no category
that was free. -/
structure Extends (large small : Vocabularies) : Prop where
  activities : ∀ id a, small.activities.get? id = some a → large.activities.get? id = some a
  licenses : ∀ id l, small.licenses.get? id = some l → large.licenses.get? id = some l
  sources : ∀ id s, small.sources.get? id = some s → large.sources.get? id = some s
  institutions : ∀ id, small.institutions.contains id = true →
    large.institutions.contains id = true
  constrained : ∀ c : Category, c.isSimple = true →
    (large.simple.lookup c).isSome = (small.simple.lookup c).isSome
  simple : ∀ c : Category, c.isSimple = true → ∀ names names',
    small.simple.lookup c = some names → large.simple.lookup c = some names' →
      ∀ value, names.contains value = true → names'.contains value = true

section
variable {cv : Vocabularies}

theorem isFail_validateValue {c : Category} {value : String} :
    (cv.validateValue c value).isFail = false ↔
      ∀ names, cv.values? c = some names → names.contains value = true := by
  unfold validateValue
  cases cv.values? c with
  | none => simp
  | some names => cases hvalue : names.contains value <;> simp [hvalue]

theorem isFail_checkActivitySource {rule activityId sourceId : String} :
    (cv.checkActivitySource rule activityId sourceId).isFail = false ↔
      ∃ activity source, cv.activities.get? activityId = some activity ∧
        cv.sources.get? sourceId = some source ∧
        (∀ declared, source.activityId = some declared → declared = activityId) ∧
        activity.accepts sourceId = true := by
  unfold checkActivitySource
  cases cv.activities.get? activityId with
  | none => simp [inconsistent]
  | some activity =>
    cases cv.sources.get? sourceId with
    | none => simp [inconsistent]
    | some source =>
      cases hdeclared : source.activityId with
      | none =>
        cases haccepts : activity.accepts sourceId <;> simp [hdeclared, haccepts, inconsistent]
      | some declared =>
        by_cases hvalue : declared = activityId
        · cases haccepts : activity.accepts sourceId <;>
            simp [hdeclared, hvalue, haccepts, Option.filter, inconsistent]
        · simp [hdeclared, hvalue, Option.filter, inconsistent]

theorem isFail_checkSourceDetermined {rule sourceId value : String} {c : Category} :
    (cv.checkSourceDetermined rule sourceId c value).isFail = false ↔
      ∃ source, cv.sources.get? sourceId = some source ∧
        ∀ expected, source.determined? c = some expected → expected = value := by
  unfold checkSourceDetermined
  cases cv.sources.get? sourceId with
  | none => simp
  | some source =>
    cases hexpected : source.determined? c with
    | none => simp [hexpected]
    | some expected =>
      by_cases hvalue : expected = value <;> simp [hexpected, hvalue, Option.filter]

theorem exists_license_of_selfCheck (h : cv.selfCheck = []) {sourceId : String} {source : Source}
    (hsource : cv.sources.get? sourceId = some source) :
    ∃ license, cv.licenses.get? source.licenseId = some license := by
  have hmem : (sourceId, source) ∈ cv.sources.toList := cv.sources.mem_toList.mpr hsource
  simp only [selfCheck, List.append_eq_nil_iff, List.flatMap_eq_nil_iff] at h
  have hproblems := h.1.2 (sourceId, source) hmem
  simp only [sourceProblems, List.append_eq_nil_iff, ite_eq_left_iff] at hproblems
  have hknown := hproblems.1.1.2
  by_contra hnone
  refine List.cons_ne_nil _ _ (hknown ?_)
  rwa [Dict.contains_iff]

end

namespace Extends
variable {large small : Vocabularies} (h : large.Extends small)
include h

/-- A category is free in both, or the larger vocabularies allow at least as much. -/
theorem values?_cases (c : Category) :
    small.values? c = none ∧ large.values? c = none ∨
      ∃ names names', small.values? c = some names ∧ large.values? c = some names' ∧
        ∀ value, names.contains value = true → names'.contains value = true := by
  have hsimple : c.isSimple = true →
      small.simple.lookup c = none ∧ large.simple.lookup c = none ∨
        ∃ names names', small.simple.lookup c = some names ∧
          large.simple.lookup c = some names' ∧
          ∀ value, names.contains value = true → names'.contains value = true := by
    intro hc
    have hboth := h.constrained c hc
    cases hs : small.simple.lookup c with
    | none =>
      rw [hs] at hboth
      exact .inl ⟨rfl, Option.isSome_eq_false_iff.mp hboth |> Option.isNone_iff_eq_none.mp⟩
    | some names =>
      rw [hs] at hboth
      obtain ⟨names', hl⟩ := Option.isSome_iff_exists.mp hboth
      exact .inr ⟨names, names', rfl, hl, h.simple c hc names names' hs hl⟩
  -- categories with entries of their own grow with these, the free ones stay free
  cases c with
  | activityId =>
    refine .inr ⟨_, _, rfl, rfl, fun id hid => ?_⟩
    rw [Dict.contains_map, Dict.contains_iff] at hid ⊢
    obtain ⟨a, ha⟩ := hid
    exact ⟨a, h.activities id a ha⟩
  | sourceId =>
    refine .inr ⟨_, _, rfl, rfl, fun id hid => ?_⟩
    rw [Dict.contains_map, Dict.contains_iff] at hid ⊢
    obtain ⟨s, hs⟩ := hid
    exact ⟨s, h.sources id s hs⟩
  | licenseId =>
    refine .inr ⟨_, _, rfl, rfl, fun id hid => ?_⟩
    rw [Dict.contains_map, Dict.contains_iff] at hid ⊢
    obtain ⟨l, hl⟩ := hid
    exact ⟨l, h.licenses id l hl⟩
  | institutionId => exact .inr ⟨_, _, rfl, rfl, h.institutions⟩
  | contact | furtherInfoUrl | sourceVersion => exact .inl ⟨rfl, rfl⟩
  | mipEra | targetMip | datasetCategory | product | frequency | gridLabel | realm =>
    exact hsimple rfl

theorem validateValue {c : Category} {value : String}
    (hsmall : (small.validateValue c value).isFail = false) :
    (large.validateValue c value).isFail = false := by
  rw [isFail_validateValue] at hsmall ⊢
  intro names' hnames'
  rcases h.values?_cases c with ⟨_, hfree⟩ | ⟨names, names₁, hs, hl, hle⟩
  · rw [hfree] at hnames'
    cases hnames'
  · obtain rfl : names₁ = names' := Option.some.inj (hl.symm.trans hnames')
    exact hle value (hsmall names hs)

theorem checkActivitySource {rule activityId sourceId : String}
    (hsmall : (small.checkActivitySource rule activityId sourceId).isFail = false) :
    (large.checkActivitySource rule activityId sourceId).isFail = false := by
  rw [isFail_checkActivitySource] at hsmall ⊢
  obtain ⟨activity, source, hactivity, hsource, hrest⟩ := hsmall
  exact ⟨activity, source, h.activities _ _ hactivity, h.sources _ _ hsource, hrest⟩

theorem checkSourceDetermined {rule sourceId value : String} {c : Category}
    (hsmall : (small.checkSourceDetermined rule sourceId c value).isFail = false) :
    (large.checkSourceDetermined rule sourceId c value).isFail = false := by
  rw [isFail_checkSourceDetermined] at hsmall ⊢
  obtain ⟨source, hsource, hrest⟩ := hsmall
  exact ⟨source, h.sources _ _ hsource, hrest⟩

theorem validateCross {a b : Category} {valueA valueB : String}
    (hsmall : (small.validateCross a valueA b valueB).isFail = false) :
    (large.validateCross a valueA b valueB).isFail = false := by
  unfold Vocabularies.validateCross at hsmall ⊢
  split at hsmall
  · exact h.checkActivitySource hsmall
  · exact h.checkActivitySource hsmall
  · rename_i hne hne'
    by_cases hab : (a = .sourceId && b.isDetermined) = true
    · simp only [hab, if_true] at hsmall ⊢
      exact h.checkSourceDetermined hsmall
    · by_cases hba : (b = .sourceId && a.isDetermined) = true
      · simp only [hab, hba, if_true] at hsmall ⊢
        exact h.checkSourceDetermined hsmall
      · simp only [hab, hba] at hsmall ⊢
        exact hsmall

end Extends
end Vocabularies

namespace Rule
open Metadata
variable {large small : Vocabularies} {attributes : Attributes}

theorem ifSet_mono {c : Category} {id : String} {check check' : String → Finding}
    (hcheck : ∀ value, (check value).isFail = false → (check' value).isFail = false) {f : Finding}
    (h : ifSet attributes c id check = .ok f) (hf : f.isFail = false) :
    ∃ g, ifSet attributes c id check' = .ok g ∧ g.isFail = false := by
  unfold ifSet at h ⊢
  cases hv : attributes.get? c.name with
  | none =>
    rw [hv] at h
    exact ⟨f, h, hf⟩
  | some value =>
    rw [hv] at h
    cases h
    exact ⟨check' value, rfl, hcheck value hf⟩

/-- Without failures there is a license to compare the text with. -/
theorem exists_license (hself : small.selfCheck = [])
    (hpass : ∀ r ∈ all, (r.run attributes small).isFail = false) :
    ∃ id license, licenseId attributes small = .ok (some id) ∧
      small.licenses.get? id = some license := by
  obtain ⟨f, hcross, hf⟩ := isFail_run.mp (hpass activitySource (by decide))
  obtain ⟨activityId, -, hcross⟩ := Except.bind_eq_ok.mp hcross
  obtain ⟨sourceId, hneed, hcross⟩ := Except.bind_eq_ok.mp hcross
  obtain rfl := Except.pure_eq_ok.mp hcross
  obtain ⟨activity, source, -, hsource, -⟩ := Vocabularies.isFail_checkActivitySource.mp hf
  unfold licenseId
  cases hid : attributes.get? "license_id" with
  | none =>
    obtain ⟨license, hlicense⟩ := Vocabularies.exists_license_of_selfCheck hself hsource
    refine ⟨source.licenseId, license, ?_, hlicense⟩
    simp only [hneed, bind, Except.bind, pure, Except.pure, hsource, Option.map_some]
  | some id =>
    obtain ⟨f, hset, hf⟩ := isFail_run.mp (hpass (valueInCvs .licenseId) (by decide))
    have hknown : (small.validateValue .licenseId id).isFail = false := by
      rw [check, ifSet, show Category.licenseId.name = "license_id" from rfl, hid] at hset
      cases hset
      exact hf
    have hmem := Vocabularies.isFail_validateValue.mp hknown _ rfl
    rw [Dict.contains_map, Dict.contains_iff] at hmem
    obtain ⟨license, hlicense⟩ := hmem
    exact ⟨id, license, rfl, hlicense⟩

theorem licenseId_of_extends (h : large.Extends small) {id : String}
    (hid : licenseId attributes small = .ok (some id)) :
    licenseId attributes large = .ok (some id) := by
  unfold licenseId at hid ⊢
  cases hset : attributes.get? "license_id" with
  | some value =>
    rw [hset] at hid
    exact hid
  | none =>
    rw [hset] at hid
    obtain ⟨sourceId, hneed, hsource⟩ := Except.bind_eq_ok.mp hid
    obtain ⟨source, hget, rfl⟩ := Option.map_eq_some_iff.mp (Except.pure_eq_ok.mp hsource)
    refine Except.bind_eq_ok.mpr ⟨sourceId, hneed, ?_⟩
    rw [h.sources _ _ hget]
    rfl

/-- Where no rule fails under the smaller vocabularies, none does under the larger ones. -/
theorem run_of_extends (h : large.Extends small) (hself : small.selfCheck = [])
    (hpass : ∀ r ∈ all, (r.run attributes small).isFail = false) {r : Rule} (hr : r ∈ all) :
    (r.run attributes large).isFail = false := by
  obtain ⟨f, hcheck, hf⟩ := isFail_run.mp (hpass r hr)
  refine isFail_run.mpr ?_
  cases r with
  | valueInCvs c => exact ifSet_mono (fun value => h.validateValue) hcheck hf
  | activitySource =>
    obtain ⟨activityId, hactivity, hcheck⟩ := Except.bind_eq_ok.mp hcheck
    obtain ⟨sourceId, hsource, hcheck⟩ := Except.bind_eq_ok.mp hcheck
    obtain rfl := Except.pure_eq_ok.mp hcheck
    refine ⟨_, Except.bind_eq_ok.mpr ⟨activityId, hactivity, Except.bind_eq_ok.mpr
      ⟨sourceId, hsource, rfl⟩⟩, h.validateCross hf⟩
  | sourceDetermined c =>
    obtain ⟨sourceId, hsource, hset⟩ := Except.bind_eq_ok.mp hcheck
    obtain ⟨g, hg, hgf⟩ := ifSet_mono (fun value => h.validateCross) hset hf
    exact ⟨g, Except.bind_eq_ok.mpr ⟨sourceId, hsource, hg⟩, hgf⟩
  | licenseText =>
    obtain ⟨id, license, hid, hlicense⟩ := exists_license hself hpass
    have hid' := licenseId_of_extends h hid
    have hlicense' := h.licenses id license hlicense
    refine ⟨f, ?_, hf⟩
    simp only [check, hid, hlicense, bind, Except.bind] at hcheck
    simp only [check, hid', hlicense', bind, Except.bind]
    exact hcheck
  -- the other rules read the attributes only
  | contactFormat | furtherInfoUrlFormat | trackingIdFormat | creationDateFormat
  | conventionsFormat | variableIdCharacters | commentContent | externalVariables =>
    exact ⟨f, hcheck, hf⟩

end Rule

namespace Metadata
open Rule

/-- What is valid stays valid, with the same attributes, when the vocabularies grow. -/
theorem ofAttributes?_of_extends {large small : Vocabularies} (h : large.Extends small)
    (hself : small.selfCheck = []) {attributes : Attributes} {m : Metadata}
    (hm : ofAttributes? attributes small = .ok m) :
    ∃ m', ofAttributes? attributes large = .ok m' ∧ m'.attributes = m.attributes ∧
      (m.validate large).hasFailures = false := by
  obtain ⟨hmissing, hrun, rfl⟩ := ofAttributes?_eq_ok.mp hm
  have hlarge : (runAll (knownAttributes attributes) large).hasFailures = false := by
    rw [hasFailures_runAll] at hrun ⊢
    exact fun r hr => run_of_extends h hself hrun hr
  exact ⟨_, ofAttributes?_eq_ok.mpr ⟨hmissing, hlarge, rfl⟩, rfl, hlarge⟩

/-- The realms are constrained. -/
def narrowVocabularies : Vocabularies :=
  { FileValidation.sampleVocabularies with simple := [(.realm, Names.ofList ["atmos"])] }

/-- One more of everything. -/
def wideVocabularies : Vocabularies :=
  { narrowVocabularies with
    version := ⟨"wide", ""⟩
    activities := narrowVocabularies.activities.insert "other" ⟨"http://a.b", "", ["s*"]⟩
    institutions := narrowVocabularies.institutions.insert "away" ()
    licenses := narrowVocabularies.licenses.insert "paid" ⟨"Paid.", "http://a.b", ""⟩
    sources := narrowVocabularies.sources.insert "s2"
      ⟨some "other", "c@d.ef", "http://a.b", "away", "paid", "now", "2"⟩
    simple := [(.realm, (Names.ofList ["atmos"]).insert "ocean" ())] }

theorem extends_sample : wideVocabularies.Extends narrowVocabularies where
  activities _ _ h := Dict.get?_insert_of_new (by decide) h
  licenses _ _ h := Dict.get?_insert_of_new (by decide) h
  sources _ _ h := Dict.get?_insert_of_new (by decide) h
  institutions id h := by
    obtain ⟨u, hu⟩ := (Dict.contains_iff _ _).mp h
    exact (Dict.contains_iff _ _).mpr ⟨u, Dict.get?_insert_of_new (by decide) hu⟩
  constrained c _ := by cases c <;> rfl
  simple c _ names names' hn hn' value hvalue := by
    have hc : c = .realm := by
      by_contra hne
      simp [narrowVocabularies, List.lookup_cons, beq_eq_false_iff_ne.mpr hne] at hn
    subst hc
    obtain rfl : Names.ofList ["atmos"] = names := Option.some.inj hn
    obtain rfl : (Names.ofList ["atmos"]).insert "ocean" () = names' := Option.some.inj hn'
    obtain ⟨u, hu⟩ := (Dict.contains_iff _ _).mp hvalue
    exact (Dict.contains_iff _ _).mpr ⟨u, Dict.get?_insert_of_new (by decide) hu⟩

theorem validate_sample :
    ∃ m m', ofAttributes? sampleAttributes narrowVocabularies = .ok m ∧
      ofAttributes? sampleAttributes wideVocabularies = .ok m' ∧ m'.attributes = m.attributes ∧
        (m.validate wideVocabularies).hasFailures = false := by
  have hm := ofAttributes?_eq_ok.mpr
    (⟨by decide +kernel, by decide +kernel, rfl⟩ : missing sampleAttributes = [] ∧
      (runAll (knownAttributes sampleAttributes) narrowVocabularies).hasFailures = false ∧ _)
  obtain ⟨m', hm', hrest⟩ := ofAttributes?_of_extends extends_sample (by decide +kernel) hm
  exact ⟨_, m', hm, hm', hrest⟩

end Metadata
end ForcingData
