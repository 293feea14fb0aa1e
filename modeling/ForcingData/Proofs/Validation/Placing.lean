import ForcingData.Proofs.FileTree.Disk
import ForcingData.Proofs.Metadata.Gates
import ForcingData.Validation.Placing

/-! # From validation to the place of a file

Validation looks at the attributes as they are in the file; a file is placed by what is left of them
without the blanks around. `placed_or_refused`: a file that passed is placed, or the writer fails,
or the stripped attributes do not pass the rules that the attributes passed. -/

namespace ForcingData
open Text

theorem Outcome.bind_eq_done {α β : Type} {x : Outcome α} {f : α → Outcome β} {b : β} :
    x >>= f = .done b ↔ ∃ a, x = .done a ∧ f a = .done b := by
  cases x with
  | done a => exact ⟨fun h => ⟨a, rfl, h⟩, fun ⟨_, ha, h⟩ => by cases ha; exact h⟩
  | aborted message => exact ⟨nofun, nofun⟩

theorem Findings.hasFailures_withTarget (fs : Findings) (target : String) :
    (fs.withTarget target).hasFailures = fs.hasFailures := by
  rw [hasFailures, withTarget, List.any_map, hasFailures]
  refine congrArg fs.any (funext fun f => ?_)
  simp only [Function.comp]
  split <;> rfl

namespace DrsCheck

theorem exists_buildPath_of_validate {check : DrsCheck} {drs : Drs} {path : Path} {m : Metadata}
    (h : (check.validate drs path m).isFail = false) :
    ∃ spec, drs.buildPath m.attributes = .ok spec := by
  unfold validate at h
  cases hb : drs.buildPath m.attributes with
  | ok spec => exact ⟨spec, rfl⟩
  | error e =>
    rw [hb] at h
    cases e <;> cases h

end DrsCheck

namespace ValidationContext

/-- Every step of a validation that comes to its end. -/
theorem validateFile_eq_done {c : ValidationContext} {t : FileTree} {path : Path}
    {v : FileValidation} (h : c.validateFile t path = .done (.ok v)) :
    ∃ report d consistency, c.checker t path = .done (.ok report) ∧
      c.loader t path = .done (.ok d) ∧
      Consistency.validate d d.textAttributes c.indicators = .done consistency ∧
      v = ⟨path, d.textAttributes, Findings.withTarget (report.finding c.allowWarnings ::
        (Rule.validateAttributes d.textAttributes c.cv ++ consistency ++
          [c.checkPath path d.textAttributes])) path.text⟩ := by
  obtain ⟨checked, hcheck, h⟩ := Outcome.bind_eq_done.mp h
  cases checked with
  | error e => cases h
  | ok report =>
    obtain ⟨loaded, hload, h⟩ := Outcome.bind_eq_done.mp h
    cases loaded with
    | error e => cases h
    | ok d =>
      obtain ⟨w, hw, h⟩ := Outcome.bind_eq_done.mp h
      obtain ⟨consistency, hconsistency, hw⟩ := Outcome.bind_eq_done.mp hw
      cases hw
      cases h
      exact ⟨report, d, consistency, hcheck, hload, hconsistency, rfl⟩

/-- What a validation without failures says about the attributes. -/
theorem passed_of_validateFile {c : ValidationContext} {t : FileTree} {path : Path}
    {v : FileValidation} (h : c.validateFile t path = .done (.ok v))
    (hv : v.findings.hasFailures = false) :
    v.path = path ∧ (Rule.validateAttributes v.attributes c.cv).hasFailures = false ∧
      ∀ m, Metadata.ofFile? v.attributes c.cv = .ok m →
        ∃ spec, c.cv.drs.buildPath m.attributes = .ok spec := by
  obtain ⟨report, d, consistency, _, _, _, rfl⟩ := validateFile_eq_done h
  rw [Findings.hasFailures_withTarget, Findings.hasFailures_eq_false] at hv
  refine ⟨rfl, ?_, fun m hm => ?_⟩
  · refine Findings.hasFailures_eq_false.mpr fun f hf => hv f ?_
    simp [hf]
  · have hpath := hv (c.checkPath path d.textAttributes) (by simp)
    rw [checkPath, hm] at hpath
    exact DrsCheck.exists_buildPath_of_validate hpath

end ValidationContext

namespace FileValidation

theorem on_place (v : FileValidation) (cv : Vocabularies) (root : Path) (writer : Writer)
    (t : FileTree) : (v.place cv root writer).on t =
      match v.target? cv root with
      | .error e => (.error e, t)
      | .ok target => (((writer v.path target).on t).1.mapError .write |>.map fun _ => target,
          ((writer v.path target).on t).2) := by
  rw [place, Disk.on_bind, Disk.on_ask]
  cases v.target? cv root with
  | error e => rfl
  | ok target =>
    simp only
    rw [Disk.on_bind, Disk.on_withError]
    cases ((writer v.path target).on t).1 <;> rfl

/-- The attributes that metadata is made of: stripped, and not empty then. -/
def stripped (v : FileValidation) : Attributes := Metadata.dropEmpty (v.attributes.map trim)

theorem isOk_ofFile? (v : FileValidation) (cv : Vocabularies) :
    (∃ m, Metadata.ofFile? v.attributes cv = .ok m) ↔
      (Rule.validateAttributes v.stripped cv).hasFailures = false :=
  Metadata.isOk_ofAttributes? _ cv

/-- Without blanks around them the attributes stay as they are, up to empty ones. -/
theorem validateAttributes_stripped {v : FileValidation} {cv : Vocabularies}
    (h : (Rule.validateAttributes v.attributes cv).hasFailures = false)
    (hb : ∀ key, Metadata.isKnown key = true → ∀ value, v.attributes.get? key = some value →
      trim value = value) : (Rule.validateAttributes v.stripped cv).hasFailures = false := by
  have hagree : Metadata.Agree (v.attributes.map trim) v.attributes := by
    intro key hkey
    rw [Dict.get?_map]
    cases hv : v.attributes.get? key with
    | none => rfl
    | some value => exact congrArg some (hb key hkey value hv)
  rw [stripped, ← Metadata.isOk_ofAttributes?, hagree.ofAttributes?_eq]
  exact ⟨_, Metadata.ofAttributes?_of_validateAttributes h⟩

/-- A file that passed is refused only for what stripping does to its attributes: then, and else
only if the writer fails, it is not placed. -/
theorem placed_or_refused {c : ValidationContext} {t : FileTree} {path : Path}
    {v : FileValidation} (h : c.validateFile t path = .done (.ok v))
    (hv : v.findings.hasFailures = false) (root : Path) (writer : Writer) (t' : FileTree) :
    ((∃ e, ((v.place c.cv root writer).on t').1 = .error (.metadata path e)) ↔
      (Rule.validateAttributes ((v.attributes.map trim).filter fun _ value => value ≠ "")
        c.cv).hasFailures = true) ∧
    (∀ e, ((v.place c.cv root writer).on t').1 = .error e →
      (∃ e', e = .metadata path e') ∨ ∃ e', e = .write e') ∧
    ((∀ key, Metadata.isKnown key = true → ∀ value, v.attributes.get? key = some value →
        trim value = value) →
      ∀ e, ((v.place c.cv root writer).on t').1 = .error e → ∃ e', e = .write e') := by
  obtain ⟨hpath, hattributes, hbuild⟩ := ValidationContext.passed_of_validateFile h hv
  subst hpath
  have hok := v.isOk_ofFile? c.cv
  rw [on_place, target?, if_neg (by simp [hv])]
  -- the metadata is refused, or the path is built and only the writer is left
  cases hm : Metadata.ofFile? v.attributes c.cv with
  | error e =>
    have hrefused : (Rule.validateAttributes v.stripped c.cv).hasFailures = true := by
      by_contra hne
      obtain ⟨m, hm'⟩ := hok.mpr (Bool.eq_false_iff.mpr hne)
      rw [hm] at hm'
      cases hm'
    refine ⟨⟨fun _ => hrefused, fun _ => ⟨e, rfl⟩⟩, fun e' he => ?_, fun hb => ?_⟩
    · cases he
      exact .inl ⟨e, rfl⟩
    · rw [validateAttributes_stripped hattributes hb] at hrefused
      cases hrefused
  | ok m =>
    obtain ⟨spec, hspec⟩ := hbuild m hm
    have hplaced : (Rule.validateAttributes v.stripped c.cv).hasFailures = false :=
      hok.mp ⟨m, hm⟩
    have hwrite : ∀ e, ((((writer v.path (root.join spec.path)).on t').1.mapError
        PlacingError.write).map fun _ => root.join spec.path) = .error e →
          ∃ e', e = .write e' := by
      intro e he
      cases hw : ((writer v.path (root.join spec.path)).on t').1 with
      | error e' =>
        rw [hw] at he
        cases he
        exact ⟨e', rfl⟩
      | ok u =>
        rw [hw] at he
        cases he
    simp only [hspec]
    refine ⟨⟨fun ⟨e, he⟩ => ?_, fun hr => ?_⟩, fun e he => .inr (hwrite e he), fun _ => hwrite⟩
    · obtain ⟨e', he'⟩ := hwrite _ he
      cases he'
    · rw [show (Rule.validateAttributes v.stripped c.cv).hasFailures = true from hr] at hplaced
      cases hplaced

/-! ### A file with a blank value -/

def sampleVocabularies : Vocabularies where
  version := ⟨"sample", ""⟩
  activities := Dict.ofList [("input", ⟨"http://a.b", "", []⟩)]
  institutions := Names.ofList ["home"]
  licenses := Dict.ofList [("free", ⟨"Free.", "http://a.b", ""⟩)]
  sources := Dict.ofList [("s1", ⟨none, "a@b.cd", "http://a.b", "home", "free", "now", "1"⟩)]
  simple := []
  drs := ⟨[⟨"<source_id>", [.item (.key "source_id")]⟩],
    ⟨"<variable_id>.nc", [.item (.key "variable_id"), .item (.literal ['.', 'n', 'c'])]⟩⟩
  example? := none

/-- The resolution of the grid is blank. -/
def sampleDataset : Dataset where
  attributes := (Dict.ofList [("activity_id", "input"), ("contact", "a@b.cd"),
    ("dataset_category", "any"), ("frequency", "fx"), ("further_info_url", "http://a.b"),
    ("grid_label", "gn"), ("institution_id", "home"), ("license", "Free."), ("mip_era", "now"),
    ("nominal_resolution", " "), ("realm", "atmos"), ("source_id", "s1"), ("source_version", "1"),
    ("target_mip", "any"), ("variable_id", "tas")]).map .text
  dimensions := ∅
  vars := Dict.ofList [("tas", ⟨[], ∅⟩)]
  time := none

def sampleContext : ValidationContext where
  cv := sampleVocabularies
  loader := fun _ _ => .done (.ok sampleDataset)
  checker := Compliance.Checker.fixed ⟨.pass, []⟩
  indicators := []
  allowWarnings := false
  drsCheck := .fullPath

/-- The blank resolution passes, and then there is no resolution to place the file with. -/
theorem refused_sample :
    ∃ v, sampleContext.validateFile default ⟨"s1/tas.nc"⟩ = .done (.ok v) ∧
      v.findings.hasFailures = false ∧ ∀ root writer t, ∃ e,
        ((v.place sampleVocabularies root writer).on t).1 = .error (.metadata ⟨"s1/tas.nc"⟩ e) := by
  obtain ⟨v, hv, hf, hr⟩ : ∃ v, sampleContext.validateFile default ⟨"s1/tas.nc"⟩ = .done (.ok v) ∧
      v.findings.hasFailures = false ∧
      (Rule.validateAttributes ((v.attributes.map trim).filter fun _ value => value ≠ "")
        sampleVocabularies).hasFailures = true :=
    ⟨_, rfl, by decide +kernel, by decide +kernel⟩
  refine ⟨v, hv, hf, fun root writer t => ?_⟩
  exact (placed_or_refused hv hf root writer t).1.mpr hr

end FileValidation
end ForcingData
