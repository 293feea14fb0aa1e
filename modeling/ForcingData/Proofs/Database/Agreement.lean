import ForcingData.Database.Creation
import ForcingData.Proofs.Drs.Ending
import ForcingData.Proofs.FileTree.DeadEnd
import ForcingData.Proofs.Tree.Report
import ForcingData.Proofs.Validation.Placing

/-! # Entries for files that passed

Validation looks at a file as it is, an entry is made of what the file says and of what its path
adds. The path of a file that passed adds nothing (`addFromPath_eq`): what can be read from it are
values of attributes that the file has. So the entry holds the attributes of the file, and the same
rules pass (`createEntry_of_validateFile`). -/

namespace ForcingData
open Text

namespace DrsCheck

theorem exists_endsWith_of_validate {check : DrsCheck} {drs : Drs} {path : Path} {m : Metadata}
    (h : (check.validate drs path m).isFail = false) :
    ∃ spec, drs.buildPath m.attributes = .ok spec ∧
      path.endsWith (check.expected spec) = true := by
  obtain ⟨spec, hspec⟩ := exists_buildPath_of_validate h
  refine ⟨spec, hspec, ?_⟩
  by_contra hends
  unfold validate at h
  simp only [hspec, hends] at h
  cases h

end DrsCheck

namespace EntryContext
open Database
variable {c : EntryContext}

theorem foldl_addMissing {l : List (String × String)} {attributes : Attributes}
    (h : ∀ e ∈ l, attributes.contains e.1 = true) :
    l.foldl (fun acc (key, value) => if acc.contains key then acc else acc.insert key value)
      attributes = attributes := by
  induction l with
  | nil => rfl
  | cons e l ih =>
    have hkey := h e (List.mem_cons_self ..)
    simp only [List.foldl_cons, hkey, if_true]
    exact ih fun x hx => h x (List.mem_cons_of_mem _ hx)

theorem addFromPath_eq {path : Path} {attributes : Attributes}
    (h : ∀ found, c.cv.drs.parsePath path = .ok found → ∀ key, found.contains key = true →
      attributes.contains key = true) : c.addFromPath path attributes = attributes := by
  unfold addFromPath
  cases hfound : c.cv.drs.parsePath path with
  | error e => rfl
  | ok found =>
    refine foldl_addMissing fun e he => h found hfound e.1 ?_
    exact (found.contains_iff e.1).mpr ⟨e.2, found.mem_toList.mp he⟩

/-- What is said of a dataset in its entry. -/
theorem exists_ofDataset {path : Path} {d : Dataset} {consistency : Findings}
    (h : Consistency.validate d (c.complete path d) c.indicators = .done consistency) :
    ∃ e, c.ofDataset path d = .done e ∧ e.attributes = c.complete path d ∧
      e.metadata = (Metadata.ofFile? (c.complete path d) c.cv).toOption ∧
      e.status = .ofStatus (Findings.withTarget
        (Rule.validateAttributes (c.complete path d) c.cv ++ consistency) path.text).summary :=
  ⟨_, Outcome.bind_eq_done.mpr ⟨consistency, h, rfl⟩, rfl, rfl, rfl⟩

theorem createEntry_eq_done {t : FileTree} {path : Path} {d : Dataset}
    (hload : c.loader t path = .done (.ok d)) {e : Entry} (he : c.ofDataset path d = .done e)
    {content : ByteArray} (hread : t.read path = .ok content) :
    c.createEntry t path = .done (.ok { e with sha256 := some (Hash.sha256Hex content) }) := by
  have hhash : hashOfFile t path = .ok (Hash.sha256Hex content) := by
    rw [hashOfFile, hread]
    rfl
  refine Outcome.bind_eq_done.mpr ⟨_, hload, Outcome.bind_eq_done.mpr ⟨e, he, ?_⟩⟩
  rw [hhash]
  rfl

theorem settleFrequency_eq {d : Dataset} {attributes : Attributes}
    (h : attributes.contains "frequency" = true) : c.settleFrequency d attributes = attributes :=
  if_pos h

end EntryContext

theorem EntryStatus.ofStatus_summary {fs : Findings} (h : fs.hasFailures = false) :
    EntryStatus.ofStatus fs.summary = .passed := by
  cases hs : fs.summary with
  | pass | warning => rfl
  | fail =>
    rw [Findings.summary_eq_fail, h] at hs
    cases hs

namespace Metadata

theorem map_trim_eq {attributes : Attributes}
    (h : ∀ key value, attributes.get? key = some value → trim value = value) :
    attributes.map trim = attributes := by
  refine Dict.ext_get? fun key => ?_
  rw [Dict.get?_map]
  cases hv : attributes.get? key with
  | none => rfl
  | some value => exact congrArg some (h key value hv)

theorem contains_of_fieldValue? {attributes : Attributes} {key : String}
    (h : (Drs.fieldValue? (knownAttributes attributes) key).isSome = true) :
    attributes.contains key = true := by
  obtain ⟨value, hvalue⟩ := Option.isSome_iff_exists.mp h
  have hknown := (Drs.fieldValue?_eq_some.mp hvalue).1
  rw [get?_knownAttributes, Option.filter_eq_some_iff] at hknown
  exact (attributes.contains_iff key).mpr ⟨value, hknown.1⟩

end Metadata

namespace ValidationContext
open EntryContext

/-- The path of a file that passed adds nothing to its attributes. -/
theorem complete_eq {directory fileName : String} {c : ValidationContext}
    (hd : Drs.ofTemplates? directory fileName = .ok c.cv.drs) (hs : c.cv.drs.WellSeparated)
    {path : Path} (hpath : '\\' ∉ path.text.toList) {d : Dataset}
    (hrules : (Rule.validateAttributes d.textAttributes c.cv).hasFailures = false)
    (hplace : (c.checkPath path d.textAttributes).isFail = false)
    (hblank : ∀ key value, d.textAttributes.get? key = some value → trim value = value)
    (hname : ∀ m spec, Metadata.ofFile? d.textAttributes c.cv = .ok m →
      c.cv.drs.buildPath m.attributes = .ok spec → c.cv.drs.LeavesOut m.attributes →
        spec.fileName ≠ "" ∧ (c.drsCheck = .fullPath → spec.fileName ≠ ".")) {e : EntryContext}
    (he : e.cv = c.cv) : e.complete path d = d.textAttributes := by
  have htrim := Metadata.map_trim_eq hblank
  have hm := Metadata.ofAttributes?_of_validateAttributes hrules
  have hfile : Metadata.ofFile? d.textAttributes c.cv =
      .ok ⟨Metadata.knownAttributes d.textAttributes, c.cv.version⟩ := by
    rw [Metadata.ofFile?, htrim, hm]
  rw [checkPath, hfile] at hplace
  obtain ⟨spec, hspec, hends⟩ := DrsCheck.exists_endsWith_of_validate hplace
  have hadd : e.addFromPath path d.textAttributes = d.textAttributes := by
    refine addFromPath_eq fun found hfound key hkey => Metadata.contains_of_fieldValue? ?_
    rw [he] at hfound
    exact Drs.isSome_fieldValue?_of_parsePath hd hs hspec hpath hends (hname _ spec hfile hspec)
      hfound hkey
  have hrequired : Metadata.isRequired "frequency" = true := by decide
  obtain ⟨frequency, hfrequency, -⟩ := Metadata.ne_empty_of_missing
    (Rule.hasFailures_validateAttributes.mp hrules).1 hrequired
  rw [complete, htrim, hadd]
  exact settleFrequency_eq ((Dict.contains_iff _ _).mpr ⟨frequency, hfrequency⟩)

/-- A file that passed, and that can be read, has an entry that passed, with its attributes. -/
theorem createEntry_of_validateFile {directory fileName : String} {c : ValidationContext}
    (hd : Drs.ofTemplates? directory fileName = .ok c.cv.drs) (hs : c.cv.drs.WellSeparated)
    {t : FileTree} {path : Path} (hpath : '\\' ∉ path.text.toList) {d : Dataset}
    (hload : c.loader t path = .done (.ok d)) {content : ByteArray}
    (hread : t.read path = .ok content)
    (hblank : ∀ key value, d.textAttributes.get? key = some value → trim value = value)
    (hname : ∀ m spec, Metadata.ofFile? d.textAttributes c.cv = .ok m →
      c.cv.drs.buildPath m.attributes = .ok spec → c.cv.drs.LeavesOut m.attributes →
        spec.fileName ≠ "" ∧ (c.drsCheck = .fullPath → spec.fileName ≠ "."))
    {v : FileValidation} (h : c.validateFile t path = .done (.ok v))
    (hv : v.findings.hasFailures = false) (now : Instant) :
    ∃ e, EntryContext.createEntry ⟨c.cv, .standard, c.indicators, c.loader, now⟩ t path =
        .done (.ok e) ∧
      e.status = .passed ∧ e.attributes = d.textAttributes ∧ e.metadata.isSome = true := by
  obtain ⟨report, d', consistency, -, hload', hconsistency, rfl⟩ := validateFile_eq_done h
  obtain rfl : d = d' := Except.ok.inj (Outcome.done.inj (hload.symm.trans hload'))
  rw [Findings.hasFailures_withTarget, Findings.hasFailures_eq_false] at hv
  have hrules : (Rule.validateAttributes d.textAttributes c.cv).hasFailures = false :=
    Findings.hasFailures_eq_false.mpr fun f hf => hv f (by simp [hf])
  have hplace : (c.checkPath path d.textAttributes).isFail = false := hv _ (by simp)
  -- the path adds nothing, so that the entry is made of the attributes that were validated
  have hcomplete := complete_eq hd hs hpath hrules hplace hblank hname
    (e := ⟨c.cv, .standard, c.indicators, c.loader, now⟩) rfl
  have hfindings : (Findings.withTarget
      (Rule.validateAttributes d.textAttributes c.cv ++ consistency) path.text).hasFailures =
        false := by
    rw [Findings.hasFailures_withTarget, Findings.hasFailures_eq_false]
    intro f hf
    rcases List.mem_append.mp hf with hf | hf
    · exact Findings.hasFailures_eq_false.mp hrules f hf
    · exact hv f (by simp [hf])
  have hm : Metadata.ofFile? d.textAttributes c.cv =
      .ok ⟨Metadata.knownAttributes d.textAttributes, c.cv.version⟩ := by
    rw [Metadata.ofFile?, Metadata.map_trim_eq hblank,
      Metadata.ofAttributes?_of_validateAttributes hrules]
  rw [← hcomplete] at hconsistency
  obtain ⟨e, he, hattributes, hmetadata, hstatus⟩ := exists_ofDataset hconsistency
  rw [hcomplete] at hattributes hmetadata hstatus
  refine ⟨_, createEntry_eq_done hload he hread, ?_, hattributes, ?_⟩
  · exact hstatus.trans (EntryStatus.ofStatus_summary hfindings)
  · show e.metadata.isSome = true
    rw [hmetadata, hm]
    rfl

/-! ### A file with a section in its name -/

def agreeingDataset : Dataset :=
  { FileValidation.sampleDataset with
    attributes :=
      FileValidation.sampleDataset.attributes.insert "nominal_resolution" (.text "10 km") }

/-- The name may end in the license. -/
def licensedContext (fileName : Drs.Template) (check : DrsCheck) : ValidationContext :=
  { FileValidation.sampleContext with
    cv := { FileValidation.sampleVocabularies with
      drs := ⟨[⟨"<source_id>", [.item (.key "source_id")]⟩], fileName⟩ }
    loader := fun _ _ => .done (.ok agreeingDataset)
    drsCheck := check }

def licensedName : Drs.Template :=
  ⟨"<variable_id>[_<license_id>]",
    [.item (.key "variable_id"), .optional [.literal ['_'], .key "license_id"]]⟩

/-- All of the name is a section. -/
def voidName : Drs.Template :=
  ⟨"[<license_id>_]", [.optional [.key "license_id", .literal ['_']]]⟩

/-- A data file in the directory of its source. -/
def treeWith (name : String) : FileTree :=
  ⟨Dict.ofList [(["s1"], .directory), (["s1", name], .file ByteArray.empty)], []⟩

theorem read_treeWith {name : String} {p : Path} (hrefused : FileTree.refused? p = none)
    (hrel : p.isAbsolute = false) (hsteps : FileTree.steps p = ["s1", name])
    (hname : FileTree.IsStep name) : (treeWith name).read p = .ok ByteArray.empty := by
  have hdir : (treeWith name).node? ["s1"] = some .directory := by
    simp [FileTree.node?, treeWith, Dict.ofList, Dict.get?_insert]
  have hfile : (treeWith name).node? ["s1", name] = some (.file ByteArray.empty) := by
    simp [FileTree.node?, treeWith, Dict.ofList, Dict.get?_insert]
  have hleads : FileTree.Leads (treeWith name) ⟨true, false⟩ FileTree.linkLimit [] ["s1", name]
      ["s1", name] := by
    refine .child (FileTree.isDirectoryAt_iff.mpr rfl) ⟨by decide, by decide, by decide⟩ hdir
      (by simp) ?_
    exact .child (FileTree.isDirectoryAt_iff.mpr hdir) hname hfile (by simp) (.done ..)
  have horigin : (treeWith name).origin p = [] := by
    rw [FileTree.origin, hrel]
    rfl
  have hlocate : (treeWith name).locate p = .ok ["s1", name] :=
    FileTree.locate_eq_ok.mpr ⟨hrefused, by rw [horigin, hsteps]; exact hleads⟩
  rw [FileTree.read, FileTree.lookup_eq_ok.mpr ⟨_, hlocate, hfile⟩]
  rfl

theorem trimmed_agreeingDataset (key value : String)
    (h : agreeingDataset.textAttributes.get? key = some value) : trim value = value := by
  have hall : ∀ e ∈ agreeingDataset.textAttributes.toList, trim e.2 = e.2 := by decide
  exact hall (key, value) ((Dict.mem_toList _).mpr h)

/-- Without a license the name ends before the section. -/
theorem createEntry_sample :
    ∃ e, EntryContext.createEntry ⟨(licensedContext licensedName .fullPath).cv, .standard, [],
        (licensedContext licensedName .fullPath).loader, default⟩ (treeWith "tas") ⟨"s1/tas"⟩ =
        .done (.ok e) ∧
      e.status = .passed ∧ e.attributes = agreeingDataset.textAttributes ∧
      e.metadata.isSome = true := by
  have htemplates : Drs.ofTemplates? "<source_id>" "<variable_id>[_<license_id>]" =
      .ok (licensedContext licensedName .fullPath).cv.drs := rfl
  refine createEntry_of_validateFile htemplates
    ⟨by decide, by decide, by decide, by decide, by decide, by decide, by decide⟩ (by decide)
    rfl (read_treeWith (by decide) (by decide) (by decide) ⟨by decide, by decide, by decide⟩)
    trimmed_agreeingDataset (fun m spec hm hspec _ => ?_) rfl (by decide +kernel) default
  obtain ⟨-, -, rfl⟩ := Metadata.ofAttributes?_eq_ok.mp hm
  obtain rfl : (⟨⟨"s1"⟩, "tas"⟩ : Drs.PathSpec) = spec :=
    Except.ok.inj ((by rfl : Except.ok _ = _).trans hspec)
  exact ⟨by decide, fun _ => by decide⟩

/-- Any name ends in nothing, and this one is read for a license that there is not. -/
theorem createEntry_fails_sample :
    Drs.ofTemplates? "<source_id>" "[<license_id>_]" =
        .ok (licensedContext voidName .fileName).cv.drs ∧
      (licensedContext voidName .fileName).cv.drs.WellSeparated ∧
      (treeWith "abc_").read ⟨"s1/abc_"⟩ = .ok ByteArray.empty ∧
      (∀ key value, agreeingDataset.textAttributes.get? key = some value → trim value = value) ∧
      ∃ v e, (licensedContext voidName .fileName).validateFile (treeWith "abc_") ⟨"s1/abc_"⟩ =
          .done (.ok v) ∧ v.findings.hasFailures = false ∧
        EntryContext.createEntry ⟨(licensedContext voidName .fileName).cv, .standard, [],
          (licensedContext voidName .fileName).loader, default⟩ (treeWith "abc_") ⟨"s1/abc_"⟩ =
            .done (.ok e) ∧
        e.status = .failed ∧ e.attributes ≠ agreeingDataset.textAttributes ∧ e.metadata = none := by
  have hread : (treeWith "abc_").read ⟨"s1/abc_"⟩ = .ok ByteArray.empty :=
    read_treeWith (by decide) (by decide) (by decide) ⟨by decide, by decide, by decide⟩
  refine ⟨rfl, ⟨by decide, by decide, by decide, by decide, by decide, by decide, by decide⟩, hread,
    trimmed_agreeingDataset, _, _, rfl, by decide +kernel,
    EntryContext.createEntry_eq_done rfl rfl hread, ?_, ?_, ?_⟩
  · decide +kernel
  · decide +kernel
  · decide +kernel

end ValidationContext
end ForcingData
