import ForcingData.Proofs.Dataset.Copying
import ForcingData.Proofs.Json.RoundTrip
import ForcingData.Proofs.Validation.Placing

/-! # Files that are placed

A copy is described as its source is, unless a header that was there before gets between
(`Describes`). Placing files one after the other leaves all that there was as it was
(`grown_treeAfter`), and a file that is placed is where its metadata says
(`placed_where_checked`). -/

namespace ForcingData
open FileTree

variable {t t' : FileTree} {source target p : Path} {content : ByteArray} {d : Dataset}

/-! ### What describes a copy -/

/-- What a header makes known of a data file. -/
def describedBy (path : Path) (content : ByteArray) : Except LoadError Dataset :=
  match Dataset.ofBytes? content with
  | some d => .ok d
  | none => .error (.malformed path)

theorem loadHeader_of_sidecar (h : t.read (Dataset.sidecar p) = .ok content) :
    loadHeader t p = describedBy p content := by
  unfold loadHeader headerPath
  simp only
  rw [if_pos (isFile_iff.mpr ⟨content, h⟩), h]
  rfl

theorem loadHeader_of_no_sidecar (hs : t.isFile (Dataset.sidecar p) = false)
    (h : t.read p = .ok content) : loadHeader t p = describedBy p content := by
  unfold loadHeader headerPath
  simp only
  rw [if_neg (Bool.eq_false_iff.mp hs), h]
  rfl

theorem describedBy_eq_ok : describedBy p content = .ok d ↔ Dataset.ofBytes? content = some d := by
  rw [describedBy]
  cases Dataset.ofBytes? content <;> simp

theorem loadHeader_eq_ok (h : loadHeader t p = .ok d) : ∃ content,
    Dataset.ofBytes? content = some d ∧ (t.read (Dataset.sidecar p) = .ok content ∨
      t.isFile (Dataset.sidecar p) = false ∧ t.read p = .ok content) := by
  cases hs : t.isFile (Dataset.sidecar p) with
  | true =>
    obtain ⟨content, hr⟩ := isFile_iff.mp hs
    rw [loadHeader_of_sidecar hr] at h
    exact ⟨content, describedBy_eq_ok.mp h, .inl hr⟩
  | false =>
    cases hr : t.read p with
    | error e =>
      unfold loadHeader headerPath at h
      simp only at h
      rw [if_neg (Bool.eq_false_iff.mp hs), hr] at h
      cases h
    | ok content =>
      rw [loadHeader_of_no_sidecar hs hr] at h
      exact ⟨content, describedBy_eq_ok.mp h, .inr ⟨rfl, rfl⟩⟩

/-- Afterwards the path leads to a file that was there before. -/
def LeftOver (t t' : FileTree) (p : Path) (content : ByteArray) : Prop :=
  ∃ k, t'.locate p = .ok k ∧ t.node? k = some (.file content)

theorem LeftOver.of_read (hg : Grown t t') (h : t.read p = .ok content) :
    LeftOver t t' p content := by
  obtain ⟨k, hk, hn⟩ := lookup_eq_ok.mp (read_eq_ok.mp h)
  exact ⟨k, hg.locate hk, hn⟩

theorem LeftOver.read (hg : Grown t t') (h : LeftOver t t' p content) :
    t'.read p = .ok content := by
  obtain ⟨k, hk, hn⟩ := h
  exact read_eq_of_node hk (hg.node k _ hn)

/-- What describes a copy: a header that was there before, if there is one beside the copy, or if
one is found beside the source that had none, and else what describes the source. -/
structure Describes (t t' : FileTree) (source target : Path) (d : Dataset) : Prop where
  stale : ∀ content, LeftOver t t' (Dataset.sidecar target) content →
    loadHeader t' target = describedBy target content
  woken : t.isFile (Dataset.sidecar source) = false →
    ∀ content, LeftOver t t' (Dataset.sidecar source) content →
      loadHeader t' target = describedBy target content
  same : (∀ content, ¬LeftOver t t' (Dataset.sidecar target) content) →
    (t.isFile (Dataset.sidecar source) = false →
      ∀ content, ¬LeftOver t t' (Dataset.sidecar source) content) →
    loadHeader t' target = .ok d

/-- A file that is found after a copy of the data was there before, or is the copy. -/
theorem leftOver_or_eq {t₁ : FileTree} {l : Location} {other : ByteArray}
    (hmade : OnlyDirectories t t₁) (hl : t₁.node? l = none)
    (h : (t₁.put l (.file content)).read p = .ok other) :
    LeftOver t (t₁.put l (.file content)) p other ∨ other = content := by
  obtain ⟨k, hk, hn⟩ := lookup_eq_ok.mp (read_eq_ok.mp h)
  rw [node?_put t₁ (ne_nil_of_node?_eq_none hl)] at hn
  split at hn
  · cases hn
    exact .inr rfl
  · exact .inl ⟨k, hk, hmade.file_iff.mp hn⟩

theorem Describes.of_copyFile (hload : loadHeader t source = .ok d)
    (hcopy : (copyFile source target).on t = (.ok (), t')) : Describes t t' source target d := by
  have hgrown := grown_copyFile source target t
  rw [hcopy] at hgrown
  obtain ⟨t₁, l, content, hmade, hfree, hread, hheader⟩ := exists_of_copyFile hcopy
  have hnothing := (freeLocation_eq_ok.mp hfree).2
  have hgrown₂ : Grown t (t₁.put l (.file content)) := hmade.toGrown.trans (.put hnothing _)
  -- what describes the source is the content of the copy, if it has no header
  have hdata (hs : t.isFile (Dataset.sidecar source) = false) :
      Dataset.ofBytes? content = some d := by
    obtain ⟨other, hd, hr | ⟨-, hr⟩⟩ := loadHeader_eq_ok hload
    · rw [isFile_iff.mpr ⟨other, hr⟩] at hs
      cases hs
    · cases (hmade.toGrown.read hr).symm.trans hread
      exact hd
  refine ⟨fun other hother => loadHeader_of_sidecar (hother.read hgrown), ?_, ?_⟩
  · intro hs other hother
    have hfound := hother.read hgrown
    rcases hheader with ⟨hno, rfl⟩ | ⟨k, header, hr, hk, rfl⟩
    · rw [isFile_iff.mpr ⟨other, hfound⟩] at hno
      cases hno
    · cases ((Grown.put (freeLocation_eq_ok.mp hk).2 _).read hr).symm.trans hfound
      exact loadHeader_of_sidecar (read_of_put hk _)
  · intro htarget hsource
    rcases hheader with ⟨hno, rfl⟩ | ⟨k, header, hr, hk, rfl⟩
    · have hs : t.isFile (Dataset.sidecar source) = false := by
        by_contra hs
        rw [hgrown₂.isFile (Bool.not_eq_false _ ▸ hs)] at hno
        cases hno
      cases hbeside : (t₁.put l (.file content)).isFile (Dataset.sidecar target) with
      | false =>
        rw [loadHeader_of_no_sidecar hbeside (read_of_put hfree _)]
        exact describedBy_eq_ok.mpr (hdata hs)
      | true =>
        obtain ⟨other, hother⟩ := isFile_iff.mp hbeside
        obtain rfl := (leftOver_or_eq hmade hnothing hother).resolve_left (htarget other)
        rw [loadHeader_of_sidecar hother]
        exact describedBy_eq_ok.mpr (hdata hs)
    · rw [loadHeader_of_sidecar (read_of_put hk _), describedBy_eq_ok]
      cases hs : t.isFile (Dataset.sidecar source) with
      | true =>
        obtain ⟨other, hd, hother | ⟨hs', -⟩⟩ := loadHeader_eq_ok hload
        · cases (hgrown₂.read hother).symm.trans hr
          exact hd
        · cases hs'.symm.trans hs
      | false =>
        have hnot : ¬LeftOver t (t₁.put l (.file content)) (Dataset.sidecar source) header := by
          rintro ⟨x, hx, hn⟩
          have hgrown₃ := Grown.put (freeLocation_eq_ok.mp hk).2 (.file header)
          exact hsource hs header ⟨x, hgrown₃.locate hx, hn⟩
        obtain rfl := (leftOver_or_eq hmade hnothing hr).resolve_left hnot
        exact hdata hs

/-! ### Placing one file -/

namespace FileValidation
variable {v : FileValidation} {cv : Vocabularies} {root : Path}

theorem target?_eq_ok : v.target? cv root = .ok target ↔ v.findings.hasFailures = false ∧
    ∃ m spec, Metadata.ofFile? v.attributes cv = .ok m ∧
      cv.drs.buildPath m.attributes = .ok spec ∧ target = root.join spec.path := by
  rw [target?]
  cases v.findings.hasFailures with
  | true => simp
  | false =>
    cases hm : Metadata.ofFile? v.attributes cv with
    | error e => simp
    | ok m =>
      cases hb : cv.drs.buildPath m.attributes with
      | error e => simp [hb]
      | ok spec => simp [hb, eq_comm]

theorem place_eq_ok {writer : Writer} (h : (v.place cv root writer).on t = (.ok target, t')) :
    v.target? cv root = .ok target ∧ (writer v.path target).on t = (.ok (), t') := by
  rw [on_place] at h
  cases htarget : v.target? cv root with
  | error e =>
    rw [htarget] at h
    cases h
  | ok target' =>
    rw [htarget] at h
    simp only at h
    rcases hw : (writer v.path target').on t with ⟨e | _, t''⟩ <;> rw [hw] at h <;> cases h
    exact ⟨rfl, hw⟩

theorem grown_place (v : FileValidation) (cv : Vocabularies) (root : Path) (t : FileTree) :
    Grown t ((v.place cv root copyFile).on t).2 := by
  rw [on_place]
  cases v.target? cv root with
  | error e => exact .refl t
  | ok target => exact grown_copyFile v.path target t

end FileValidation

/-- A copy is described by what describes its source, but for headers that were there before, and
so is a file that is validated by its header and then placed. -/
theorem describes_copies_and_placed_files :
    (∀ source target d, loadHeader t source = .ok d →
      (copyFile source target).on t = (.ok (), t') → Describes t t' source target d) ∧
    ∀ (c : ValidationContext) (path : Path) (v : FileValidation) (cv : Vocabularies)
      (root target : Path), c.loader = headerLoader →
      c.validateFile t path = .done (.ok v) →
      (v.place cv root copyFile).on t = (.ok target, t') →
        ∃ d, loadHeader t path = .ok d ∧ v.attributes = d.textAttributes ∧
          Describes t t' path target d := by
  refine ⟨fun _ _ _ => Describes.of_copyFile, fun c path v cv root target hloader hv hplace => ?_⟩
  obtain ⟨report, d, consistency, -, hload, -, rfl⟩ :=
    ValidationContext.validateFile_eq_done hv
  rw [hloader] at hload
  have hload : loadHeader t path = .ok d := Outcome.done.inj hload
  exact ⟨d, hload, rfl, .of_copyFile hload (FileValidation.place_eq_ok hplace).2⟩

/-! ### A file that is validated, and then placed -/

/-- A header with these attributes, of one variable. -/
def headerValue (attributes : List (String × String)) : Json.Value :=
  .object [("attributes", .object (attributes.map fun (key, value) => (key, .text value))),
    ("variables", .object [("tas", .object [])])]

def headerContent (attributes : List (String × String)) : ByteArray :=
  (headerValue attributes).pretty.toUTF8

def describedDataset (attributes : List (String × String)) : Dataset where
  attributes := (Dict.ofList attributes).map .text
  dimensions := ∅
  vars := Dict.ofList [("tas", ⟨[], ∅⟩)]
  time := none

def validAttributes : List (String × String) :=
  (FileValidation.sampleDataset.textAttributes.insert "nominal_resolution" "10 km").toList

theorem ofBytes?_validHeader : Dataset.ofBytes? (headerContent validAttributes) =
    some (describedDataset validAttributes) := by
  have h : (headerValue validAttributes).isPlain = true := by decide
  rw [Dataset.ofBytes?, headerContent, Json.Tree.ofBytes?_pretty h]
  rfl

/-- A file with its header, and the directory that it is to be placed in. -/
def validTree : FileTree where
  nodes := Dict.ofList [(["s1"], .directory), (["tas.nc"], .file "values".toUTF8),
    (["tas.nc.header.json"], .file (headerContent validAttributes))]
  workingDirectory := []

def validContext : ValidationContext :=
  { FileValidation.sampleContext with loader := headerLoader, drsCheck := .fileName }

theorem loadHeader_validTree :
    loadHeader validTree ⟨"tas.nc"⟩ = .ok (describedDataset validAttributes) := by
  have hname : IsPathName "tas.nc.header.json" := by decide
  have hsidecar : Dataset.sidecar ⟨"tas.nc"⟩ = ⟨"tas.nc.header.json"⟩ := by decide
  have hread : validTree.read (Dataset.sidecar ⟨"tas.nc"⟩) =
      .ok (headerContent validAttributes) := hsidecar ▸ hname.read rfl rfl
  rw [loadHeader_of_sidecar hread]
  exact describedBy_eq_ok.mpr ofBytes?_validHeader

theorem validateFile_validTree : ∃ v,
    validContext.validateFile validTree ⟨"tas.nc"⟩ = .done (.ok v) ∧ v.path = ⟨"tas.nc"⟩ ∧
      v.target? FileValidation.sampleVocabularies ⟨""⟩ = .ok ⟨"s1/tas.nc"⟩ := by
  have hloaded : validContext.validateFile validTree ⟨"tas.nc"⟩ = (do
      let v ← validContext.inspect ⟨"tas.nc"⟩ (describedDataset validAttributes)
      let findings := Compliance.Report.finding ⟨.pass, []⟩ false :: v.findings
      return .ok { v with findings := Findings.withTarget findings "tas.nc" }) := by
    unfold ValidationContext.validateFile
    simp only [validContext, headerLoader, loadHeader_validTree]
    rfl
  rw [hloaded]
  exact ⟨_, rfl, rfl, by decide⟩

def placedTree : FileTree :=
  (validTree.put ["s1", "tas.nc"] (.file "values".toUTF8)).put ["s1", "tas.nc.header.json"]
    (.file (headerContent validAttributes))

theorem locate_validTree : validTree.locate ⟨"s1"⟩ = .ok ["s1"] :=
  IsPathName.locate (by decide) rfl (n := .directory) rfl nofun

/-- A name in the directory, whatever else has been put there. -/
theorem freeLocation_validTree (hg : Grown validTree t) {name : String}
    (hp : (Path.mk "s1").join ⟨name⟩ = p) (hname : IsNodeName name)
    (hshort : name.utf8ByteSize ≤ nameLimit) (hr : refused? p = none)
    (hn : t.node? ["s1", name] = none) : t.freeLocation p = .ok ["s1", name] := by
  subst hp
  exact freeLocation_eq_ok.mpr ⟨locateWith_join_nothing (hg.locate locate_validTree)
    (hg.isDirectoryAt rfl) hname.isName ⟨hname.not_here, hname.not_up, hshort⟩ hr hn
    ⟨false, true⟩, hn⟩

theorem freeLocation_data : validTree.freeLocation ⟨"s1/tas.nc"⟩ = .ok ["s1", "tas.nc"] :=
  freeLocation_validTree (.refl _) (by decide) (by decide) (by decide) (by decide) (by decide)

theorem freeLocation_header : (validTree.put ["s1", "tas.nc"] (.file "values".toUTF8)).freeLocation
    (Dataset.sidecar ⟨"s1/tas.nc"⟩) = .ok ["s1", "tas.nc.header.json"] :=
  freeLocation_validTree (.put (freeLocation_eq_ok.mp freeLocation_data).2 _) (by decide)
    (by decide) (by decide) (by decide) (by decide)

theorem on_copyFile_validTree :
    (copyFile ⟨"tas.nc"⟩ ⟨"s1/tas.nc"⟩).on validTree = (.ok (), placedTree) := by
  have hdirectory : IsPathName "s1" := by decide
  have hsource : IsPathName "tas.nc" := by decide
  have hheader : IsPathName "tas.nc.header.json" := by decide
  have hmade : (createDirectories ⟨"s1"⟩).on validTree = (.ok (), validTree) := by
    refine on_createDirectories_of_taken (by decide) ?_ ?_
    · have htaken : validTree.freeLocation ⟨"s1"⟩ = .error .alreadyExists := by
        rw [freeLocation, hdirectory.locateWith rfl]
        rfl
      rw [makeDirectory, show withoutSlashes ⟨"s1"⟩ = ⟨"s1"⟩ by decide, htaken]
      rfl
    · rw [isDirectory, lookup_eq_ok.mpr ⟨_, locate_validTree, rfl⟩]
  have hread : validTree.read ⟨"tas.nc"⟩ = .ok "values".toUTF8 := hsource.read rfl rfl
  have hdata : (copyNew ⟨"tas.nc"⟩ ⟨"s1/tas.nc"⟩).on validTree =
      (.ok (), validTree.put ["s1", "tas.nc"] (.file "values".toUTF8)) := by
    rw [on_copyNew_of_free (read_eq_ok.mp hread) (by decide) freeLocation_data, hread]
  have hfound : (validTree.put ["s1", "tas.nc"] (.file "values".toUTF8)).read
      (Dataset.sidecar ⟨"tas.nc"⟩) = .ok (headerContent validAttributes) := hheader.read rfl rfl
  have hparent : (Path.mk "s1/tas.nc").parent? = some ⟨"s1"⟩ := by decide
  rw [on_copyFile_of_made hparent hmade, on_copyBoth, hdata]
  simp only
  rw [if_pos (isFile_iff.mpr ⟨_, hfound⟩),
    on_copyNew_of_free (read_eq_ok.mp hfound) (by decide) freeLocation_header, hfound]
  rfl

theorem on_place_validTree : ∃ v,
    validContext.validateFile validTree ⟨"tas.nc"⟩ = .done (.ok v) ∧ v.path = ⟨"tas.nc"⟩ ∧
      (v.place FileValidation.sampleVocabularies ⟨""⟩ copyFile).on validTree =
        (.ok ⟨"s1/tas.nc"⟩, placedTree) := by
  obtain ⟨v, hv, hpath, htarget⟩ := validateFile_validTree
  refine ⟨v, hv, hpath, ?_⟩
  rw [FileValidation.on_place, htarget, hpath]
  simp only
  rw [on_copyFile_validTree]
  rfl

/-! ### A header that was left where a copy is put -/

/-- A file that describes itself, and the header of a file that is not there. -/
def staleTree : FileTree where
  nodes := Dict.ofList [(["co2.nc"], .file (headerContent [("variable_id", "co2")])),
    (["out.nc.header.json"], .file (headerContent [("variable_id", "ch4")]))]
  workingDirectory := []

theorem ofBytes?_staleHeader (name : String) :
    Dataset.ofBytes? (headerContent [("variable_id", name)]) =
      some (describedDataset [("variable_id", name)]) := by
  rw [Dataset.ofBytes?, headerContent, Json.Tree.ofBytes?_pretty rfl]
  rfl

theorem on_copyFile_staleTree : (copyFile ⟨"co2.nc"⟩ ⟨"out.nc"⟩).on staleTree =
    (.ok (), staleTree.put ["out.nc"] (.file (headerContent [("variable_id", "co2")]))) := by
  have hsource : IsPathName "co2.nc" := by decide
  have htarget : IsPathName "out.nc" := by decide
  have hheader : IsPathName "co2.nc.header.json" := by decide
  have hread : staleTree.read ⟨"co2.nc"⟩ = .ok (headerContent [("variable_id", "co2")]) :=
    hsource.read rfl rfl
  have hnone : (staleTree.put ["out.nc"] (.file (headerContent [("variable_id", "co2")]))).isFile
      (Dataset.sidecar ⟨"co2.nc"⟩) = false := hheader.isFile_eq_false rfl rfl
  have hfree : staleTree.freeLocation ⟨"out.nc"⟩ = .ok ["out.nc"] :=
    freeLocation_eq_ok.mpr ⟨htarget.locateWith rfl, by decide⟩
  have hparent : (Path.mk "out.nc").parent? = some ⟨""⟩ := by decide
  rw [on_copyFile_of_made hparent rfl, on_copyBoth,
    on_copyNew_of_free (read_eq_ok.mp hread) (by decide) hfree, hread]
  simp only
  rw [if_neg (Bool.eq_false_iff.mp hnone)]

/-- The copy of one file is described by the header that was left there; the other one is placed,
and described as it was when it was validated. -/
theorem describes_copies_and_placed_files_sample :
    (∃ d d' t', loadHeader staleTree ⟨"co2.nc"⟩ = .ok d ∧
      (copyFile ⟨"co2.nc"⟩ ⟨"out.nc"⟩).on staleTree = (.ok (), t') ∧
      loadHeader t' ⟨"out.nc"⟩ = .ok d' ∧ d ≠ d') ∧
    ∃ v d, validContext.validateFile validTree ⟨"tas.nc"⟩ = .done (.ok v) ∧
      (v.place FileValidation.sampleVocabularies ⟨""⟩ copyFile).on validTree =
        (.ok ⟨"s1/tas.nc"⟩, placedTree) ∧
      loadHeader validTree ⟨"tas.nc"⟩ = .ok d ∧ loadHeader placedTree ⟨"s1/tas.nc"⟩ = .ok d := by
  constructor
  · have hsource : IsPathName "co2.nc" := by decide
    have hheader : IsPathName "co2.nc.header.json" := by decide
    have hstale : IsPathName "out.nc.header.json" := by decide
    have hload : loadHeader staleTree ⟨"co2.nc"⟩ =
        .ok (describedDataset [("variable_id", "co2")]) := by
      have hnone : staleTree.isFile (Dataset.sidecar ⟨"co2.nc"⟩) = false :=
        hheader.isFile_eq_false rfl rfl
      rw [loadHeader_of_no_sidecar hnone (hsource.read rfl rfl)]
      exact describedBy_eq_ok.mpr (ofBytes?_staleHeader _)
    have hleft : staleTree.read (Dataset.sidecar ⟨"out.nc"⟩) =
        .ok (headerContent [("variable_id", "ch4")]) := hstale.read rfl rfl
    have hgrown := grown_copyFile ⟨"co2.nc"⟩ ⟨"out.nc"⟩ staleTree
    rw [on_copyFile_staleTree] at hgrown
    have hdescribes := describes_copies_and_placed_files.1 _ _ _ hload on_copyFile_staleTree
    have hother := hdescribes.stale _ (.of_read hgrown hleft)
    rw [describedBy_eq_ok.mpr (ofBytes?_staleHeader _)] at hother
    refine ⟨_, _, _, hload, on_copyFile_staleTree, hother, ?_⟩
    intro he
    have hvalue := congrArg (fun d : Dataset => d.textAttributes.get? "variable_id") he
    exact absurd hvalue (by decide)
  · obtain ⟨v, hv, hpath, hplace⟩ := on_place_validTree
    obtain ⟨d, hload, -, hdescribes⟩ :=
      describes_copies_and_placed_files.2 validContext _ v _ _ _ rfl hv hplace
    refine ⟨v, d, hv, hplace, hload, hdescribes.same ?_ ?_⟩
    · rintro content ⟨k, hk, hn⟩
      obtain rfl := Except.ok.inj
        ((locateWith_put_new freeLocation_header _ true false).symm.trans hk)
      have hnothing : validTree.node? ["s1", "tas.nc.header.json"] = none := by decide
      cases hnothing.symm.trans hn
    · intro hnone
      have hheader : IsPathName "tas.nc.header.json" := by decide
      have hread : validTree.read (Dataset.sidecar ⟨"tas.nc"⟩) =
          .ok (headerContent validAttributes) := hheader.read rfl rfl
      rw [isFile_iff.mpr ⟨_, hread⟩] at hnone
      cases hnone

/-! ### Placing files one after the other -/

/-- A validated file, with what it is placed by. -/
structure PlacingCall where
  validation : FileValidation
  cv : Vocabularies
  root : Path

/-- Places a copy of the file. -/
def PlacingCall.on (c : PlacingCall) (t : FileTree) : Except PlacingError Path × FileTree :=
  (c.validation.place c.cv c.root copyFile).on t

/-- The tree after some calls, whatever comes of each. -/
def treeAfter (calls : List PlacingCall) (t : FileTree) : FileTree :=
  calls.foldl (fun t c => (c.on t).2) t

theorem grown_treeAfter (calls : List PlacingCall) (t : FileTree) :
    Grown t (treeAfter calls t) := by
  induction calls generalizing t with
  | nil => exact .refl t
  | cons c calls ih => exact (c.validation.grown_place c.cv c.root t).trans (ih _)

theorem DrsCheck.validate_of_endsWith {drs : Drs} {path : Path} {m : Metadata} {check : DrsCheck}
    {spec : Drs.PathSpec} (hspec : drs.buildPath m.attributes = .ok spec)
    (h : path.endsWith (check.expected spec) = true) :
    (check.validate drs path m).status = .pass := by
  rw [validate]
  simp only [hspec, h]
  rfl

/-- In a row of calls every file that was there before one of them is the same after it, and after
all that follow. What is placed passed, and is placed where the check looks for it, unless the path
that is prescribed starts with a dot. -/
theorem placed_where_checked (t : FileTree) (before after : List PlacingCall)
    (call : PlacingCall) :
    (∀ k content, (treeAfter before t).node? k = some (.file content) →
      (treeAfter (before ++ call :: after) t).node? k = some (.file content)) ∧
    (∀ p content, (treeAfter before t).read p = .ok content →
      (treeAfter (before ++ call :: after) t).read p = .ok content) ∧
    ∀ target, (call.on (treeAfter before t)).1 = .ok target →
      call.validation.findings.hasFailures = false ∧
      ∃ m spec content, Metadata.ofFile? call.validation.attributes call.cv = .ok m ∧
        call.cv.drs.buildPath m.attributes = .ok spec ∧ target = call.root.join spec.path ∧
        (spec.path.parts.head? ≠ some .here →
          (DrsCheck.fullPath.validate call.cv.drs target m).status = .pass) ∧
        (treeAfter (before ++ call :: after) t).read call.validation.path = .ok content ∧
        (treeAfter (before ++ call :: after) t).read target = .ok content := by
  -- calls only add to the tree, so that what this one has placed stays
  have hlater : treeAfter (before ++ call :: after) t =
      treeAfter after (call.on (treeAfter before t)).2 := by
    rw [treeAfter, List.foldl_append, List.foldl_cons]
    rfl
  rw [hlater]
  generalize treeAfter before t = t₁
  have hafter := grown_treeAfter after (call.on t₁).2
  have hgrown := (call.validation.grown_place call.cv call.root t₁).trans hafter
  refine ⟨fun k content => hgrown.node k _, fun p content => hgrown.read, fun target h => ?_⟩
  obtain ⟨htarget, hcopy⟩ := FileValidation.place_eq_ok (Prod.ext h rfl :
    call.on t₁ = (.ok target, (call.on t₁).2))
  obtain ⟨hpassed, m, spec, hm, hspec, rfl⟩ := FileValidation.target?_eq_ok.mp htarget
  obtain ⟨content, hsource, hread⟩ := read_of_copyFile hcopy
  exact ⟨hpassed, m, spec, content, hm, hspec, rfl,
    fun hhere => DrsCheck.validate_of_endsWith hspec (Path.endsWith_join call.root hhere),
    hafter.read hsource, hafter.read hread⟩

theorem placed_where_checked_sample : ∃ call m content,
    (call.on validTree).1 = .ok ⟨"s1/tas.nc"⟩ ∧
      Metadata.ofFile? call.validation.attributes call.cv = .ok m ∧
      (DrsCheck.fullPath.validate call.cv.drs ⟨"s1/tas.nc"⟩ m).status = .pass ∧
      (treeAfter [call, call] validTree).read ⟨"tas.nc"⟩ = .ok content ∧
      (treeAfter [call, call] validTree).read ⟨"s1/tas.nc"⟩ = .ok content := by
  obtain ⟨v, hv, hpath, hplace⟩ := on_place_validTree
  let call : PlacingCall := ⟨v, FileValidation.sampleVocabularies, ⟨""⟩⟩
  have hcall : (call.on (treeAfter [] validTree)).1 = .ok ⟨"s1/tas.nc"⟩ := congrArg Prod.fst hplace
  obtain ⟨-, m, spec, content, hm, -, htarget, hcheck, hsource, hread⟩ :=
    (placed_where_checked validTree [] [call] call).2.2 _ hcall
  have hspec : spec.path = ⟨"s1/tas.nc"⟩ := by
    have hjoin : (Path.mk "").join spec.path = spec.path := by
      unfold Path.join
      split <;> simp
    exact hjoin.symm.trans htarget.symm
  refine ⟨call, m, content, hcall, hm, hcheck ?_, ?_, hread⟩
  · rw [hspec]
    decide
  · rw [← hpath]
    exact hsource

end ForcingData
