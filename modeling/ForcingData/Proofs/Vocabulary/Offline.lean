import ForcingData.Proofs.Vocabulary.Loading

/-! # Loading without a network

While every download of it fails, a remote source is read from its cache, whether new copies are
asked for or not, as a local one is read from its directory. Whichever file gets on next, a source
that lacks one which has to be there fails with the first of these that gets on
(`Holds.on_load_of_absent`), and any other gives what its files say (`Holds.on_load`). The name of
the source shows in the outcome and does not change it (`ofFiles?_withSource`), so the same files
come to the same, wherever they are (`offline_loads_agree`). -/

namespace ForcingData.Vocabularies
open Disk Json

/-! ### The text of the source -/

/-- The same error for a source of another name. -/
def SourceError.withSource (source : String) : SourceError → SourceError
  | .noSource => .noSource
  | .invalidSource reference => .invalidSource reference
  | .sourceUnavailable _ file reason => .sourceUnavailable source file reason
  | .malformed _ file error => .malformed source file error
  | .drsTemplate _ error => .drsTemplate source error

/-- The same vocabularies under another name. -/
def withSource (source : String) (cv : Vocabularies) : Vocabularies :=
  { cv with version := { cv.version with source } }

section
variable {α β γ : Type} (source source' : String) {files : RawFiles} {file : String}

/-- What changes errors alone changes those of the first step and those of the second. -/
theorem mapError_bind {rename : SourceError → SourceError} {x : Except SourceError α}
    {f : α → Except SourceError β} {f' : α → Except SourceError γ}
    (change : Except SourceError β → Except SourceError γ)
    (hchange : ∀ e, change (.error e) = .error (rename e)) (h : ∀ a, f' a = change (f a)) :
    (x.mapError rename >>= f') = change (x >>= f) := by
  cases x with
  | error e => exact (hchange e).symm
  | ok a => exact h a

theorem parseFile_withSource (content : ByteArray) (shape? : Tree → Option α) :
    parseFile source' file content shape? =
      (parseFile source file content shape?).mapError (.withSource source') := by
  unfold parseFile
  split <;> rfl

theorem requireFile_withSource (shape? : Tree → Option α) :
    requireFile source' files file shape? =
      (requireFile source files file shape?).mapError (.withSource source') := by
  unfold requireFile
  split
  · exact parseFile_withSource source source' _ _
  · rfl

theorem simpleSets_withSource (cs : List Category) : simpleSets source' files cs =
    (simpleSets source files cs).mapError (.withSource source') := by
  induction cs with
  | nil => rfl
  | cons c cs ih =>
    rw [simpleSets, simpleSets]
    split
    · exact ih
    · rw [parseFile_withSource source source', ih]
      exact mapError_bind (.mapError _) (fun _ => rfl) fun names =>
        mapError_bind (.mapError _) (fun _ => rfl) fun sets => rfl

theorem ofFiles?_withSource : ofFiles? source' files =
    ((ofFiles? source files).map (withSource source')).mapError (.withSource source') := by
  have hstep {α : Type} {x : Except SourceError α} {f f' : α → Except SourceError Vocabularies}
      (h : ∀ a, f' a = ((f a).map (withSource source')).mapError (.withSource source')) :
      (x.mapError (.withSource source') >>= f') =
        ((x >>= f).map (withSource source')).mapError (.withSource source') :=
    mapError_bind (fun r => (r.map (withSource source')).mapError _) (fun _ => rfl) h
  simp only [ofFiles?, requireFile_withSource source source',
    simpleSets_withSource source source']
  refine hstep fun activities => hstep fun institutions => hstep fun licenses =>
    hstep fun sources => hstep fun record => ?_
  split
  · exact hstep fun simple => rfl
  · rfl

end

/-! ### Files that are not there -/

/-- Whether the file has to be there and is not. -/
def isAbsent (files : RawFiles) (f : String × Bool) : Bool := f.2 && (files.get? f.1).isNone

section
variable {network : Network} {cache : Path} {force : Bool} {source : CvSource} {t : FileTree}
  {files : RawFiles} {file : String} {f : String × Bool}

theorem isAbsent_iff : isAbsent files f = true ↔ f.2 = true ∧ files.get? f.1 = none := by
  rw [isAbsent, Bool.and_eq_true, Option.isNone_iff_eq_none]

theorem mem_requiredFiles : file ∈ requiredFiles ↔ (file, true) ∈ allFiles := by
  simp [allFiles]

section
variable (h : Holds t (place cache source) files) (hoffline : IsOffline network source)
include h hoffline

theorem Holds.failsIf_readFile (hfile : f.1 ∈ requiredFiles ++ optionalFiles) :
    (readFile source network cache force f.1 f.2).FailsIf t (isAbsent files f)
      fun e => ∃ reason, e = unavailable source f.1 reason := by
  obtain ⟨file, required⟩ := f
  cases habsent : isAbsent files (file, required) with
  | true =>
    obtain ⟨rfl, hnone⟩ := isAbsent_iff.mp habsent
    obtain ⟨reason, hon⟩ : ∃ reason, (readFile source network cache force file true).advance.on t =
        (.error (unavailable source file reason), t) :=
      h.exists_on_advance_readFile hoffline hfile hnone
    exact ⟨_, ⟨reason, rfl⟩, hon⟩
  | false =>
    have hthere : required = true → (files.get? file).isSome = true := by
      rintro rfl
      simpa [isAbsent, Option.isSome_iff_ne_none] using habsent
    exact (h.keeps_readFile hoffline hfile hthere).mono fun _ hr => ⟨_, hr⟩

/-- Of the files that are absent and have to be there, the first that gets on is told. -/
theorem Holds.on_load_of_absent
    (habsent : (network.turns.filterMap (allFiles[·]?) ++ allFiles).find? (isAbsent files) =
      some f) :
    ∃ reason, (load source network cache force).on t =
      (.error (unavailable source f.1 reason), t) := by
  have hfails : List.Forall₂ (fun f w => Work.FailsIf t (isAbsent files f)
      (fun e => ∃ reason, e = unavailable source f.1 reason) w) allFiles
      (allFiles.map fun f => readFile source network cache force f.1 f.2) := by
    rw [List.forall₂_map_right_iff, List.forall₂_same]
    exact fun f hf => h.failsIf_readFile hoffline (mem_names_of_mem_allFiles hf)
  obtain ⟨_, ⟨reason, rfl⟩, hon⟩ := Work.on_together_of_find? network.turns hfails habsent
  exact ⟨reason, by rw [load, on_bind, readFiles, on_bind, hon]⟩

theorem Holds.on_load (hcomplete : IsComplete files allFiles) :
    (load source network cache force).on t = (ofFiles? source.text (among allFiles files), t) := by
  have hon : (readFiles source network cache force allFiles).on t =
      (.ok (among allFiles files), t) :=
    h.on_readFiles hoffline (fun _ => mem_names_of_mem_allFiles) hcomplete
  rw [load, on_bind, hon]
  simp only
  rw [on_ask]

end

/-- The same files in a local directory and in the cache of a root of which nothing can be
downloaded: if none is absent that has to be there, all ways of loading give what the files say,
under the name of the source; else all of them, taking the same turns, fail with the same absent
file. -/
theorem offline_loads_agree {t' : FileTree} {directory : Path} {root : Url}
    (hlocal : Holds t directory files)
    (hcached : Holds t' (CvSource.cacheDirectory cache root) files)
    (hdown : ∀ file, ∃ reason, network root file = .error reason) (force : Bool) :
    ((∀ file ∈ requiredFiles, (files.get? file).isSome = true) →
      (load (.directory directory) network cache force).on t =
          (ofFiles? directory.text (among allFiles files), t) ∧
        (load (.remote root) network cache false).on t' =
          (ofFiles? root.text (among allFiles files), t') ∧
        (load (.remote root) network cache true).on t' =
          (ofFiles? root.text (among allFiles files), t') ∧
        ofFiles? root.text (among allFiles files) =
          ((ofFiles? directory.text (among allFiles files)).map (withSource root.text)).mapError
            (.withSource root.text)) ∧
    ((∃ file ∈ requiredFiles, files.get? file = none) →
      ∃ file ∈ requiredFiles, files.get? file = none ∧
        (∃ reason, (load (.directory directory) network cache force).on t =
          (.error (.sourceUnavailable directory.text file reason), t)) ∧
        (∃ reason, (load (.remote root) network cache false).on t' =
          (.error (.sourceUnavailable root.text file reason), t')) ∧
        ∃ reason, (load (.remote root) network cache true).on t' =
          (.error (.sourceUnavailable root.text file reason), t')) := by
  have hhere : Holds t (place cache (.directory directory)) files := hlocal
  have hthere : Holds t' (place cache (.remote root)) files := hcached
  have hoffline : IsOffline network (.remote root) := hdown
  constructor
  · intro hall
    have hcomplete : IsComplete files allFiles := by
      rintro ⟨file, required⟩ hfile rfl
      exact hall file (mem_requiredFiles.mpr hfile)
    exact ⟨hhere.on_load trivial hcomplete, hthere.on_load hoffline hcomplete,
      hthere.on_load hoffline hcomplete, ofFiles?_withSource _ _⟩
  · rintro ⟨absent, hrequired, hnone⟩
    have hmem : (absent, true) ∈ network.turns.filterMap (allFiles[·]?) ++ allFiles :=
      List.mem_append_right _ (mem_requiredFiles.mp hrequired)
    -- the first that gets on is the same for all three, since each looks for it in one step
    obtain ⟨⟨file, required⟩, hfirst⟩ : ∃ f, (network.turns.filterMap (allFiles[·]?) ++
        allFiles).find? (isAbsent files) = some f := by
      refine Option.isSome_iff_exists.mp (List.find?_isSome.mpr ⟨_, hmem, ?_⟩)
      exact isAbsent_iff.mpr ⟨rfl, hnone⟩
    obtain ⟨rfl, hfile⟩ := isAbsent_iff.mp (List.find?_some hfirst)
    have hamong : (file, true) ∈ allFiles := by
      rcases List.mem_append.mp (List.mem_of_find?_eq_some hfirst) with hturn | hrest
      · obtain ⟨_, -, hget⟩ := List.mem_filterMap.mp hturn
        exact List.mem_of_getElem? hget
      · exact hrest
    exact ⟨file, mem_requiredFiles.mpr hamong, hfile,
      hhere.on_load_of_absent trivial hfirst, hthere.on_load_of_absent hoffline hfirst,
      hthere.on_load_of_absent hoffline hfirst⟩

end

/-! ### The same files in two places -/

def twiceRoot : Url where
  scheme := "http"
  authority := some ⟨"", some (.domain "cvs"), none⟩
  route := .segments [""]
  query := none
  fragment := none

def twiceLocation : Location := ["cache", "http%3A%2F%2Fcvs%2F"]

/-- The files in the directory `cvs` and in the cache of `http://cvs/`. -/
def twice (files : RawFiles) : FileTree where
  nodes := Dict.ofList ([(["cache"], .directory), (twiceLocation, .directory),
    (["cvs"], .directory)] ++ files.toList.flatMap fun (file, content) =>
      [(twiceLocation ++ [file], .file content), (["cvs"] ++ [file], .file content)])
  workingDirectory := []

/-- What has to be looked up to know that the files are in both places. -/
def IsTwice (files : RawFiles) : Prop :=
  (∀ l ∈ [["cache"], twiceLocation, ["cvs"]], (twice files).node? l = some .directory) ∧
    ∀ file ∈ requiredFiles ++ optionalFiles, ∀ l ∈ [twiceLocation, ["cvs"]],
      (twice files).node? (l ++ [file]) = (files.get? file).map .file

instance (files : RawFiles) : Decidable (IsTwice files) := inferInstanceAs (Decidable (_ ∧ _))

section
variable {files : RawFiles} (h : IsTwice files)
include h

theorem IsTwice.isDirectoryAt {l : Location} (hl : l ∈ [["cache"], twiceLocation, ["cvs"]]) :
    (twice files).isDirectoryAt l = true := by
  rw [FileTree.isDirectoryAt, h.1 l hl]
  rfl

theorem IsTwice.holds_local : Holds (twice files) ⟨"cvs"⟩ files := by
  have hname : FileTree.IsPathName "cvs" := by decide
  have hlocate : (twice files).locate ⟨"cvs"⟩ = .ok ["cvs"] :=
    hname.locate rfl (h.1 ["cvs"] (by decide)) nofun
  exact holds_of_nodes hlocate (h.isDirectoryAt (by decide)) (by decide +kernel)
    fun file hfile => h.2 file hfile ["cvs"] (by decide)

theorem IsTwice.holds_cache :
    Holds (twice files) (CvSource.cacheDirectory ⟨"cache"⟩ twiceRoot) files := by
  have hname : FileTree.IsPathName "cache" := by decide
  have hurl : FileTree.IsPathName "http%3A%2F%2Fcvs%2F" := by decide
  have hjoin : CvSource.cacheDirectory ⟨"cache"⟩ twiceRoot =
      Path.join ⟨"cache"⟩ ⟨"http%3A%2F%2Fcvs%2F"⟩ := by decide
  rw [hjoin]
  have hcache : (twice files).locate ⟨"cache"⟩ = .ok ["cache"] :=
    hname.locate rfl (h.1 ["cache"] (by decide)) nofun
  have hlocate : (twice files).locate (Path.join ⟨"cache"⟩ ⟨"http%3A%2F%2Fcvs%2F"⟩) =
      .ok twiceLocation :=
    FileTree.locateWith_join_node hcache (h.isDirectoryAt (by decide)) hurl.isName hurl.isStep
      (by decide) (h.1 twiceLocation (by decide)) nofun _
  exact holds_of_nodes hlocate (h.isDirectoryAt (by decide)) (by decide +kernel)
    fun file hfile => h.2 file hfile twiceLocation (by decide)

end

theorem exists_downloadError (root : Url) (file : String) :
    ∃ reason, offline root file = .error reason := ⟨_, rfl⟩

theorem offline_loads_agree_sample :
    (∃ cv, (load (.directory ⟨"cvs"⟩) offline ⟨"cache"⟩ false).on (twice sampleFiles) =
        (.ok cv, twice sampleFiles) ∧
      (load (.remote twiceRoot) offline ⟨"cache"⟩ true).on (twice sampleFiles) =
        (.ok (cv.withSource "http://cvs/"), twice sampleFiles)) ∧
    ∃ file ∈ requiredFiles, ∃ reason,
      (load (.remote twiceRoot) offline ⟨"cache"⟩ true).on (twice ∅) =
        (.error (.sourceUnavailable "http://cvs/" file reason), twice ∅) := by
  have hfull : IsTwice sampleFiles := by decide +kernel
  have hempty : IsTwice ∅ := by decide +kernel
  have htext : twiceRoot.text = "http://cvs/" := by decide
  constructor
  · obtain ⟨hlocal, _, hforced, hagree⟩ :=
      (offline_loads_agree hfull.holds_local hfull.holds_cache (exists_downloadError twiceRoot)
        false).1 fun _ => areAccepted_sampleFiles.isSome_get?
    obtain ⟨cv, hload⟩ :
        ∃ cv, (load (.directory ⟨"cvs"⟩) offline ⟨"cache"⟩ false).on (twice sampleFiles) =
          (.ok cv, twice sampleFiles) :=
      exists_on_load_of_holds hfull.holds_local areAccepted_sampleFiles
    rw [hload] at hlocal
    rw [hagree, ← (Prod.mk.inj hlocal).1, htext] at hforced
    exact ⟨cv, hload, hforced⟩
  · obtain ⟨file, hfile, -, -, -, reason, hon⟩ :=
      (offline_loads_agree hempty.holds_local hempty.holds_cache (exists_downloadError twiceRoot)
        false).2 ⟨drsFile, by decide, rfl⟩
    rw [htext] at hon
    exact ⟨file, hfile, reason, hon⟩

end ForcingData.Vocabularies
