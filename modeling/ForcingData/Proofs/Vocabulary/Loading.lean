import ForcingData.Proofs.FileTree.Growth
import ForcingData.Proofs.FileTree.Work
import ForcingData.Proofs.Vocabulary.Fingerprint

/-! # Loading

Loading vocabularies changes nothing but the cache: of a remote source, files that were downloaded
are kept there, each step by step and beside others, and where loading fails some are kept in part
(`keptFrom_load`). Loading from a directory changes nothing (`on_load_directory`), and succeeds
where the directory holds files that are accepted (`exists_on_load_of_holds`). -/

namespace ForcingData.Vocabularies
open Disk Json

variable {network : Network} {cache : Path} {force : Bool} {root : Url} {t t' : FileTree}
  {file : String} {required : Bool} {source : CvSource} {wanted : List (String × Bool)}

/-- What it takes to keep a file in the cache, if the server gives it. -/
def servedSteps (network : Network) (cache : Path) (root : Url) (file : String) :
    List (Disk OsError Unit) :=
  match network root file with
  | .ok (some content) => keepingSteps (CvSource.cacheDirectory cache root) file content
  | _ => []

/-- Nothing was done but that files of the server were kept, perhaps some of them in part. -/
def KeptFrom (network : Network) (cache : Path) (root : Url) (t t' : FileTree) : Prop :=
  Work.Interleaved ((requiredFiles ++ optionalFiles).map (servedSteps network cache root)) t t'

theorem follows_readRemote : Work.Follows (servedSteps network cache root file)
    (readRemote source network cache force root file required) := by
  have hlook (f : FileTree → Except SourceError (Option ByteArray)) :
      Work.Follows (servedSteps network cache root file) (Work.look f) :=
    .inl fun t => ⟨rfl, trivial⟩
  refine .inl fun t => ⟨rfl, ?_⟩
  show Work.Follows _ (ite _ _ _)
  split
  · exact hlook _
  split
  · rename_i content hcontent
    have hsteps : servedSteps network cache root file =
        keepingSteps (CvSource.cacheDirectory cache root) file content := by
      rw [servedSteps, hcontent]
    rw [hsteps]
    exact Work.follows_attempt (f := fun _ => .done (.ok (some content))) (fun _ => trivial) _
  · split <;> exact trivial
  · split
    · exact hlook _
    · split <;> exact trivial

theorem snd_on_load : ((load source network cache force).on t).2 = ((Work.together network.turns
    (allFiles.map fun f => readFile source network cache force f.1 f.2)).on t).2 := by
  rw [load, on_bind, readFiles, on_bind]
  rcases (Work.together _ _).on t with ⟨e | contents, t₁⟩
  · rfl
  · simp only [on_pure, on_ask]

theorem map_allFiles : allFiles.map (·.1) = requiredFiles ++ optionalFiles := by
  simp [allFiles, List.map_map, Function.comp_def]

theorem mem_names_of_mem_allFiles {f : String × Bool} (h : f ∈ allFiles) :
    f.1 ∈ requiredFiles ++ optionalFiles :=
  map_allFiles ▸ List.mem_map_of_mem h

/-- Loading from a server, also where it fails, does nothing but keep files of the server. -/
theorem keptFrom_load (t : FileTree) : KeptFrom network cache root t
    ((load (.remote root) network cache force).on t).2 := by
  rw [snd_on_load, KeptFrom, ← map_allFiles, List.map_map]
  refine Work.interleaved_together ?_ _ _
  rw [List.forall₂_map_left_iff, List.forall₂_map_right_iff, List.forall₂_same]
  exact fun _ _ => follows_readRemote

theorem on_load_directory (directory : Path) (t : FileTree) :
    ((load (.directory directory) network cache force).on t).2 = t := by
  have hkeeps : List.Forall₂ (fun _ (w : Work SourceError (Option ByteArray)) =>
      w.Keeps (· = t) fun _ => True) allFiles
      (allFiles.map fun f => readFile (.directory directory) network cache force f.1 f.2) := by
    rw [List.forall₂_map_right_iff, List.forall₂_same]
    rintro _ _ t rfl
    exact ⟨rfl, trivial⟩
  rw [snd_on_load]
  exact (Work.keeps_together hkeeps rfl rfl).1

/-! ### Downloads that are asked for -/

theorem on_advance_of_some {content : ByteArray} (h : network root file = .ok (some content)) :
    (readRemote source network cache true root file required).advance.on t =
      (.ok (keep (CvSource.cacheDirectory cache root) file content >>= fun _ =>
        pure (some content)), t) := by
  show (Work.step _ _ : Work SourceError (Option ByteArray)).advance.on t = _
  rw [Work.on_advance_step]
  simp only [Work.bind_done_ok, Bool.not_true, Bool.and_false, Bool.false_eq_true, if_false, h]
  rfl

theorem on_advance_of_none (h : network root file = .ok none) :
    (readRemote source network cache true root file true).advance.on t =
      (.error (unavailable source file "not found"), t) := by
  show (Work.step _ _ : Work SourceError (Option ByteArray)).advance.on t = _
  rw [Work.on_advance_step]
  simp only [Work.bind_done_ok, Bool.not_true, Bool.and_false, Bool.false_eq_true, if_false, h,
    if_true]
  rfl

/-! ### Keeping a file -/

open FileTree

/-- A name in a directory that nothing has. -/
structure IsFreeIn (t : FileTree) (directory : Path) (l : Location) (name : String) : Prop where
  isName : Path.IsName name
  isStep : IsStep name
  allowed : refused? (directory.join ⟨name⟩) = none
  nothing : t.node? (l ++ [name]) = none

section
variable {directory : Path} {l : Location} {name : String}

theorem IsFreeIn.locateWith (h : IsFreeIn t directory l name) (hl : t.locate directory = .ok l)
    (hd : t.isDirectoryAt l = true) (follow : Bool) :
    t.locateWith ⟨follow, true⟩ (directory.join ⟨name⟩) = .ok (l ++ [name]) :=
  locateWith_join_nothing hl hd h.isName h.isStep h.allowed h.nothing ⟨follow, true⟩

theorem IsFreeIn.slash (h : IsFreeIn t directory l name) :
    (directory.join ⟨name⟩).text.toList.getLast? ≠ some '/' := getLast?_join h.isName directory

theorem IsFreeIn.put (h : IsFreeIn t directory l name) {other : String} (hne : name ≠ other)
    (n : Node) : IsFreeIn (t.put (l ++ [other]) n) directory l name := by
  refine ⟨h.isName, h.isStep, h.allowed, ?_⟩
  rw [node?_put_of_ne (by simp) (by simpa using hne), h.nothing]

section
variable {content : ByteArray} (h : IsFreeIn t directory l name) (hl : t.locate directory = .ok l)
  (hd : t.isDirectoryAt l = true)
include h hl hd

theorem IsFreeIn.ensureFile :
    t.ensureFile (directory.join ⟨name⟩) = .ok (t.put (l ++ [name]) (.file .empty)) := by
  rw [FileTree.ensureFile, refuseSlash_eq_ok h.slash, h.locateWith hl hd]
  simp only [bind, Except.bind, h.nothing]

theorem IsFreeIn.write :
    t.write (directory.join ⟨name⟩) content = .ok (t.put (l ++ [name]) (.file content)) := by
  rw [FileTree.write, refuseSlash_eq_ok h.slash, h.locateWith hl hd]
  simp only [bind, Except.bind, h.nothing]

end
end

/-! ### A directory of files -/

section
variable {directory : Path} {files : RawFiles} {l : Location}

/-- Of the files that may be read, the directory holds these. -/
def Holds (t : FileTree) (directory : Path) (files : RawFiles) : Prop :=
  ∀ file ∈ requiredFiles ++ optionalFiles, t.read (directory.join ⟨file⟩) =
    match files.get? file with
    | some content => .ok content
    | none => .error .notFound

theorem holds_of_nodes (hl : t.locate directory = .ok l) (hd : t.isDirectoryAt l = true)
    (hallowed : ∀ file ∈ requiredFiles ++ optionalFiles,
      refused? (directory.join ⟨file⟩) = none)
    (hnodes : ∀ file ∈ requiredFiles ++ optionalFiles,
      t.node? (l ++ [file]) = (files.get? file).map .file) : Holds t directory files := by
  have hnames : ∀ file ∈ requiredFiles ++ optionalFiles, Path.IsName file ∧
      file ≠ "." ∧ file ≠ ".." ∧ file.utf8ByteSize ≤ nameLimit := by decide
  intro file hfile
  obtain ⟨hname, hhere, hup, hshort⟩ := hnames file hfile
  have hs : IsStep file := ⟨hhere, hup, hshort⟩
  have hnode := hnodes file hfile
  cases hget : files.get? file with
  | some content =>
    rw [hget] at hnode
    exact read_join hl hd hname hs (hallowed file hfile) hnode
  | none =>
    rw [hget] at hnode
    rw [FileTree.read, lookup, locate, locateWith_join_nothing hl hd hname hs (hallowed file hfile)
      hnode]
    rfl

theorem AreAccepted.isSome_get? {name : String} (h : AreAccepted name files)
    (hfile : file ∈ requiredFiles) : (files.get? file).isSome = true := by
  have hrequire {α : Type} {shape? : Tree → Option α}
      (h : ∃ a, requireFile name files file shape? = .ok a) : (files.get? file).isSome = true := by
    obtain ⟨a, ha⟩ := h
    obtain ⟨content, hget, -⟩ := requireFile_eq_ok.mp ha
    rw [hget]
    rfl
  simp only [requiredFiles, List.mem_cons, List.not_mem_nil, or_false] at hfile
  rcases hfile with rfl | rfl | rfl | rfl | rfl
  · exact hrequire h.activities
  · obtain ⟨record, hrecord, -⟩ := h.drs
    exact hrequire ⟨record, hrecord⟩
  · exact hrequire h.institutions
  · exact hrequire h.licenses
  · exact hrequire h.sources

end

/-! ### Files that no server gives -/

section
variable {files : RawFiles}

/-- Where the files of a source are that need no download. -/
def place (cache : Path) : CvSource → Path
  | .directory directory => directory
  | .remote root => CvSource.cacheDirectory cache root

/-- Every download of the source fails. -/
def IsOffline (network : Network) : CvSource → Prop
  | .directory _ => True
  | .remote root => ∀ file, ∃ reason, network root file = .error reason

/-- Of the files that are asked for, the ones that have to be there are. -/
def IsComplete (files : RawFiles) (wanted : List (String × Bool)) : Prop :=
  ∀ f ∈ wanted, f.2 = true → (files.get? f.1).isSome = true

/-- Those of the files that are asked for. -/
def among (wanted : List (String × Bool)) (files : RawFiles) : RawFiles :=
  files.filter fun file _ => file ∈ wanted.map (·.1)

theorem get?_among : (among wanted files).get? file =
    if file ∈ wanted.map (·.1) then files.get? file else none := by
  rw [among, Dict.get?_filter]
  by_cases hfile : file ∈ wanted.map (·.1)
  all_goals cases files.get? file <;> simp [hfile]

theorem Holds.isFile {directory : Path} (h : Holds t directory files)
    (hfile : file ∈ requiredFiles ++ optionalFiles) :
    t.isFile (directory.join ⟨file⟩) = (files.get? file).isSome := by
  rw [Bool.eq_iff_iff, isFile_iff, h file hfile]
  cases files.get? file <;> simp

theorem Holds.readLocal {directory : Path} (h : Holds t directory files)
    (hfile : file ∈ requiredFiles ++ optionalFiles) : readLocal source directory file required t =
      if required && (files.get? file).isNone then
        .error (unavailable source file OsError.notFound.message)
      else .ok (files.get? file) := by
  unfold Vocabularies.readLocal
  rw [h file hfile]
  cases files.get? file with
  | some content => simp
  | none => cases required <;> rfl

section
variable (h : Holds t (CvSource.cacheDirectory cache root) files)
  (hfile : file ∈ requiredFiles ++ optionalFiles) {reason : String}
  (hdown : network root file = .error reason)
include h hfile hdown

theorem Holds.keeps_readRemote (hthere : required = true → (files.get? file).isSome = true) :
    (readRemote source network cache force root file required).Keeps (· = t)
      (· = .ok (files.get? file)) := by
  have hread := h file hfile
  have hisFile := h.isFile hfile
  intro t' ht'
  obtain rfl : t = t' := ht'.symm
  refine ⟨rfl, ?_⟩
  cases hget : files.get? file with
  | some content =>
    rw [hget] at hread hisFile
    have hcached : (Work.look (readCached source
        ((CvSource.cacheDirectory cache root).join ⟨file⟩) file)).Keeps (· = t)
        (· = .ok (some content)) := by
      rintro _ rfl
      exact ⟨rfl, by simp [Work.Keeps, readCached, hread]⟩
    cases force <;> simpa [hisFile, hdown] using hcached
  | none =>
    cases required with
    | true => simp [hget] at hthere
    | false => simp [hisFile, hget, hdown, pure, Work.Keeps]

theorem Holds.on_advance_readRemote (hnone : files.get? file = none) :
    (readRemote source network cache force root file true).advance.on t =
      (.error (unavailable source file reason), t) := by
  have hisFile := h.isFile hfile
  rw [hnone] at hisFile
  show (Work.step _ _ : Work SourceError (Option ByteArray)).advance.on t = _
  rw [Work.on_advance_step]
  simp [hisFile, hdown, Work.fail]

end

section
variable (h : Holds t (place cache source) files) (hoffline : IsOffline network source)
  (hfile : file ∈ requiredFiles ++ optionalFiles)
include h hoffline hfile

theorem Holds.keeps_readFile (hthere : required = true → (files.get? file).isSome = true) :
    (readFile source network cache force file required).Keeps (· = t)
      (· = .ok (files.get? file)) := by
  cases source with
  | directory directory =>
    have hlocal : Holds t directory files := h
    rintro _ rfl
    refine ⟨rfl, (hlocal.readLocal hfile).trans (if_neg ?_)⟩
    cases required
    · simp
    · simpa [Option.isSome_iff_ne_none] using hthere rfl
  | remote root =>
    obtain ⟨reason, hdown⟩ := hoffline file
    exact Holds.keeps_readRemote h hfile hdown hthere

theorem Holds.exists_on_advance_readFile (hnone : files.get? file = none) : ∃ reason,
    (readFile source network cache force file true).advance.on t =
      (.error (unavailable source file reason), t) := by
  cases source with
  | directory directory =>
    have hlocal : Holds t directory files := h
    refine ⟨OsError.notFound.message, ?_⟩
    rw [readFile]
    show (Work.look _).advance.on t = _
    rw [Work.look, Work.on_advance_step, hlocal.readLocal hfile, hnone]
    rfl
  | remote root =>
    obtain ⟨reason, hdown⟩ := hoffline file
    exact ⟨reason, Holds.on_advance_readRemote h hfile hdown hnone⟩

end

theorem ofList_found (files : RawFiles) (wanted : List (String × Bool)) :
    Dict.ofList ((wanted.zip (wanted.map fun f => files.get? f.1)).filterMap
      fun (f, content) => content.map (f.1, ·)) = among wanted files := by
  have hmem : ∀ e, e ∈ (wanted.zip (wanted.map fun f => files.get? f.1)).filterMap
      (fun (f, content) => content.map (f.1, ·)) ↔
        e.1 ∈ wanted.map (·.1) ∧ files.get? e.1 = some e.2 := by
    rintro ⟨file, content⟩
    have hzip : (wanted.zip (wanted.map fun f => files.get? f.1)) =
        wanted.map fun f => (f, files.get? f.1) := by
      simpa using List.zip_map' (f := id) (g := fun f => files.get? f.1) (l := wanted)
    rw [hzip, List.filterMap_map, List.mem_filterMap]
    constructor
    · rintro ⟨f, hf, hcontent⟩
      obtain ⟨_, hget, he⟩ := Option.map_eq_some_iff.mp hcontent
      cases he
      exact ⟨List.mem_map_of_mem hf, hget⟩
    · rintro ⟨hfile, hget⟩
      obtain ⟨f, hf, rfl⟩ := List.mem_map.mp hfile
      exact ⟨f, hf, Option.map_eq_some_iff.mpr ⟨content, hget, rfl⟩⟩
  -- both have the wanted files that are there
  refine Dict.ext_get? fun file => ?_
  rw [Dict.get?_ofList_of_forall (f := files.get?) fun e he => ((hmem e).mp he).2, get?_among]
  by_cases hfile : file ∈ wanted.map (·.1)
  · rw [if_pos hfile]
    cases hget : files.get? file with
    | none => exact ite_self _
    | some content => exact if_pos (List.mem_map_of_mem ((hmem (file, content)).mpr ⟨hfile, hget⟩))
  · rw [if_neg hfile, if_neg fun h => ?_]
    obtain ⟨e, he, rfl⟩ := List.mem_map.mp h
    exact hfile ((hmem e).mp he).1

/-- Reading files, with all there that have to be, collects those there are. -/
theorem Holds.on_readFiles (h : Holds t (place cache source) files)
    (hoffline : IsOffline network source)
    (hwanted : ∀ f ∈ wanted, f.1 ∈ requiredFiles ++ optionalFiles)
    (hcomplete : IsComplete files wanted) :
    (readFiles source network cache force wanted).on t = (.ok (among wanted files), t) := by
  rcases hon : (Work.together network.turns
    (wanted.map fun f => readFile source network cache force f.1 f.2)).on t with ⟨r, t'⟩
  have hkeeps : List.Forall₂ (fun f w => w.Keeps (· = t) (· = .ok (files.get? f.1))) wanted
      (wanted.map fun f => readFile source network cache force f.1 f.2) := by
    rw [List.forall₂_map_right_iff, List.forall₂_same]
    exact fun f hf => h.keeps_readFile hoffline (hwanted f hf) (hcomplete f hf)
  obtain ⟨rfl, hok, herror⟩ := Work.keeps_together hkeeps rfl hon
  cases r with
  | error e =>
    obtain ⟨_, -, he⟩ := herror e rfl
    cases he
  | ok contents =>
    have hcontents : (wanted.map fun f => files.get? f.1) = contents := by
      have hall : List.Forall₂ (· = ·) (wanted.map fun f => files.get? f.1) contents :=
        List.forall₂_map_left_iff.mpr ((hok contents rfl).imp fun _ _ h => (Except.ok.inj h).symm)
      rwa [List.forall₂_eq_eq_eq] at hall
    subst hcontents
    rw [readFiles, on_bind, hon]
    simp only [on_pure]
    rw [ofList_found]

end

theorem exists_on_load_of_holds {directory : Path} {files : RawFiles} (h : Holds t directory files)
    (haccepted : AreAccepted directory.text files) :
    ∃ v, (load (.directory directory) network cache force).on t = (.ok v, t) := by
  have hcomplete : IsComplete files allFiles := by
    intro f hf hrequired
    obtain hf | hf := List.mem_append.mp hf
    · obtain ⟨file, hfile, rfl⟩ := List.mem_map.mp hf
      exact haccepted.isSome_get? hfile
    · obtain ⟨file, _, rfl⟩ := List.mem_map.mp hf
      cases hrequired
  have hplace : Holds t (place cache (.directory directory)) files := h
  have hon : (readFiles (.directory directory) network cache force allFiles).on t =
      (.ok (among allFiles files), t) :=
    hplace.on_readFiles trivial (fun _ => mem_names_of_mem_allFiles) hcomplete
  have hsame : ∀ file ∈ requiredFiles ++ optionalFiles,
      (among allFiles files).get? file = files.get? file :=
    fun file hfile => get?_among.trans (if_pos (map_allFiles ▸ hfile))
  obtain ⟨v, hv⟩ := exists_ofFiles?_iff.mpr (haccepted.mono
    (fun file hfile => hsame file (List.mem_append_left _ hfile))
    fun file hfile _ hcontent => (hsame file (List.mem_append_right _ hfile)).symm.trans hcontent)
  refine ⟨v, ?_⟩
  rw [load, on_bind, hon]
  simp only
  rw [on_ask, CvSource.text, hv]

end ForcingData.Vocabularies
