import ForcingData.Proofs.FileTree.Confined
import ForcingData.Proofs.Url.Percent
import ForcingData.Proofs.Vocabulary.Loading

/-! # One directory for every source

The vocabularies of a remote source are kept under the name that its URL is encoded to. Encoding
loses nothing, and what it gives is the name of one directory and no step to anywhere else, so every
source has its own directory in the cache, and loading it changes nothing in any other
(`cacheDirectory_separates`). -/

namespace ForcingData.Vocabularies
open FileTree Disk Url

variable {network : Network} {cache : Path} {force : Bool} {root : Url} {t t' t'' : FileTree}
  {l : Location} {file : String}

/-! ### Names of roots -/

theorem parts_join_nodeName (p : Path) {name : String} (h : IsNodeName name) :
    (p.join ⟨name⟩).parts = p.parts ++ [.name name] := by
  by_cases hp : p.text = ""
  · have hjoin : p.join ⟨name⟩ = ⟨name⟩ := by
      simp [Path.join, Path.not_isAbsolute_mk h.isName.2, hp]
    have hself : (Path.mk name).parts = [.name name] :=
      Path.parts_of_no_slash h.isName.2 (Path.Part.ofPiece_name h.isName h.not_here h.not_up)
    rw [hjoin, hself, Path.parts, hp]
    rfl
  · exact Path.parts_join hp h.isName h.not_here h.not_up

theorem isNodeName_encodeComponent {s : String} {c : Char} (hc : c ∈ s.toList)
    (hescaped : isUnreserved c = false) : IsNodeName (encodeComponent s) := by
  have hsign := sign_mem_encodeComponent hc hescaped
  have hne : ∀ name : String, '%' ∉ name.toList → encodeComponent s ≠ name := by
    rintro name hname rfl
    exact hname hsign
  refine ⟨⟨hne _ (by decide), fun hslash => ?_⟩, hne _ (by decide), hne _ (by decide)⟩
  rcases of_mem_encodeComponent hslash with h | h
  · revert h
    decide
  · cases h

theorem colon_mem_text (u : Url) : ':' ∈ u.text.toList := by
  simp only [Url.text, String.toList_append, List.mem_append]
  have hcolon : ':' ∈ (":" : String).toList := by decide
  tauto

theorem isNodeName_root (root : Url) : IsNodeName (encodeComponent root.text) :=
  isNodeName_encodeComponent (colon_mem_text root) (by decide)

theorem parts_cacheDirectory (cache : Path) (root : Url) :
    (CvSource.cacheDirectory cache root).parts =
      cache.parts ++ [.name (encodeComponent root.text)] :=
  parts_join_nodeName cache (isNodeName_root root)

theorem parts_cacheDirectory_inj {root' : Url} :
    (CvSource.cacheDirectory cache root).parts = (CvSource.cacheDirectory cache root').parts ↔
      root.text = root'.text := by
  rw [parts_cacheDirectory, parts_cacheDirectory, List.append_cancel_left_eq, List.cons.injEq,
    Path.Part.name.injEq, encodeComponent_inj]
  simp

/-! ### Files in the cache -/

theorem isNodeName_append {name ending : String} (h : IsNodeName name)
    (hslash : '/' ∉ ending.toList) (hlong : 2 ≤ ending.length) : IsNodeName (name ++ ending) := by
  have hlength : 2 < (name ++ ending).length := by
    have hne : name.length ≠ 0 := fun he => h.isName.1 (String.length_eq_zero_iff.mp he)
    rw [String.length_append]
    omega
  have hne : ∀ short : String, short.length ≤ 2 → name ++ ending ≠ short := by
    rintro short hshort rfl
    exact absurd hlength (Nat.not_lt.mpr hshort)
  refine ⟨⟨hne "" (by decide), ?_⟩, hne "." (by decide), hne ".." (by decide)⟩
  rw [String.toList_append, List.mem_append, not_or]
  exact ⟨h.isName.2, hslash⟩

theorem isNodeName_file (h : file ∈ requiredFiles ++ optionalFiles) :
    IsNodeName file ∧ IsNodeName (file ++ ".lock") ∧ IsNodeName (file ++ ".temp") := by
  have hall : ∀ file ∈ requiredFiles ++ optionalFiles, IsNodeName file := by decide
  have hfile := hall file h
  exact ⟨hfile, isNodeName_append hfile (by decide) (by decide),
    isNodeName_append hfile (by decide) (by decide)⟩

/-- What is left of keeping a file. What is moved is a file that was written. -/
inductive Pending (place : Location) (directory : Path) (file : String) (t : FileTree) :
    List (Disk OsError Unit) → Prop
  | nothing : Pending place directory file t []
  | writing (content : ByteArray) {n : Nat} (hn : n < 4) :
    Pending place directory file t ((keepingSteps directory file content).drop n)
  | moving (content : ByteArray) {written : ByteArray}
    (h : t.node? (place ++ [file ++ ".temp"]) = some (.file written)) :
    Pending place directory file t ((keepingSteps directory file content).drop 4)

theorem Pending.remaining {place : Location} {directory : Path} {steps : List (Disk OsError Unit)}
    (h : Pending place directory file t steps) (result : Except OsError Unit) :
    Pending place directory file t (Work.remaining result steps) := by
  cases result with
  | error e => exact .nothing
  | ok => exact h

/-- Where keeping a file changes something. -/
def touched (place : Location) (file : String) : List Location :=
  [place, place ++ [file ++ ".lock"], place ++ [file ++ ".temp"], place ++ [file]]

theorem Pending.of_sameBut {place : Location} {directory : Path} {other : String}
    {steps : List (Disk OsError Unit)} (h : Pending place directory file t steps)
    (hsame : SameBut (touched place other) t t')
    (hne : place ++ [file ++ ".temp"] ∉ touched place other) :
    Pending place directory file t' steps := by
  cases h with
  | nothing => exact .nothing
  | writing content hn => exact .writing content hn
  | moving content h => exact .moving content ((hsame _ hne).trans h)

theorem temporary_notMem_touched {place : Location} {other : String}
    (hfile : file ∈ requiredFiles ++ optionalFiles)
    (hother : other ∈ requiredFiles ++ optionalFiles) (hne : file ≠ other) :
    place ++ [file ++ ".temp"] ∉ touched place other := by
  have hall : ∀ file ∈ requiredFiles ++ optionalFiles,
      ∀ other ∈ requiredFiles ++ optionalFiles, file ++ ".temp" ≠ other := by decide
  have hlock : file ++ ".temp" ≠ other ++ ".lock" := by
    intro h
    have hlast := congrArg (fun s => s.toList.getLast?) h
    simp at hlast
  simp [touched, hall file hfile other hother, hlock, hne]

theorem forall₂_set_of_ne {α β : Type} {R R' : α → β → Prop} {as : List α} {bs : List β} {i : Nat}
    {a : α} {b : β} (hnodup : as.Nodup) (h : List.Forall₂ R as bs) (hi : as[i]? = some a)
    (hb : R' a b) (hother : ∀ a' b', a' ∈ as → a' ≠ a → R a' b' → R' a' b') :
    List.Forall₂ R' as (bs.set i b) := by
  induction h generalizing i with
  | nil => cases hi
  | @cons first _ rest _ hfirst hrest ih =>
    obtain ⟨hnot, hnodup⟩ := List.nodup_cons.mp hnodup
    cases i with
    | zero =>
      obtain rfl := Option.some.inj hi
      have hne : ∀ a' ∈ rest, a' ∈ first :: rest ∧ a' ≠ first := fun a' ha' =>
        ⟨List.mem_cons_of_mem _ ha', fun he => hnot (he ▸ ha')⟩
      exact .cons hb ((List.forall₂_and_left _ _).mpr ⟨hne, hrest⟩ |>.imp
        fun _ _ h => hother _ _ h.1.1 h.1.2 h.2)
    | succ i =>
      have hne : first ≠ a := fun he => hnot (he ▸ List.mem_of_getElem? hi)
      exact .cons (hother _ _ (List.mem_cons_self ..) hne hfirst)
        (ih hnodup hi fun a' b' ha' => hother a' b' (List.mem_cons_of_mem _ ha'))

/-- What a step of keeping a file leads to, from `t'`. -/
structure StepTo (place : Location) (directory : Path) (file : String) (t t' : FileTree)
    (steps : List (Disk OsError Unit)) (ended : Except OsError Unit × FileTree) : Prop where
  confined : Confined place t ended.2
  same : SameBut (touched place file) t' ended.2
  pending : Pending place directory file ended.2 (Work.remaining ended.1 steps)

theorem StepTo.change {place : Location} {directory : Path} {steps : List (Disk OsError Unit)}
    {f : FileTree → Except OsError FileTree} (h : Confined place t t')
    (hok : ∀ t₁, f t' = .ok t₁ → StepTo place directory file t t' steps (.ok (), t₁)) :
    StepTo place directory file t t' steps ((change f).on t') := by
  rw [on_change]
  cases hf : f t' with
  | error e => exact ⟨h, fun _ _ => rfl, .nothing⟩
  | ok t₁ => exact hok t₁ hf

section
variable {place : Location} (hplace : place = l ++ [encodeComponent root.text])
  (hfree : t.LinkFree place) (hl : t.locate cache = .ok l) (hd : t.isDirectoryAt l = true)
include hplace hfree hl hd

/-- A step of keeping a file changes nothing but the directory of its source, also if it fails. -/
theorem Pending.step (hfile : file ∈ requiredFiles ++ optionalFiles) (h : Confined place t t')
    {x : Disk OsError Unit} {steps : List (Disk OsError Unit)}
    (hp : Pending place (CvSource.cacheDirectory cache root) file t' (x :: steps)) :
    StepTo place (CvSource.cacheDirectory cache root) file t t' steps (x.on t') := by
  subst hplace
  obtain ⟨htarget, hlock, htemporary⟩ := isNodeName_file hfile
  have hname := isNodeName_root root
  generalize hlist : x :: steps = list at hp
  cases hp with
  | nothing => cases hlist
  | @writing content n hn =>
    -- making the directory, the lock, the empty temporary file, and its content
    obtain rfl | rfl | rfl | rfl : n = 0 ∨ n = 1 ∨ n = 2 ∨ n = 3 := by omega
    all_goals obtain ⟨rfl, rfl⟩ := List.cons.inj hlist
    · obtain ⟨hconfined, hsame⟩ := h.createDirectories hfree hl hd hname
      exact ⟨hconfined, hsame.mono (by simp [touched]),
        (Pending.writing content (n := 1) (by decide)).remaining _⟩
    · refine .change h fun t₁ ht => ?_
      obtain ⟨hconfined, hsame⟩ := h.ensureFile hfree hl hd hname hlock ht
      exact ⟨hconfined, hsame.mono (by simp [touched]), .writing content (n := 2) (by decide)⟩
    · refine .change h fun t₁ ht => ?_
      obtain ⟨hconfined, hsame, -⟩ := h.write hfree hl hd hname htemporary ht
      exact ⟨hconfined, hsame.mono (by simp [touched]), .writing content (n := 3) (by decide)⟩
    · refine .change h fun t₁ ht => ?_
      obtain ⟨hconfined, hsame, hwritten⟩ := h.write hfree hl hd hname htemporary ht
      exact ⟨hconfined, hsame.mono (by simp [touched]), .moving content hwritten⟩
  | moving content hn =>
    obtain ⟨rfl, rfl⟩ := List.cons.inj hlist
    refine .change h fun t₁ ht => ?_
    obtain ⟨hconfined, hsame⟩ := h.rename hfree hl hd hname htemporary htarget hn ht
    exact ⟨hconfined, hsame.mono (by simp [touched]), .nothing⟩

/-- Steps of other files may come between those of a file. -/
theorem confined_of_interleaved {lists : List (List (Disk OsError Unit))}
    (h : Work.Interleaved lists t' t'') (hconfined : Confined place t t')
    (hpending : List.Forall₂ (Pending place (CvSource.cacheDirectory cache root) · t')
      (requiredFiles ++ optionalFiles) lists) : Confined place t t'' := by
  induction h with
  | refl => exact hconfined
  | @step lists t₁ t₂ i x steps hi _ ih =>
    obtain ⟨file, hfile, hp⟩ := Work.exists_of_forall₂ hpending hi
    have hstep := hp.step hplace hfree hl hd (List.mem_of_getElem? hfile) hconfined
    refine ih hstep.confined (forall₂_set_of_ne (by decide) hpending hfile hstep.pending ?_)
    intro other steps' hother hne hp'
    exact hp'.of_sameBut hstep.same
      (temporary_notMem_touched hother (List.mem_of_getElem? hfile) hne)

theorem confined_load :
    Confined place t ((load (.remote root) network cache force).on t).2 := by
  refine confined_of_interleaved hplace hfree hl hd (keptFrom_load t) (.refl hfree) ?_
  rw [List.forall₂_map_right_iff, List.forall₂_same]
  intro file _
  rw [servedSteps]
  split
  · exact .writing _ (n := 0) (by decide)
  · exact .nothing

end

/-- Two roots have the same directory in a cache only if they are the same URL; the directory is
one name below the cache, and loading changes nothing that is not in it. -/
theorem cacheDirectory_separates (cache : Path) (root root' : Url) :
    (CvSource.cacheDirectory cache root = CvSource.cacheDirectory cache root' ↔
      root.text = root'.text) ∧
    ((CvSource.cacheDirectory cache root).parts = (CvSource.cacheDirectory cache root').parts ↔
      root.text = root'.text) ∧
    IsNodeName (encodeComponent root.text) ∧
    (CvSource.cacheDirectory cache root).parts =
      cache.parts ++ [Path.Part.name (encodeComponent root.text)] ∧
    (∀ file ∈ requiredFiles ++ optionalFiles,
      ((CvSource.cacheDirectory cache root).join ⟨file⟩).parts =
        cache.parts ++ [Path.Part.name (encodeComponent root.text), Path.Part.name file]) ∧
    ∀ (network : Network) (force : Bool) (t : FileTree) (l : Location),
      t.locate cache = .ok l → t.isDirectoryAt l = true →
      t.LinkFree (l ++ [encodeComponent root.text]) →
      ∀ k, ¬l ++ [encodeComponent root.text] <+: k →
        ((load (.remote root) network cache force).on t).2.node? k = t.node? k := by
  have hparts := parts_cacheDirectory cache root
  refine ⟨⟨fun he => ?_, fun he => ?_⟩, parts_cacheDirectory_inj, isNodeName_root root, hparts,
    fun file hfile => ?_, fun network force t l hl hd hfree k hk => ?_⟩
  · exact parts_cacheDirectory_inj.mp (congrArg Path.parts he)
  · rw [CvSource.cacheDirectory, CvSource.cacheDirectory, he]
  · rw [parts_join_nodeName _ (isNodeName_file hfile).1, hparts, List.append_assoc]
    rfl
  · exact (confined_load rfl hfree hl hd).outside k hk

/-- The URL `http://cvs/a/`. -/
def slashRoot : Url where
  scheme := "http"
  authority := some ⟨"", some (.domain "cvs"), none⟩
  route := .segments ["a", ""]
  query := none
  fragment := none

/-- The URL `http://cvs/a%2F`. -/
def escapedRoot : Url := { slashRoot with route := .segments ["a%2F"] }

/-- A cache that holds a file of the second root. -/
def cacheOfEscaped : FileTree where
  nodes := Dict.ofList [(["cache"], .directory),
    (["cache", "http%3A%2F%2Fcvs%2Fa%252F"], .directory),
    (["cache", "http%3A%2F%2Fcvs%2Fa%252F", drsFile], .file ⟨#[1]⟩)]
  workingDirectory := []

/-- A server that has the same content for every file. -/
def oneContent : Network := ⟨fun _ _ => .ok (some ⟨#[2]⟩), []⟩

/-- Loading from the first root leaves the file of the second as it is. -/
theorem cacheDirectory_separates_slash :
    (CvSource.cacheDirectory ⟨"cache"⟩ slashRoot).parts ≠
        (CvSource.cacheDirectory ⟨"cache"⟩ escapedRoot).parts ∧
      cacheOfEscaped.locate ⟨"cache"⟩ = .ok ["cache"] ∧
      ((load (.remote slashRoot) oneContent ⟨"cache"⟩ true).on cacheOfEscaped).2.node?
          ["cache", "http%3A%2F%2Fcvs%2Fa%252F", drsFile] = some (.file ⟨#[1]⟩) := by
  obtain ⟨-, hparts, -, -, -, hload⟩ := cacheDirectory_separates ⟨"cache"⟩ slashRoot escapedRoot
  have htext : slashRoot.text ≠ escapedRoot.text := by decide
  have hplace : encodeComponent slashRoot.text = "http%3A%2F%2Fcvs%2Fa%2F" := by decide
  have hname : IsPathName "cache" := by decide
  have hcache : cacheOfEscaped.node? ["cache"] = some .directory := by decide
  have hlocate : cacheOfEscaped.locate ⟨"cache"⟩ = .ok ["cache"] := hname.locate rfl hcache nofun
  have hnodes : ∀ e ∈ cacheOfEscaped.nodes.toList, ∀ target, e.2 ≠ .link target := by
    have hall : ∀ e ∈ cacheOfEscaped.nodes.toList, e.2 = .directory ∨ e.2 = .file ⟨#[1]⟩ := by
      decide
    intro e he target hlink
    rcases hall e he with hnode | hnode
    · cases hnode.symm.trans hlink
    · cases hnode.symm.trans hlink
  refine ⟨fun he => htext (hparts.mp he), hlocate, ?_⟩
  rw [hload oneContent true cacheOfEscaped ["cache"] hlocate (isDirectoryAt_iff.mpr hcache)
    (linkFree_of_nodes hnodes _)]
  · decide
  · rw [hplace]
    decide

end ForcingData.Vocabularies
