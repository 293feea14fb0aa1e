import ForcingData.FileTree.Find
import ForcingData.Proofs.FileTree.DeadEnd
import ForcingData.Proofs.FileTree.Inside
import ForcingData.Proofs.FileTree.Named

/-! # Finding each file once

The files that are found below a directory of a named tree have different paths, so that they are
sorted strictly: `sorted_of_findFiles`. A search never fails for its pattern
(`ne_emptyPattern_of_findFiles`). -/

namespace ForcingData.FileTree

/-- Files found below a path, each once. -/
structure Below (path : Path) (fs : List Found) : Prop where
  parts : ∀ f ∈ fs, path.parts <+: f.path.parts
  once : (fs.map (·.path.parts)).Nodup

namespace Below
variable {path : Path} {fs : List Found}

theorem nil (path : Path) : Below path [] := ⟨nofun, .nil⟩

theorem single (path : Path) (names : List String) : Below path [⟨path, names⟩] :=
  ⟨List.forall_mem_singleton.mpr (List.prefix_refl _), List.nodup_singleton _⟩

/-- Files below different names in a directory are different. -/
theorem flatten (hpath : path.text ≠ "") {names : List String} {found : List (List Found)}
    (h : List.Forall₂ (fun name fs => Below (path.join ⟨name⟩) fs) names found)
    (hnames : ∀ name ∈ names, IsNodeName name) (honce : names.Nodup) :
    Below path found.flatten ∧
      ∀ f ∈ found.flatten, ∃ name ∈ names, path.parts ++ [.name name] <+: f.path.parts := by
  induction h with
  | nil => exact ⟨nil path, nofun⟩
  | @cons name fs names found hfs _ ih =>
    obtain ⟨hname, hnames⟩ := List.forall_mem_cons.mp hnames
    obtain ⟨hnew, honce⟩ := List.nodup_cons.mp honce
    obtain ⟨hrest, hunder⟩ := ih hnames honce
    have hjoin := Path.parts_join hpath hname.isName hname.not_here hname.not_up
    have hparts : ∀ f ∈ fs, path.parts ++ [.name name] <+: f.path.parts := fun f hf =>
      hjoin ▸ hfs.parts f hf
    rw [List.flatten_cons]
    refine ⟨⟨fun f hf => ?_, ?_⟩, fun f hf => ?_⟩
    · rcases List.mem_append.mp hf with hf | hf
      · exact (List.prefix_append _ _).trans (hparts f hf)
      · exact hrest.parts f hf
    · rw [List.map_append]
      refine List.nodup_append.mpr ⟨hfs.once, hrest.once, ?_⟩
      -- two files under different names of a directory have different parts there
      rintro _ hmem _ hmem' heq
      obtain ⟨f, hf, rfl⟩ := List.mem_map.mp hmem
      obtain ⟨g, hg, rfl⟩ := List.mem_map.mp hmem'
      obtain ⟨other, hother, hg⟩ := hunder g hg
      have hsame := List.prefix_of_prefix_length_le (hparts f hf) (heq ▸ hg) (by simp)
      have hlast := List.append_cancel_left (hsame.eq_of_length (by simp))
      obtain rfl : name = other := by simpa using hlast
      exact hnew hother
    · rcases List.mem_append.mp hf with hf | hf
      · exact ⟨name, List.mem_cons_self .., hparts f hf⟩
      · obtain ⟨other, hother, hg⟩ := hunder f hf
        exact ⟨other, List.mem_cons_of_mem _ hother, hg⟩

end Below

/-! ### Below a directory, or not -/

section
variable {t : FileTree} {base : Path} {pattern : FilePattern}

theorem isDirectory_iff {p : Path} :
    t.isDirectory p = true ↔ ∃ l, t.locate p = .ok l ∧ t.isDirectoryAt l = true := by
  simp only [isDirectoryAt_iff, ← lookup_eq_ok]
  rw [isDirectory]
  cases t.lookup p with
  | error e => simp
  | ok n => cases n <;> simp

theorem findFiles_eq (t : FileTree) (base : Path) (pattern : FilePattern) :
    t.findFiles base pattern =
      if t.isDirectory base then do
        let files ← t.filesIn t.searchDepth [] base []
        return ((files.filter fun f => pattern.fits f.names).map (·.path)).mergeSort pathLe
      else .error (.baseNotADirectory base) := by
  by_cases hbase : t.isDirectory base = true
  · obtain ⟨l, hl, hd⟩ := isDirectory_iff.mp hbase
    rw [if_pos hbase, findFiles, hl]
    simp only [hd]
    rfl
  · rw [if_neg hbase, findFiles]
    cases hl : t.locate base with
    | error e => rfl
    | ok l =>
      have hd : t.isDirectoryAt l = false :=
        Bool.eq_false_iff.mpr fun hd => hbase (isDirectory_iff.mpr ⟨l, hl, hd⟩)
      simp only [hd]
      rfl

theorem findFiles_eq_ok {paths : List Path} : t.findFiles base pattern = .ok paths ↔
    t.isDirectory base = true ∧ ∃ files, t.filesIn t.searchDepth [] base [] = .ok files ∧
      ((files.filter fun f => pattern.fits f.names).map (·.path)).mergeSort pathLe = paths := by
  rw [findFiles_eq]
  split
  · rename_i hbase
    rw [Except.bind_eq_ok]
    simp only [hbase, true_and, Except.pure_eq_ok]
  · rename_i hbase
    simp [hbase]

theorem findFiles_eq_error {e : FindError} : t.findFiles base pattern = .error e ↔
    t.isDirectory base = false ∧ e = .baseNotADirectory base ∨
      t.isDirectory base = true ∧ t.filesIn t.searchDepth [] base [] = .error e := by
  rw [findFiles_eq]
  split
  · rename_i hbase
    rw [Except.bind_eq_error]
    simp [hbase, pure, Except.pure]
  · rename_i hbase
    simp [hbase, eq_comm]

end

section
variable {t : FileTree} (ht : t.IsNamed)

theorem nodup_namesAt (t : FileTree) (l : Location) : (t.namesAt l).Nodup := by
  refine List.Nodup.filterMap (fun k k' name hk hk' => ?_) t.nodes.nodup_keys
  have eq_concat : ∀ k : Location, name ∈ (if k.dropLast = l then k.getLast? else none) →
      k = l ++ [name] := by
    intro k hk
    split at hk
    · rename_i heq
      rw [← heq]
      exact (List.dropLast_append_getLast? name hk).symm
    · cases hk
  rw [eq_concat k hk, eq_concat k' hk']

include ht

theorem isNodeName_of_mem_namesAt {l : Location} {name : String} (h : name ∈ t.namesAt l) :
    IsNodeName name :=
  ht.nodes _ (mem_namesAt.mp h) name (List.mem_append_right _ (List.mem_singleton_self _))

omit ht in
theorem below_of_filesAt {search : Path → List String → Except FindError (List Found)}
    {ancestors : List Location} {here : Location} {path : Path} {below : List String}
    {name : String} (hsearch : ∀ names fs, search (path.join ⟨name⟩) names = .ok fs →
      Below (path.join ⟨name⟩) fs) {fs : List Found}
    (h : t.filesAt search ancestors here path below name = .ok fs) :
    Below (path.join ⟨name⟩) fs := by
  unfold filesAt at h
  simp only at h
  split at h
  · cases h
    exact .single ..
  · exact hsearch _ _ h
  · split at h
    · cases h
    · split at h
      · cases h
        exact .single ..
      · split at h
        · cases h
          exact .nil _
        · exact hsearch _ _ h
  · cases h
    exact .nil _

theorem below_of_filesIn : ∀ {depth : Nat} {ancestors : List Location} {path : Path}
    {below : List String} {fs : List Found}, t.filesIn depth ancestors path below = .ok fs →
      Below path fs
  | 0, _, _, _, _, h => by
    cases h
    exact .nil _
  | depth + 1, ancestors, path, below, fs, h => by
    rw [filesIn] at h
    split at h
    · cases h
    rename_i here hhere
    have hpath := text_ne_of_locate hhere
    obtain ⟨found, hfound, h⟩ := Except.bind_eq_ok.mp h
    cases h
    have hname : ∀ name ∈ t.namesAt here, IsNodeName name := fun _ =>
      isNodeName_of_mem_namesAt ht
    refine (Below.flatten hpath ?_ hname (nodup_namesAt t here)).1
    have hall := (List.forall₂_and_left ..).mpr ⟨hname, Except.mapM_eq_ok.mp hfound⟩
    exact hall.imp fun name fs hfs =>
      below_of_filesAt (fun names fs h => below_of_filesIn h) hfs.2

theorem sorted_of_findFiles {base : Path} {pattern : FilePattern} {paths : List Path}
    (h : t.findFiles base pattern = .ok paths) :
    paths.Pairwise fun p q => compare p q = .lt := by
  obtain ⟨-, files, hfiles, rfl⟩ := findFiles_eq_ok.mp h
  have hbelow := below_of_filesIn ht hfiles
  have honce : (((files.filter fun f => pattern.fits f.names).map (·.path)).map
      Path.parts).Nodup := by
    rw [List.map_map]
    exact hbelow.once.sublist (List.filter_sublist.map _)
  generalize (files.filter fun f => pattern.fits f.names).map (·.path) = found at honce ⊢
  have hle := Path.pairwise_mergeSort id found
  have hne := List.pairwise_map.mp
    (((found.mergeSort_perm pathLe).map Path.parts).nodup_iff.mpr honce)
  refine (hle.and hne).imp fun {p q} hpq => ?_
  cases hcmp : compare p q with
  | lt => rfl
  | eq => exact absurd (Path.compare_eq_iff.mp hcmp) hpq.2
  | gt => exact absurd hcmp hpq.1

end
/-! ### How a search can fail -/

section
variable {t : FileTree} {e : FindError}

theorem ne_emptyPattern_of_filesAt
    {search : Path → List String → Except FindError (List Found)}
    {ancestors : List Location} {here : Location} {path : Path} {below : List String}
    {name : String} (hsearch : ∀ p names, search p names = .error e → e ≠ .emptyPattern)
    (h : t.filesAt search ancestors here path below name = .error e) : e ≠ .emptyPattern := by
  rw [filesAt] at h
  split at h
  · cases h
  · exact hsearch _ _ h
  · split at h
    · cases h
      exact nofun
    · split at h
      · cases h
      · split at h
        · cases h
        · exact hsearch _ _ h
  · cases h

theorem ne_emptyPattern_of_filesIn : ∀ {depth : Nat} {ancestors : List Location} {path : Path}
    {below : List String}, t.filesIn depth ancestors path below = .error e → e ≠ .emptyPattern
  | 0, _, _, _, h => by cases h
  | depth + 1, ancestors, path, below, h => by
    rw [filesIn] at h
    split at h
    · cases h
      exact nofun
    rcases Except.bind_eq_error.mp h with h | ⟨_, _, h⟩
    · obtain ⟨name, _, h⟩ := Except.exists_of_mapM_eq_error h
      exact ne_emptyPattern_of_filesAt (fun _ _ => ne_emptyPattern_of_filesIn) h
    · cases h

theorem ne_emptyPattern_of_findFiles {base : Path} {pattern : FilePattern}
    (h : t.findFiles base pattern = .error e) : e ≠ .emptyPattern := by
  rcases findFiles_eq_error.mp h with ⟨-, rfl⟩ | ⟨-, h⟩
  · exact nofun
  · exact ne_emptyPattern_of_filesIn h

theorem findFiles_of_not_found {base : Path} {error : OsError} (h : t.locate base = .error error)
    (pattern : FilePattern) : t.findFiles base pattern = .error (.baseNotADirectory base) := by
  rw [findFiles, h]

end

end ForcingData.FileTree
