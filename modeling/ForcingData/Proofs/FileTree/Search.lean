import ForcingData.Proofs.FileTree.Confined
import ForcingData.Proofs.FileTree.Find
import ForcingData.Proofs.FileTree.Rooted
import Mathlib.Data.Finset.Card

/-! # What a search finds

A search goes from a directory to the directories in it, and through links to directories that it is
not in already (`Searched`). It finds the files there, and what links there lead to if it is a file
(`IsFound`); it fails where it meets something that is no file and whose path can not be followed
(`IsBlocked`), were it a single link. Loops do not keep it from its end: each directory it enters is
one that it is not in, or stands below the last one, which both leaves less room
(`room_lt_of_not_mem`, `room_lt_of_below`), so `searchDepth` is never too little. So a search finds
all of that and nothing else (`findFiles_exact`). -/

namespace ForcingData.FileTree

/-- The path of what is found by these names, each in the directory of the one before. -/
def pathBelow (base : Path) (names : List String) : Path :=
  names.foldl (fun p name => p.join ⟨name⟩) base

theorem pathBelow_concat (base : Path) (names : List String) (name : String) :
    pathBelow base (names ++ [name]) = (pathBelow base names).join ⟨name⟩ := by
  rw [pathBelow, List.foldl_append]
  rfl

/-- The search comes to a directory by these names. The directories `around` are being searched
then, the nearest first. -/
inductive Searched (t : FileTree) (base : Path) : Location → List Location → List String → Prop
  | base {l : Location} (hl : t.locate base = .ok l) (hd : t.isDirectoryAt l = true) :
      Searched t base l [] []
  | enter {here l : Location} {around : List Location} {names : List String} {name : String}
      (h : Searched t base here around names) (hname : name ∈ t.namesAt here)
      (hl : t.locate (pathBelow base (names ++ [name])) = .ok l) (hd : t.isDirectoryAt l = true)
      (hnew : ∀ target, t.node? (here ++ [name]) = some (.link target) → l ∉ here :: around) :
      Searched t base l (here :: around) (names ++ [name])

/-- The last name is that of a file in a directory, or of a link there that leads to a file. -/
inductive IsFound (t : FileTree) (base : Path) : List String → Prop
  | file {here : Location} {around : List Location} {names : List String} {name : String}
      {content : ByteArray} (h : t.Searched base here around names)
      (hn : t.node? (here ++ [name]) = some (.file content)) : IsFound t base (names ++ [name])
  | link {here : Location} {around : List Location} {names : List String} {name : String}
      {target : Path} (h : t.Searched base here around names)
      (hn : t.node? (here ++ [name]) = some (.link target))
      (hf : t.isFile (pathBelow base (names ++ [name])) = true) : IsFound t base (names ++ [name])

/-- There is something in a directory, and no file, whose path can not be followed. -/
inductive IsBlocked (t : FileTree) (base : Path) : Path → OsError → Prop
  | intro {here : Location} {around : List Location} {names : List String} {name : String}
      {n : Node} {e : OsError} (h : t.Searched base here around names)
      (hn : t.node? (here ++ [name]) = some n) (hf : ∀ content, n ≠ .file content)
      (he : t.locate (pathBelow base (names ++ [name])) = .error e) :
      IsBlocked t base (pathBelow base (names ++ [name])) e

section
variable {t : FileTree} {base : Path} {here l : Location} {around : List Location}
  {names : List String} {name : String}

theorem Searched.locate (h : t.Searched base here around names) :
    t.locate (pathBelow base names) = .ok here ∧ t.isDirectoryAt here = true := by
  cases h with
  | base hl hd => exact ⟨hl, hd⟩
  | enter _ _ hl hd => exact ⟨hl, hd⟩

theorem Searched.eq_of_locate (ht : t.IsNamed) (h : t.Searched base here around names)
    {n : Node} (hn : t.node? (here ++ [name]) = some n) (hlink : ∀ target, n ≠ .link target)
    (hl : t.locate (pathBelow base (names ++ [name])) = .ok l) : l = here ++ [name] := by
  have hname : IsNodeName name := isNodeName_of_mem_namesAt ht (mem_namesAt_of_node hn)
  rw [pathBelow_concat] at hl
  refine (eq_of_locateWith_join h.locate.1 hname (fun target hn' => ?_) hl).1
  exact hlink target (Option.some.inj (hn.symm.trans hn'))

/-! ### What is found is there -/

/-- All that a search has found is there, or what it failed for is. -/
def IsSound (t : FileTree) (base : Path) : Except FindError (List Found) → Prop
  | .ok fs => ∀ f ∈ fs, t.IsFound base f.names ∧ f.path = pathBelow base f.names
  | .error e => ∃ p error, e = .walk p error ∧ t.IsBlocked base p error

/-- What was found by these names is sound, if the search may come to where they lead, or is blocked
there. -/
def Soundly (t : FileTree) (base : Path) (around : List Location) (names : List String)
    (found : Except FindError (List Found)) : Prop :=
  (∀ l, t.locate (pathBelow base names) = .ok l → t.Searched base l around names) →
    (∀ e, t.locate (pathBelow base names) = .error e → t.IsBlocked base (pathBelow base names) e) →
    t.IsSound base found

theorem isSound_filesAt (ht : t.IsNamed) (hr : t.IsRooted)
    (h : t.Searched base here around names) {search : Path → List String → _}
    (hsearch : t.Soundly base (here :: around) (names ++ [name])
      (search (pathBelow base (names ++ [name])) (names ++ [name]))) :
    t.IsSound base
      (t.filesAt search (here :: around) here (pathBelow base names) names name) := by
  unfold filesAt
  simp only [← pathBelow_concat]
  split
  · -- a file
    rename_i content hn
    exact List.forall_mem_singleton.mpr ⟨.file h hn, rfl⟩
  · -- a directory, which is where its name says
    rename_i hn
    have hfile (content : ByteArray) : Node.directory ≠ .file content := Node.noConfusion
    refine hsearch (fun l hl => ?_) fun e he => .intro h hn hfile he
    obtain rfl := h.eq_of_locate ht hn (fun _ => Node.noConfusion) hl
    refine .enter h (mem_namesAt_of_node hn) hl (isDirectoryAt_iff.mpr hn) fun target hlink => ?_
    cases hn.symm.trans hlink
  · -- a link: broken, to a file, to a directory around it, or to a new one
    rename_i target hn
    have hfile (content : ByteArray) : Node.link target ≠ .file content := Node.noConfusion
    split
    · rename_i e he
      exact ⟨_, e, rfl, .intro h hn hfile he⟩
    · rename_i l hl
      split
      · rename_i hno
        rcases hr.locate hl with hd | ⟨content, hfile⟩
        · rw [hd] at hno
          cases hno
        · refine List.forall_mem_singleton.mpr ⟨.link h hn ?_, rfl⟩
          rw [isFile, lookup_eq_ok.mpr ⟨l, hl, hfile⟩]
      · rename_i hd
        split
        · exact List.forall_mem_nil _
        · rename_i hnew
          refine hsearch (fun l' hl' => ?_) fun e he => .intro h hn hfile he
          obtain rfl := Except.ok.inj (hl.symm.trans hl')
          refine .enter h (mem_namesAt_of_node hn) hl (by simpa using hd) fun _ _ => ?_
          simpa using hnew
  · exact List.forall_mem_nil _

theorem soundly_filesIn (ht : t.IsNamed) (hr : t.IsRooted) : ∀ {depth : Nat}
    {around : List Location} {names : List String},
    t.Soundly base around names (t.filesIn depth around (pathBelow base names) names)
  | 0, _, _ => fun _ _ => nofun
  | depth + 1, around, names => by
    intro hopen hblocked
    rw [filesIn]
    split
    · rename_i e he
      exact ⟨_, e, rfl, hblocked e he⟩
    rename_i here hhere
    -- whatever is found under a name here is sound, by induction on the depth
    have hat : ∀ name, t.IsSound base (t.filesAt (t.filesIn depth (here :: around))
        (here :: around) here (pathBelow base names) names name) := fun name =>
      isSound_filesAt ht hr (hopen here hhere) (soundly_filesIn ht hr)
    simp only
    cases hfound : (t.namesAt here).mapM fun name => t.filesAt (t.filesIn depth (here :: around))
        (here :: around) here (pathBelow base names) names name with
    | error e =>
      obtain ⟨name, -, he⟩ := Except.exists_of_mapM_eq_error hfound
      have h := hat name
      rwa [he] at h
    | ok found =>
      intro f hf
      obtain ⟨fs, hfs, hf⟩ := List.mem_flatten.mp hf
      obtain ⟨name, -, hname⟩ := (Except.mem_of_mapM_eq_ok hfound).mp hfs
      have h := hat name
      rw [hname] at h
      exact h f hf

theorem isSound_search (ht : t.IsNamed) (hr : t.IsRooted) (hbase : t.isDirectory base = true) :
    t.IsSound base (t.filesIn t.searchDepth [] base []) := by
  have h : t.Soundly base [] [] (t.filesIn t.searchDepth [] base []) := soundly_filesIn ht hr
  obtain ⟨l, hl, hd⟩ := isDirectory_iff.mp hbase
  refine h (fun l' hl' => ?_) fun e he => ?_
  · obtain rfl := Except.ok.inj (hl.symm.trans hl')
    exact .base hl hd
  · cases hl.symm.trans he

/-! ### How deep a search goes -/

/-- The places where directories can be. -/
def places (t : FileTree) : Finset Location := insert [] t.nodes.keys.toFinset

/-- The places below a directory. -/
def placesBelow (t : FileTree) (l : Location) : Finset Location :=
  t.nodes.keys.toFinset.filter fun k => l <+: k ∧ k ≠ l

/-- How many directories can still be entered, one in the other, from this one. -/
def room (t : FileTree) (here : Location) (around : List Location) : Nat :=
  (t.places \ (here :: around).toFinset).card * (t.nodes.size + 1) + (t.placesBelow here).card

theorem card_keys (t : FileTree) : t.nodes.keys.toFinset.card ≤ t.nodes.size := by
  refine (List.toFinset_card_le _).trans ?_
  rw [Dict.keys, List.length_map, Dict.size]

theorem card_placesBelow (t : FileTree) (l : Location) : (t.placesBelow l).card ≤ t.nodes.size :=
  (Finset.card_filter_le _ _).trans t.card_keys

theorem room_lt_searchDepth (t : FileTree) (l : Location) : t.room l [] < t.searchDepth := by
  have hplaces : (t.places \ [l].toFinset).card ≤ t.nodes.size + 1 :=
    (Finset.card_le_card Finset.sdiff_subset).trans
      ((Finset.card_insert_le _ _).trans (Nat.succ_le_succ t.card_keys))
  have hbelow := t.card_placesBelow l
  calc t.room l [] ≤ (t.nodes.size + 1) * (t.nodes.size + 1) + t.nodes.size :=
        Nat.add_le_add (Nat.mul_le_mul_right _ hplaces) hbelow
    _ < (t.nodes.size + 1) * (t.nodes.size + 1) + (t.nodes.size + 1) + (t.nodes.size + 1) + 1 := by
        omega
    _ = t.searchDepth := (Nat.succ_mul_succ _ _).symm

theorem mem_places (hd : t.isDirectoryAt l = true) : l ∈ t.places := by
  rw [places, Finset.mem_insert, List.mem_toFinset]
  by_cases hnil : l = []
  · exact .inl hnil
  · refine .inr ((isSome_node? hnil).mp ?_)
    rw [isDirectoryAt_iff.mp hd]
    rfl

/-- In a directory that is not being searched there is less room, since it is one of a few. -/
theorem room_lt_of_not_mem (hd : t.isDirectoryAt l = true) (hnew : l ∉ here :: around) :
    t.room l (here :: around) < t.room here around := by
  have hlt : (t.places \ (l :: here :: around).toFinset).card <
      (t.places \ (here :: around).toFinset).card := by
    rw [List.toFinset_cons (a := l)]
    refine Finset.card_lt_card ((Finset.ssubset_iff_of_subset ?_).mpr ⟨l, ?_, ?_⟩)
    · exact Finset.sdiff_subset_sdiff le_rfl (Finset.subset_insert _ _)
    · exact Finset.mem_sdiff.mpr ⟨mem_places hd, by rwa [List.mem_toFinset]⟩
    · exact fun hl => (Finset.mem_sdiff.mp hl).2 (Finset.mem_insert_self _ _)
  have hbelow := t.card_placesBelow l
  have hmul := Nat.mul_le_mul_right (t.nodes.size + 1) hlt
  rw [Nat.succ_mul] at hmul
  rw [room, room]
  omega

/-- In a directory below there is less room, also if it is being searched already. -/
theorem room_lt_of_below (hd : t.isDirectoryAt (here ++ [name]) = true) :
    t.room (here ++ [name]) (here :: around) < t.room here around := by
  by_cases hnew : here ++ [name] ∈ here :: around
  · have hsame : ((here ++ [name]) :: here :: around).toFinset = (here :: around).toFinset := by
      rw [List.toFinset_cons, Finset.insert_eq_of_mem (List.mem_toFinset.mpr hnew)]
    have hlt : (t.placesBelow (here ++ [name])).card < (t.placesBelow here).card := by
      refine Finset.card_lt_card ((Finset.ssubset_iff_of_subset ?_).mpr ⟨here ++ [name], ?_, ?_⟩)
      · intro k hk
        obtain ⟨hk, hbelow, -⟩ := Finset.mem_filter.mp hk
        refine Finset.mem_filter.mpr ⟨hk, (List.prefix_append _ _).trans hbelow, ?_⟩
        rintro rfl
        simpa using hbelow.length_le
      · refine Finset.mem_filter.mpr ⟨?_, List.prefix_append _ _, by simp⟩
        exact (Finset.mem_insert.mp (mem_places hd)).resolve_left (by simp)
      · simp [placesBelow]
    rw [room, room, hsame]
    exact Nat.add_lt_add_left hlt _
  · exact room_lt_of_not_mem hd hnew

/-! ### What is there is found -/

/-- Where a directory is searched, every name in it is. -/
theorem exists_filesAt {depth : Nat} {path : Path} {fs : List Found}
    (h : t.filesIn (depth + 1) around path names = .ok fs) (hl : t.locate path = .ok here)
    (hname : name ∈ t.namesAt here) :
    ∃ fs', t.filesAt (t.filesIn depth (here :: around)) (here :: around) here path names name =
      .ok fs' ∧ fs' ⊆ fs := by
  rw [filesIn, hl] at h
  obtain ⟨found, hfound, h⟩ := Except.bind_eq_ok.mp h
  obtain rfl := Except.ok.inj h
  obtain ⟨fs', hmem, hat⟩ := Except.exists_mem_of_mapM_eq_ok hfound hname
  exact ⟨fs', hat, fun f hf => List.mem_flatten.mpr ⟨fs', hmem, hf⟩⟩

/-- Every directory that the search comes to is searched, with room for what is in it. -/
theorem Searched.exists_filesIn (ht : t.IsNamed) {fs : List Found}
    (hfs : t.filesIn t.searchDepth [] base [] = .ok fs) (h : t.Searched base here around names) :
    ∃ depth fs', t.filesIn (depth + 1) around (pathBelow base names) names = .ok fs' ∧
      t.room here around ≤ depth ∧ fs' ⊆ fs := by
  induction h with
  | @base l hl hd =>
    have hroom := t.room_lt_searchDepth l
    refine ⟨t.searchDepth - 1, fs, ?_, Nat.le_sub_one_of_lt hroom, List.Subset.refl _⟩
    rw [Nat.sub_add_cancel (Nat.zero_lt_of_lt hroom)]
    exact hfs
  | @enter here l around names name h hname hl hd hnew ih =>
    obtain ⟨depth, fs₁, hfs₁, hroom, hsub₁⟩ := ih
    obtain ⟨fs₂, hfs₂, hsub₂⟩ := exists_filesAt hfs₁ h.locate.1 hname
    -- there is a level of depth left for `l`, as it has less room
    suffices hless : t.room l (here :: around) < t.room here around ∧
        t.filesIn depth (here :: around) (pathBelow base (names ++ [name])) (names ++ [name]) =
          .ok fs₂ by
      obtain ⟨hless, hsearch⟩ := hless
      obtain _ | depth := depth
      · omega
      · exact ⟨depth, fs₂, hsearch, by omega, List.Subset.trans hsub₂ hsub₁⟩
    unfold filesAt at hfs₂
    simp only [← pathBelow_concat, hl] at hfs₂
    split at hfs₂
    · rename_i content hn
      obtain rfl := h.eq_of_locate ht hn nofun hl
      cases (isDirectoryAt_iff.mp hd).symm.trans hn
    · rename_i hn
      obtain rfl := h.eq_of_locate ht hn nofun hl
      exact ⟨room_lt_of_below hd, hfs₂⟩
    · rename_i target hn
      have hnew := hnew target hn
      rw [if_neg (by simp [hd]), if_neg (by simpa using hnew)] at hfs₂
      exact ⟨room_lt_of_not_mem hd hnew, hfs₂⟩
    · rename_i hn
      rw [mem_namesAt, hn] at hname
      cases hname

theorem IsFound.mem (ht : t.IsNamed) {fs : List Found}
    (hfs : t.filesIn t.searchDepth [] base [] = .ok fs) (h : t.IsFound base names) :
    ⟨pathBelow base names, names⟩ ∈ fs := by
  have exists_at : ∀ {here around names name n}, t.Searched base here around names →
      t.node? (here ++ [name]) = some n → ∃ search fs', t.filesAt search (here :: around) here
        (pathBelow base names) names name = .ok fs' ∧ fs' ⊆ fs := by
    intro here around names name n h hn
    obtain ⟨depth, fs₁, hfs₁, -, hsub₁⟩ := h.exists_filesIn ht hfs
    obtain ⟨fs₂, hfs₂, hsub₂⟩ := exists_filesAt hfs₁ h.locate.1 (mem_namesAt_of_node hn)
    exact ⟨_, fs₂, hfs₂, List.Subset.trans hsub₂ hsub₁⟩
  cases h with
  | file h hn =>
    obtain ⟨search, fs', hfs', hsub⟩ := exists_at h hn
    unfold filesAt at hfs'
    simp only [← pathBelow_concat, hn] at hfs'
    obtain rfl := Except.ok.inj hfs'
    exact hsub (List.mem_singleton_self _)
  | link h hn hf =>
    obtain ⟨search, fs', hfs', hsub⟩ := exists_at h hn
    obtain ⟨content, hread⟩ := isFile_iff.mp hf
    obtain ⟨l, hl, hfile⟩ := lookup_eq_ok.mp (read_eq_ok.mp hread)
    have hd : (!t.isDirectoryAt l) = true := by
      rw [isDirectoryAt, hfile]
      rfl
    unfold filesAt at hfs'
    simp only [← pathBelow_concat, hn, hl] at hfs'
    rw [if_pos hd] at hfs'
    obtain rfl := Except.ok.inj hfs'
    exact hsub (List.mem_singleton_self _)

/-- A search that finishes meets nothing whose path can not be followed. -/
theorem not_isBlocked_of_filesIn (ht : t.IsNamed) {fs : List Found}
    (hfs : t.filesIn t.searchDepth [] base [] = .ok fs) (path : Path) (error : OsError) :
    ¬t.IsBlocked base path error := by
  rintro @⟨here, around, names, name, n, _, h, hn, hf, he⟩
  obtain ⟨depth, fs₁, hfs₁, hroom, -⟩ := h.exists_filesIn ht hfs
  obtain ⟨fs₂, hfs₂, -⟩ := exists_filesAt hfs₁ h.locate.1 (mem_namesAt_of_node hn)
  cases n with
  | file content => exact hf content rfl
  | directory =>
    -- there is room for one more directory, so it is opened, and that fails
    have hless : t.room (here ++ [name]) (here :: around) < t.room here around :=
      room_lt_of_below (isDirectoryAt_iff.mpr hn)
    obtain _ | depth := depth
    · omega
    unfold filesAt at hfs₂
    simp only [← pathBelow_concat, hn, filesIn, he] at hfs₂
    cases hfs₂
  | link target =>
    unfold filesAt at hfs₂
    simp only [← pathBelow_concat, hn, he] at hfs₂
    cases hfs₂

end

/-- A search below a directory finds exactly the files there that fit, sorted, each once. It fails
where the base is no directory, and where anything stands in its way: a link that leads nowhere, or
to itself, is enough. -/
theorem findFiles_exact {t : FileTree} (ht : t.IsNamed) (hr : t.IsRooted) (base : Path)
    (pattern : FilePattern) :
    (∀ paths, t.findFiles base pattern = .ok paths → t.isDirectory base = true ∧
      paths.Pairwise (fun p q => compare p q = .lt) ∧
      ∀ p, p ∈ paths ↔
        ∃ names, t.IsFound base names ∧ pattern.fits names = true ∧ p = pathBelow base names) ∧
    (∀ e, t.findFiles base pattern = .error e →
      e = .baseNotADirectory base ∧ t.isDirectory base = false ∨
      ∃ path error, e = .walk path error ∧ t.IsBlocked base path error) ∧
    (t.isDirectory base = true → ((∃ paths, t.findFiles base pattern = .ok paths) ↔
      ∀ path error, ¬t.IsBlocked base path error)) := by
  have hfails : ∀ e, t.findFiles base pattern = .error e →
      e = .baseNotADirectory base ∧ t.isDirectory base = false ∨
        ∃ path error, e = .walk path error ∧ t.IsBlocked base path error := by
    intro e h
    rcases findFiles_eq_error.mp h with ⟨hbase, rfl⟩ | ⟨hbase, h⟩
    · exact .inl ⟨rfl, hbase⟩
    · have hsound := isSound_search ht hr hbase
      rw [h] at hsound
      exact .inr hsound
  refine ⟨fun paths h => ?_, hfails, fun hbase => ⟨?_, fun hfree => ?_⟩⟩
  · obtain ⟨hbase, files, hfiles, rfl⟩ := findFiles_eq_ok.mp h
    have hsound := isSound_search ht hr hbase
    rw [hfiles] at hsound
    refine ⟨hbase, sorted_of_findFiles ht h, fun p => ?_⟩
    rw [List.mem_mergeSort, List.mem_map]
    constructor
    · rintro ⟨f, hf, rfl⟩
      obtain ⟨hf, hfits⟩ := List.mem_filter.mp hf
      obtain ⟨hfound, hpath⟩ := hsound f hf
      exact ⟨f.names, hfound, hfits, hpath⟩
    · rintro ⟨names, hfound, hfits, rfl⟩
      exact ⟨_, List.mem_filter.mpr ⟨hfound.mem ht hfiles, hfits⟩, rfl⟩
  · rintro ⟨paths, h⟩
    obtain ⟨-, files, hfiles, -⟩ := findFiles_eq_ok.mp h
    exact not_isBlocked_of_filesIn ht hfiles
  · cases h : t.findFiles base pattern with
    | ok paths => exact ⟨paths, rfl⟩
    | error e =>
      rcases hfails e h with ⟨-, hno⟩ | ⟨path, error, -, hblocked⟩
      · cases hbase.symm.trans hno
      · exact absurd hblocked (hfree path error)

/-! ### A link that leads nowhere -/

/-- A single link that can not be followed, in any directory that the search comes to, ends it. -/
theorem exists_findFiles_eq_error_of_link {t : FileTree} (ht : t.IsNamed) {base target : Path}
    {here : Location} {around : List Location} {names : List String} {name : String} {e : OsError}
    (h : t.Searched base here around names)
    (hn : t.node? (here ++ [name]) = some (.link target))
    (he : t.locate (pathBelow base (names ++ [name])) = .error e) (pattern : FilePattern) :
    ∃ error, t.findFiles base pattern = .error error := by
  cases hfound : t.findFiles base pattern with
  | error error => exact ⟨error, rfl⟩
  | ok paths =>
    obtain ⟨-, files, hfiles, -⟩ := findFiles_eq_ok.mp hfound
    exact absurd (.intro h hn (fun _ => Node.noConfusion) he)
      (not_isBlocked_of_filesIn ht hfiles _ _)

/-- Beside a file there is a link to something that is not there. -/
def brokenTree : FileTree where
  nodes := Dict.ofList [(["data"], .directory), (["data", "broken.nc"], .link ⟨"nowhere"⟩),
    (["data", "plain.nc"], .file ByteArray.empty)]
  workingDirectory := []

example (pattern : FilePattern) : ∃ e, brokenTree.findFiles ⟨"data"⟩ pattern = .error e := by
  have hdata : IsStep "data" := ⟨by decide, by decide, by decide⟩
  have hbroken : IsStep "broken.nc" := ⟨by decide, by decide, by decide⟩
  have hlocate : brokenTree.locate ⟨"data"⟩ = .ok ["data"] :=
    locate_eq_ok.mpr ⟨by decide, .child rfl hdata rfl nofun (.done ..)⟩
  have hlink : brokenTree.node? (["data"] ++ ["broken.nc"]) = some (.link ⟨"nowhere"⟩) := rfl
  have hsteps : steps ⟨"data/broken.nc"⟩ = ["data", "broken.nc"] := by decide
  have htarget : steps ⟨"nowhere"⟩ = ["nowhere"] := by decide
  have hwalk : brokenTree.walk ⟨true, false⟩ 40 [] (steps ⟨"data/broken.nc"⟩) =
      .error .notFound := by
    rw [hsteps, walk_child rfl hdata (n := .directory) rfl nofun,
      List.nil_append, walk_link rfl hbroken hlink fun _ => rfl, htarget]
    exact walk_nothing rfl ⟨by decide, by decide, by decide⟩ rfl
  have hpath : pathBelow ⟨"data"⟩ ([] ++ ["broken.nc"]) = ⟨"data/broken.nc"⟩ := by decide
  exact exists_findFiles_eq_error_of_link (by decide) (.base hlocate rfl) hlink
    (hpath ▸ hwalk) pattern

/-! ### A link to above the base -/

def loopTree : FileTree where
  nodes := Dict.ofList [(["a"], .directory), (["a", "b"], .directory),
    (["a", "b", "f.nc"], .file ByteArray.empty), (["a", "b", "up"], .link ⟨".."⟩)]
  workingDirectory := []

theorem isNamed_loopTree : loopTree.IsNamed := by decide

theorem isRooted_loopTree : loopTree.IsRooted := by decide

theorem leads_loopTree_up {links : Nat} {rest : List String} {l : Location}
    (h : Leads loopTree ⟨true, false⟩ links ["a"] rest l) :
    Leads loopTree ⟨true, false⟩ (links + 1) ["a", "b"] ("up" :: rest) l :=
  .link rfl ⟨by decide, by decide, by decide⟩ rfl (fun _ => rfl) (.up rfl h)

theorem leads_loopTree_b {links : Nat} {rest : List String} {l : Location}
    (h : Leads loopTree ⟨true, false⟩ links ["a", "b"] rest l) :
    Leads loopTree ⟨true, false⟩ links ["a"] ("b" :: rest) l :=
  .child rfl ⟨by decide, by decide, by decide⟩ rfl nofun h

theorem leads_loopTree_base {links : Nat} {rest : List String} {l : Location}
    (h : Leads loopTree ⟨true, false⟩ links ["a", "b"] rest l) :
    Leads loopTree ⟨true, false⟩ links [] ("a" :: "b" :: rest) l :=
  .child rfl ⟨by decide, by decide, by decide⟩ rfl nofun (leads_loopTree_b h)

theorem locate_loopTree : loopTree.locate ⟨"a/b"⟩ = .ok ["a", "b"] ∧
    loopTree.locate ⟨"a/b/up"⟩ = .ok ["a"] ∧ loopTree.locate ⟨"a/b/up/b"⟩ = .ok ["a", "b"] ∧
    loopTree.locate ⟨"a/b/up/b/up"⟩ = .ok ["a"] := by
  refine ⟨?_, ?_, ?_, ?_⟩ <;> refine locate_eq_ok.mpr ⟨by decide, leads_loopTree_base ?_⟩
  · exact .done ..
  · exact leads_loopTree_up (.done ..)
  · exact leads_loopTree_up (leads_loopTree_b (.done ..))
  · exact leads_loopTree_up (leads_loopTree_b (leads_loopTree_up (.done ..)))

theorem namesAt_loopTree : loopTree.namesAt ["a", "b"] = ["f.nc", "up"] ∧
    loopTree.namesAt ["a"] = ["b"] := by decide

/-- The search starts in `a/b`, comes to `a` by the link, and from there to `a/b` once more. -/
def loopPlaces : List (Location × List Location × List String) :=
  [(["a", "b"], [], []), (["a"], [["a", "b"]], ["up"]),
    (["a", "b"], [["a"], ["a", "b"]], ["up", "b"])]

section
variable {here l : Location} {around : List Location} {names : List String} {name : String}

/-- There is a file, or a way to one of these places, or to one that is being searched. -/
theorem met_loopTree (h : (here, around, names) ∈ loopPlaces)
    (hname : name ∈ loopTree.namesAt here) :
    (names ++ [name] = ["f.nc"] ∨ names ++ [name] = ["up", "b", "f.nc"]) ∧
        loopTree.node? (here ++ [name]) = some (.file ByteArray.empty) ∨
      (∀ content, loopTree.node? (here ++ [name]) ≠ some (.file content)) ∧
        ∃ l, loopTree.locate (pathBelow ⟨"a/b"⟩ (names ++ [name])) = .ok l ∧
          loopTree.isDirectoryAt l = true ∧ ((l, here :: around, names ++ [name]) ∈ loopPlaces ∨
            ∃ target, loopTree.node? (here ++ [name]) = some (.link target) ∧
              l ∈ here :: around) := by
  obtain ⟨-, hup, hagain, hup'⟩ := locate_loopTree
  obtain ⟨hb, ha⟩ := namesAt_loopTree
  simp only [loopPlaces, List.mem_cons, List.not_mem_nil, or_false, Prod.mk.injEq] at h
  rcases h with ⟨rfl, rfl, rfl⟩ | ⟨rfl, rfl, rfl⟩ | ⟨rfl, rfl, rfl⟩
  · rw [hb] at hname
    rcases List.mem_pair.mp hname with rfl | rfl
    · exact .inl ⟨.inl rfl, rfl⟩
    · exact .inr ⟨nofun, _, hup, rfl, .inl (by decide)⟩
  · rw [ha] at hname
    obtain rfl := List.mem_singleton.mp hname
    exact .inr ⟨nofun, _, hagain, rfl, .inl (by decide)⟩
  · rw [hb] at hname
    rcases List.mem_pair.mp hname with rfl | rfl
    · exact .inl ⟨.inr rfl, rfl⟩
    · exact .inr ⟨nofun, _, hup', rfl, .inr ⟨_, rfl, by decide⟩⟩

theorem searched_loopTree (h : loopTree.Searched ⟨"a/b"⟩ here around names) :
    (here, around, names) ∈ loopPlaces := by
  induction h with
  | base hl hd =>
    obtain rfl := Except.ok.inj (locate_loopTree.1.symm.trans hl)
    exact List.mem_cons_self ..
  | enter h hname hl hd hnew ih =>
    rcases met_loopTree ih hname with ⟨-, hn⟩ | ⟨-, l, hl', -, hplace | ⟨target, hn, hmem⟩⟩
    · obtain rfl := h.eq_of_locate isNamed_loopTree hn nofun hl
      cases (isDirectoryAt_iff.mp hd).symm.trans hn
    · obtain rfl := Except.ok.inj (hl'.symm.trans hl)
      exact hplace
    · obtain rfl := Except.ok.inj (hl'.symm.trans hl)
      exact absurd hmem (hnew target hn)

theorem not_isBlocked_loopTree (path : Path) (error : OsError) :
    ¬loopTree.IsBlocked ⟨"a/b"⟩ path error := by
  rintro ⟨h, hn, hf, he⟩
  rcases met_loopTree (searched_loopTree h) (mem_namesAt_of_node hn) with
    ⟨-, hfile⟩ | ⟨-, l, hl, -⟩
  · exact hf _ (Option.some.inj (hn.symm.trans hfile))
  · cases hl.symm.trans he

theorem names_of_isFound_loopTree (h : loopTree.IsFound ⟨"a/b"⟩ names) :
    names = ["f.nc"] ∨ names = ["up", "b", "f.nc"] := by
  cases h with
  | file h hn =>
    rcases met_loopTree (searched_loopTree h) (mem_namesAt_of_node hn) with
      ⟨hnames, -⟩ | ⟨hno, -⟩
    · exact hnames
    · exact absurd hn (hno _)
  | link h hn hf =>
    rcases met_loopTree (searched_loopTree h) (mem_namesAt_of_node hn) with
      ⟨-, hfile⟩ | ⟨-, l, hl, hd, -⟩
    · cases hn.symm.trans hfile
    · rw [isFile, lookup_eq_ok.mpr ⟨l, hl, isDirectoryAt_iff.mp hd⟩] at hf
      cases hf

end

/-- Every name fits. -/
def anyPattern : FilePattern := ⟨"*", by decide⟩

theorem searched_again_loopTree :
    loopTree.Searched ⟨"a/b"⟩ ["a", "b"] [["a"], ["a", "b"]] ["up", "b"] := by
  obtain ⟨hbase, hup, hagain, -⟩ := locate_loopTree
  have habove : loopTree.Searched ⟨"a/b"⟩ ["a"] [["a", "b"]] ["up"] :=
    .enter (.base hbase rfl) (by decide) hup rfl fun _ _ => by decide
  exact .enter habove (by decide) hagain rfl nofun

/-- A file is found twice, by its path and by one through the link. -/
theorem findFiles_exact_loopTree : loopTree.IsNamed ∧ loopTree.IsRooted ∧
    ∃ paths, loopTree.findFiles ⟨"a/b"⟩ anyPattern = .ok paths ∧
      ∀ p, p ∈ paths ↔ p = ⟨"a/b/f.nc"⟩ ∨ p = ⟨"a/b/up/b/f.nc"⟩ := by
  obtain ⟨hok, -, hfree⟩ := findFiles_exact isNamed_loopTree isRooted_loopTree ⟨"a/b"⟩ anyPattern
  obtain ⟨hbase, -⟩ := locate_loopTree
  obtain ⟨paths, hpaths⟩ :=
    (hfree (isDirectory_iff.mpr ⟨_, hbase, rfl⟩)).mpr not_isBlocked_loopTree
  obtain ⟨-, -, hmem⟩ := hok paths hpaths
  refine ⟨isNamed_loopTree, isRooted_loopTree, paths, hpaths, fun p => (hmem p).trans ⟨?_, ?_⟩⟩
  · rintro ⟨names, hfound, -, rfl⟩
    rcases names_of_isFound_loopTree hfound with rfl | rfl
    · exact .inl (by decide)
    · exact .inr (by decide)
  · rintro (rfl | rfl)
    · exact ⟨["f.nc"], .file (.base hbase rfl) rfl, by decide, by decide⟩
    · exact ⟨["up", "b", "f.nc"], .file searched_again_loopTree rfl, by decide, by decide⟩

end ForcingData.FileTree
