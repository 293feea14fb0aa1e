import ForcingData.Proofs.FileTree.DeadEnd
import ForcingData.Proofs.FileTree.Named

/-! # Growing file trees

A tree has grown into another (`Grown`) if all that there was is there still, as it was: what a path
led to, it leads to (`Grown.locate`), so that every file is read as before (`Grown.read`). Making
directories lets a tree grow by directories alone (`onlyDirectories_createDirectories`). -/

namespace ForcingData.FileTree
variable {t t' t'' : FileTree} {ending : Ending} {links : Nat} {here k l : Location}
  {names : List String} {p : Path} {content : ByteArray}

/-- Nothing that there was is changed or gone. -/
structure Grown (t t' : FileTree) : Prop where
  workingDirectory : t'.workingDirectory = t.workingDirectory
  node : ∀ k n, t.node? k = some n → t'.node? k = some n

namespace Grown

theorem refl (t : FileTree) : Grown t t := ⟨rfl, fun _ _ h => h⟩

theorem trans (h : Grown t t') (h' : Grown t' t'') : Grown t t'' :=
  ⟨h'.workingDirectory.trans h.workingDirectory, fun k n hn => h'.node k n (h.node k n hn)⟩

theorem put (hk : t.node? k = none) (n : Node) : Grown t (t.put k n) := by
  refine ⟨rfl, fun x m hx => ?_⟩
  have hne : x ≠ k := by
    rintro rfl
    cases hk.symm.trans hx
  rw [node?_put_of_ne (ne_nil_of_node?_eq_none hk) hne, hx]

theorem nothing (h : Grown t t') (hk : t'.node? k = none) : t.node? k = none := by
  cases hn : t.node? k with
  | none => rfl
  | some n => cases hk.symm.trans (h.node k n hn)

theorem isDirectoryAt (h : Grown t t') (hd : t.isDirectoryAt k = true) :
    t'.isDirectoryAt k = true :=
  isDirectoryAt_iff.mpr (h.node k _ (isDirectoryAt_iff.mp hd))

/-- A walk that does not end where nothing is takes the same way. -/
theorem leads (hg : Grown t t') (hm : ending.missing = false)
    (h : Leads t ending links here names l) : Leads t' ending links here names l := by
  induction h with
  | done links here => exact .done links here
  | stay hd _ ih => exact .stay (hg.isDirectoryAt hd) ih
  | up hd _ ih => exact .up (hg.isDirectoryAt hd) ih
  | nothing _ _ _ hmissing =>
    rw [hm] at hmissing
    cases hmissing
  | lastLink hd hs hn hf => exact .lastLink (hg.isDirectoryAt hd) hs (hg.node _ _ hn) hf
  | link hd hs hn hf _ ih => exact .link (hg.isDirectoryAt hd) hs (hg.node _ _ hn) hf ih
  | child hd hs hn hl _ ih => exact .child (hg.isDirectoryAt hd) hs (hg.node _ _ hn) hl ih

theorem locate (h : Grown t t') (hl : t.locate p = .ok l) : t'.locate p = .ok l := by
  obtain ⟨hrefused, hleads⟩ := locate_eq_ok.mp hl
  rw [origin, ← h.workingDirectory] at hleads
  exact locate_eq_ok.mpr ⟨hrefused, h.leads rfl hleads⟩

theorem lookup (h : Grown t t') {n : Node} (hn : t.lookup p = .ok n) : t'.lookup p = .ok n := by
  obtain ⟨l, hl, hn⟩ := lookup_eq_ok.mp hn
  exact lookup_eq_ok.mpr ⟨l, h.locate hl, h.node l n hn⟩

end Grown

/-! ### Files -/

theorem read_eq_ok : t.read p = .ok content ↔ t.lookup p = .ok (.file content) := by
  refine Except.bind_eq_ok.trans ⟨?_, fun h => ⟨_, h, rfl⟩⟩
  rintro ⟨n, hn, h⟩
  cases n with
  | file _ =>
    cases h
    exact hn
  | directory => cases h
  | link _ => cases h

theorem read_eq_of_node (hl : t.locate p = .ok l) (hn : t.node? l = some (.file content)) :
    t.read p = .ok content :=
  read_eq_ok.mpr (lookup_eq_ok.mpr ⟨l, hl, hn⟩)

theorem IsPathName.locate {name : String} (h : IsPathName name)
    (hd : t.isDirectoryAt t.workingDirectory = true) {n : Node}
    (hn : t.node? (t.workingDirectory ++ [name]) = some n) (hl : ∀ target, n ≠ .link target) :
    t.locate ⟨name⟩ = .ok (t.workingDirectory ++ [name]) := by
  rw [FileTree.locate, FileTree.locateWith, h.allowed, steps_name h.isName, origin,
    Path.not_isAbsolute_mk h.isName.2]
  exact (Leads.child hd h.isStep hn hl (.done ..)).walk_eq

theorem IsPathName.read {name : String} (h : IsPathName name)
    (hd : t.isDirectoryAt t.workingDirectory = true)
    (hn : t.node? (t.workingDirectory ++ [name]) = some (.file content)) :
    t.read ⟨name⟩ = .ok content :=
  read_eq_of_node (h.locate hd hn nofun) hn

theorem isFile_iff : t.isFile p = true ↔ ∃ content, t.read p = .ok content := by
  simp only [read_eq_ok]
  rw [isFile]
  cases t.lookup p with
  | error e => simp
  | ok n => cases n <;> simp

theorem Grown.read (h : Grown t t') (hr : t.read p = .ok content) : t'.read p = .ok content :=
  read_eq_ok.mpr (h.lookup (read_eq_ok.mp hr))

theorem Grown.isFile (h : Grown t t') (hf : t.isFile p = true) : t'.isFile p = true := by
  obtain ⟨content, hr⟩ := isFile_iff.mp hf
  exact isFile_iff.mpr ⟨content, h.read hr⟩

theorem IsPathName.isFile_eq_false {name : String} (h : IsPathName name)
    (hd : t.isDirectoryAt t.workingDirectory = true)
    (hn : t.node? (t.workingDirectory ++ [name]) = none) : t.isFile ⟨name⟩ = false := by
  have hsteps : steps ⟨name⟩ = [] ++ [name] := steps_name h.isName
  rw [FileTree.isFile, lookup_of_locateWith h.isStep hsteps (h.locateWith hd) (by simp [hn]), hn]

section
variable {name : String} (h : IsPathName name) (hd : t.isDirectoryAt t.workingDirectory = true)
  (hn : t.node? (t.workingDirectory ++ [name]) = none)
include h hd hn

theorem IsPathName.locate_of_nothing : t.locate ⟨name⟩ = .error .notFound := by
  rw [FileTree.locate, FileTree.locateWith, h.allowed, steps_name h.isName, origin,
    Path.not_isAbsolute_mk h.isName.2]
  exact walk_nothing hd h.isStep hn

theorem IsPathName.read?_of_nothing : t.read? ⟨name⟩ = none := by
  rw [FileTree.read?, FileTree.read, FileTree.lookup, h.locate_of_nothing hd hn]
  rfl

theorem IsPathName.exists?_of_nothing : t.exists? ⟨name⟩ = false := by
  rw [FileTree.exists?, FileTree.lookup, h.locate_of_nothing hd hn]
  rfl

end

theorem Grown.read_eq (h : Grown t t') {n : Node} (hn : t.lookup p = .ok n) :
    t'.read p = t.read p := by
  rw [FileTree.read, FileTree.read, hn, h.lookup hn]

theorem slash_of_refuseSlash (h : t.refuseSlash p = .ok ()) :
    p.text.toList.getLast? ≠ some '/' := by
  intro hslash
  rw [refuseSlash, if_pos hslash] at h
  obtain ⟨l, -, h⟩ := Except.bind_eq_ok.mp h
  split at h <;> cases h

theorem createNew_iff : t.createNew p content = .ok t' ↔
    p.text.toList.getLast? ≠ some '/' ∧
      ∃ l, t.freeLocation p = .ok l ∧ t' = t.put l (.file content) := by
  constructor
  · intro h
    obtain ⟨_, hslash, h⟩ := Except.bind_eq_ok.mp h
    obtain ⟨l, hl, h⟩ := Except.bind_eq_ok.mp h
    exact ⟨slash_of_refuseSlash hslash, l, hl, (Except.ok.inj h).symm⟩
  · rintro ⟨hslash, l, hl, rfl⟩
    exact createNew_eq_ok hslash hl

theorem createNew_of_taken (hslash : p.text.toList.getLast? ≠ some '/')
    (hl : t.locateWith ⟨false, true⟩ p = .ok l) (hn : (t.node? l).isSome = true) :
    t.createNew p content = .error .alreadyExists := by
  rw [createNew, refuseSlash_eq_ok hslash, freeLocation, hl]
  simp only [bind, Except.bind, hn, if_true]

/-! ### Directories -/

/-- The tree has grown by directories alone. -/
structure OnlyDirectories (t t' : FileTree) : Prop extends Grown t t' where
  new : ∀ k n, t'.node? k = some n → t.node? k = some n ∨ n = .directory

namespace OnlyDirectories

theorem refl (t : FileTree) : OnlyDirectories t t := ⟨.refl t, fun _ _ h => .inl h⟩

theorem trans (h : OnlyDirectories t t') (h' : OnlyDirectories t' t'') : OnlyDirectories t t'' := by
  refine ⟨h.toGrown.trans h'.toGrown, fun k n hn => ?_⟩
  rcases h'.new k n hn with hn | hd
  · exact h.new k n hn
  · exact .inr hd

theorem put_directory (hk : t.node? k = none) : OnlyDirectories t (t.put k .directory) := by
  refine ⟨.put hk _, fun x n hx => ?_⟩
  rw [node?_put t (ne_nil_of_node?_eq_none hk)] at hx
  split at hx
  · exact .inr (Option.some.inj hx).symm
  · exact .inl hx

theorem file_iff (h : OnlyDirectories t t') :
    t'.node? k = some (.file content) ↔ t.node? k = some (.file content) :=
  ⟨fun hn => (h.new k _ hn).resolve_right Node.noConfusion, h.node k _⟩

theorem put (h : OnlyDirectories t t') (hk : t'.node? k = none) (n : Node) :
    OnlyDirectories (t.put k n) (t'.put k n) := by
  have hnil := ne_nil_of_node?_eq_none hk
  refine ⟨⟨h.workingDirectory, fun x m hx => ?_⟩, fun x m hx => ?_⟩
  · rw [node?_put t hnil] at hx
    rw [node?_put t' hnil]
    split at hx
    · rwa [if_pos ‹_›]
    · rw [if_neg ‹_›, h.node x m hx]
  · rw [node?_put t' hnil] at hx
    rw [node?_put t hnil]
    split at hx
    · exact .inl (by rwa [if_pos ‹_›])
    · rw [if_neg ‹_›]
      exact h.new x m hx

end OnlyDirectories

theorem onlyDirectories_createDirectories (t : FileTree) (p : Path) :
    OnlyDirectories t ((createDirectories p).on t).2 := by
  refine keeps_createDirectories (fun t₁ t₂ p h h₂ => ?_) p t (.refl t)
  obtain ⟨l, hl, h₂⟩ := Except.bind_eq_ok.mp h₂
  cases h₂
  exact h.trans (.put_directory (freeLocation_eq_ok.mp hl).2)

theorem on_createDirectories_of_taken (hp : p.text ≠ "")
    (hm : t.makeDirectory p = .error .alreadyExists) (hd : t.isDirectory p = true) :
    (createDirectories p).on t = (.ok (), t) := by
  rw [on_createDirectories_eq, if_neg hp, hm]
  simp only
  rw [on_makeOrFind, hm]
  simp only [hd, if_true]

theorem withoutSlashes_name {name : String} (h : Path.IsName name) :
    withoutSlashes ⟨name⟩ = ⟨name⟩ := by
  have hkept : name.toList.reverse.dropWhile (· == '/') = name.toList.reverse := by
    cases hrev : name.toList.reverse with
    | nil => rfl
    | cons c cs =>
      have hc : c ∈ name.toList := List.mem_reverse.mp (hrev ▸ List.mem_cons_self ..)
      refine List.dropWhile_cons_of_neg fun hslash => ?_
      obtain rfl := eq_of_beq hslash
      exact h.2 hc
  rw [withoutSlashes, hkept, List.reverse_reverse]
  split
  · rfl
  · rw [String.ofList_toList]

/-- A name alone is made in the working directory. -/
theorem IsPathName.on_createDirectories {name : String} (h : IsPathName name)
    (hd : t.isDirectoryAt t.workingDirectory = true)
    (hn : t.node? (t.workingDirectory ++ [name]) = none) : (createDirectories ⟨name⟩).on t =
      (.ok (), t.put (t.workingDirectory ++ [name]) .directory) := by
  have hne : (⟨name⟩ : Path).text ≠ "" := h.isName.1
  have hmade : t.makeDirectory ⟨name⟩ =
      .ok (t.put (t.workingDirectory ++ [name]) .directory) := by
    rw [makeDirectory, withoutSlashes_name h.isName, freeLocation_eq_ok.mpr ⟨h.locateWith hd, hn⟩]
    rfl
  rw [on_createDirectories_eq, if_neg hne, hmade]
  simp only
  rw [on_makeOrFind, hmade]

end ForcingData.FileTree
