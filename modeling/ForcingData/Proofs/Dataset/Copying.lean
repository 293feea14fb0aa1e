import ForcingData.Dataset.Loader
import ForcingData.Proofs.FileTree.Growth

/-! # Copying files

A copied file is a new one with the content of its source (`on_copyNew`). `copyFile` makes
directories, copies the data and then the header, if there is one (`on_copyFile`); whatever comes of
it, all that there was is left as it was (`grown_copyFile`). -/

namespace ForcingData
open FileTree

variable {t t' : FileTree} {source target p : Path} {content : ByteArray} {l : Location}

/-! ### One file -/

/-- Without a new file nothing is done. -/
theorem on_copyNew_of_not_created {n : Node} (hopen : t.lookup source = .ok n) {e : OsError}
    (hcreate : t.createNew target ByteArray.empty = .error e) : (copyNew source target).on t =
      (.error (if e = .alreadyExists then .alreadyExists target else .failed source target e),
        t) := by
  rw [copyNew, Disk.on_bind, Disk.on_ask, hopen]
  simp only [Except.mapError]
  rw [Disk.on_bind, Disk.on_change, hcreate]
  cases e <;> rfl

/-- Once there is the new file, the source is read. -/
theorem on_copyNew_of_free {n : Node} (hopen : t.lookup source = .ok n)
    (hslash : target.text.toList.getLast? ≠ some '/') (hfree : t.freeLocation target = .ok l) :
    (copyNew source target).on t =
      match t.read source with
      | .ok content => (.ok (), t.put l (.file content))
      | .error e => (.error (.failed source target e), t.put l (.file ByteArray.empty)) := by
  have hgrown := Grown.put (freeLocation_eq_ok.mp hfree).2 (.file ByteArray.empty)
  rw [copyNew, Disk.on_bind, Disk.on_ask, hopen]
  simp only [Except.mapError]
  rw [Disk.on_bind, Disk.on_change, createNew_eq_ok hslash hfree]
  simp only
  rw [Disk.on_bind, Disk.on_ask, hgrown.read_eq hopen]
  cases t.read source with
  | error e => rfl
  | ok content =>
    simp only
    rw [Disk.on_change, write_new hslash hfree]

/-- Either nothing is done, or there is a new file, and all of the content is in it unless the
source can not be read. -/
theorem on_copyNew (source target : Path) (t : FileTree) :
    (∃ e, (copyNew source target).on t = (.error e, t) ∧
        ∀ p, e = .alreadyExists p → p = target) ∨
      ∃ l, t.freeLocation target = .ok l ∧
        ((∃ content, t.read source = .ok content ∧
            (copyNew source target).on t = (.ok (), t.put l (.file content))) ∨
          ∃ e, (copyNew source target).on t =
            (.error (.failed source target e), t.put l (.file ByteArray.empty))) := by
  cases hopen : t.lookup source with
  | error e =>
    refine .inl ⟨.failed source target e, ?_, nofun⟩
    rw [copyNew, Disk.on_bind, Disk.on_ask, hopen]
    rfl
  | ok n =>
    cases hcreate : t.createNew target ByteArray.empty with
    | error e =>
      refine .inl ⟨_, on_copyNew_of_not_created hopen hcreate, fun p hp => ?_⟩
      split at hp
      · exact (WriteError.alreadyExists.inj hp).symm
      · cases hp
    | ok t₁ =>
      obtain ⟨hslash, l, hfree, -⟩ := createNew_iff.mp hcreate
      have hcopy := on_copyNew_of_free hopen hslash hfree
      refine .inr ⟨l, hfree, ?_⟩
      cases hread : t.read source with
      | error e => exact .inr ⟨e, by rw [hcopy, hread]⟩
      | ok content => exact .inl ⟨content, rfl, by rw [hcopy, hread]⟩

theorem read_of_put (h : t.freeLocation p = .ok l) (content : ByteArray) :
    (t.put l (.file content)).read p = .ok content :=
  read_eq_of_node (locateWith_put_new h content true false)
    (node?_put_new (freeLocation_eq_ok.mp h).2 _)

theorem grown_copyNew (source target : Path) (t : FileTree) :
    Grown t ((copyNew source target).on t).2 := by
  rcases on_copyNew source target t with ⟨e, h, -⟩ | ⟨l, hfree, ⟨content, -, h⟩ | ⟨e, h⟩⟩
  · rw [h]
    exact .refl t
  · rw [h]
    exact .put (freeLocation_eq_ok.mp hfree).2 _
  · rw [h]
    exact .put (freeLocation_eq_ok.mp hfree).2 _

/-! ### A file and its header -/

/-- The data, and then the header that is there by then. -/
def copyBoth (source target : Path) : Disk WriteError Unit := do
  copyNew source target
  if (← get).isFile (Dataset.sidecar source) then
    copyNew (Dataset.sidecar source) (Dataset.sidecar target)

theorem on_copyBoth (source target : Path) (t : FileTree) : (copyBoth source target).on t =
    match (copyNew source target).on t with
    | (.error e, t') => (.error e, t')
    | (.ok (), t') =>
      if t'.isFile (Dataset.sidecar source) then
        (copyNew (Dataset.sidecar source) (Dataset.sidecar target)).on t'
      else (.ok (), t') := by
  rw [copyBoth, Disk.on_bind]
  rcases (copyNew source target).on t with ⟨e | _, t'⟩
  · rfl
  · simp only
    rw [Disk.on_bind, Disk.on_get]
    simp only
    split <;> rfl

theorem on_copyFile_of_made {parent : Path} {t₁ : FileTree} (hp : target.parent? = some parent)
    (hmade : (createDirectories parent).on t = (.ok (), t₁)) :
    (copyFile source target).on t = (copyBoth source target).on t₁ := by
  simp only [copyFile, hp]
  rw [Disk.on_bind, Disk.on_withError, hmade]
  rfl

theorem on_copyFile (source target : Path) (t : FileTree) : ∃ t₁, OnlyDirectories t t₁ ∧
    ((∃ parent e, (copyFile source target).on t = (.error (.failed source parent e), t₁)) ∨
      (copyFile source target).on t = (copyBoth source target).on t₁) := by
  cases hp : target.parent? with
  | none => exact ⟨t, .refl t, .inr (by simp only [copyFile, hp]; rfl)⟩
  | some parent =>
    have hmade := onlyDirectories_createDirectories t parent
    rcases hr : (createDirectories parent).on t with ⟨e | _, t₁⟩ <;> rw [hr] at hmade
    · refine ⟨t₁, hmade, .inl ⟨parent, e, ?_⟩⟩
      simp only [copyFile, hp]
      rw [Disk.on_bind, Disk.on_withError, hr]
      rfl
    · exact ⟨t₁, hmade, .inr (on_copyFile_of_made hp hr)⟩

theorem grown_copyFile (source target : Path) (t : FileTree) :
    Grown t ((copyFile source target).on t).2 := by
  obtain ⟨t₁, hmade, ⟨parent, e, h⟩ | h⟩ := on_copyFile source target t
  · rw [h]
    exact hmade.toGrown
  · have hdata := hmade.toGrown.trans (grown_copyNew source target t₁)
    rw [h, on_copyBoth]
    rcases hr : (copyNew source target).on t₁ with ⟨e | _, t₂⟩ <;> rw [hr] at hdata
    · exact hdata
    · simp only
      split
      · exact hdata.trans (grown_copyNew _ _ t₂)
      · exact hdata

/-- The two files of a copy that came to its end. -/
theorem exists_of_copyFile (h : (copyFile source target).on t = (.ok (), t')) :
    ∃ t₁ l content, OnlyDirectories t t₁ ∧ t₁.freeLocation target = .ok l ∧
      t₁.read source = .ok content ∧
      ((t₁.put l (.file content)).isFile (Dataset.sidecar source) = false ∧
          t' = t₁.put l (.file content) ∨
        ∃ k header, (t₁.put l (.file content)).read (Dataset.sidecar source) = .ok header ∧
          (t₁.put l (.file content)).freeLocation (Dataset.sidecar target) = .ok k ∧
          t' = (t₁.put l (.file content)).put k (.file header)) := by
  obtain ⟨t₁, hmade, ⟨parent, e, h₁⟩ | h₁⟩ := on_copyFile source target t
  · cases h₁.symm.trans h
  rw [h₁, on_copyBoth] at h
  rcases on_copyNew source target t₁ with ⟨e, h₂, -⟩ | ⟨l, hfree, ⟨content, hread, h₂⟩ | ⟨e, h₂⟩⟩
  · rw [h₂] at h
    cases h
  · rw [h₂] at h
    refine ⟨t₁, l, content, hmade, hfree, hread, ?_⟩
    simp only at h
    split at h
    · right
      rcases on_copyNew (Dataset.sidecar source) (Dataset.sidecar target)
        (t₁.put l (.file content)) with ⟨e, h₃, -⟩ | ⟨k, hk, ⟨header, hheader, h₃⟩ | ⟨e, h₃⟩⟩
      · cases h₃.symm.trans h
      · exact ⟨k, header, hheader, hk, (Prod.mk.inj (h₃.symm.trans h)).2.symm⟩
      · cases h₃.symm.trans h
    · exact .inl ⟨Bool.eq_false_iff.mpr ‹_›, (Prod.mk.inj h).2.symm⟩
  · rw [h₂] at h
    cases h

theorem read_of_copyFile (h : (copyFile source target).on t = (.ok (), t')) :
    ∃ content, t'.read source = .ok content ∧ t'.read target = .ok content := by
  obtain ⟨t₁, l, content, -, hfree, hread, hheader⟩ := exists_of_copyFile h
  have hsource := (Grown.put (freeLocation_eq_ok.mp hfree).2 (.file content)).read hread
  have htarget := read_of_put hfree content
  rcases hheader with ⟨-, rfl⟩ | ⟨k, header, -, hk, rfl⟩
  · exact ⟨content, hsource, htarget⟩
  · have hgrown := Grown.put (freeLocation_eq_ok.mp hk).2 (.file header)
    exact ⟨content, hgrown.read hsource, hgrown.read htarget⟩

/-! ### Refused copies -/

/-- A copy that is refused for the data leaves nothing but directories; one that is refused for the
header leaves the data. -/
theorem left_of_refused (h : (copyFile source target).on t = (.error (.alreadyExists p), t')) :
    (p = target ∧ OnlyDirectories t t') ∨
      (p = Dataset.sidecar target ∧ ∃ l content, t.node? l = none ∧ t'.locate target = .ok l ∧
        t'.read source = .ok content ∧ t'.read target = .ok content ∧
        OnlyDirectories (t.put l (.file content)) t') := by
  obtain ⟨t₁, hmade, ⟨parent, e, h₁⟩ | h₁⟩ := on_copyFile source target t
  · cases h₁.symm.trans h
  rw [h₁, on_copyBoth] at h
  -- the data is refused, or is copied before the header is refused
  rcases on_copyNew source target t₁ with
    ⟨e, h₂, htarget⟩ | ⟨l, hfree, ⟨content, hread, h₂⟩ | ⟨e, h₂⟩⟩
  · rw [h₂] at h
    cases h
    exact .inl ⟨htarget p rfl, hmade⟩
  · rw [h₂] at h
    simp only at h
    split at h
    · right
      rcases on_copyNew (Dataset.sidecar source) (Dataset.sidecar target)
        (t₁.put l (.file content)) with ⟨e, h₃, htarget⟩ | ⟨k, -, ⟨header, -, h₃⟩ | ⟨e, h₃⟩⟩
      · cases h₃.symm.trans h
        have hnothing := (freeLocation_eq_ok.mp hfree).2
        exact ⟨htarget p rfl, l, content, hmade.nothing hnothing,
          locateWith_put_new hfree content true false, (Grown.put hnothing _).read hread,
          read_of_put hfree content, hmade.put hnothing _⟩
      · cases h₃.symm.trans h
      · cases h₃.symm.trans h
    · cases h
  · rw [h₂] at h
    cases h

/-! ### A header without its data -/

/-- Data with a header, and the header of data that is not there. -/
def headerAlone : FileTree where
  nodes := Dict.ofList [(["co2.nc"], .file "values".toUTF8),
    (["co2.nc.header.json"], .file "header".toUTF8),
    (["out.nc.header.json"], .file "header".toUTF8)]
  workingDirectory := []

theorem on_copyFile_headerAlone : (copyFile ⟨"co2.nc"⟩ ⟨"out.nc"⟩).on headerAlone =
    (.error (.alreadyExists ⟨"out.nc.header.json"⟩),
      headerAlone.put ["out.nc"] (.file "values".toUTF8)) := by
  have hparent : (Path.mk "out.nc").parent? = some ⟨""⟩ := by decide
  have hsource : IsPathName "co2.nc" := by decide
  have htarget : IsPathName "out.nc" := by decide
  have hheader : IsPathName "co2.nc.header.json" := by decide
  have hother : IsPathName "out.nc.header.json" := by decide
  have hread : headerAlone.read ⟨"co2.nc"⟩ = .ok "values".toUTF8 := hsource.read rfl (by decide)
  have hdata : (copyNew ⟨"co2.nc"⟩ ⟨"out.nc"⟩).on headerAlone =
      (.ok (), headerAlone.put ["out.nc"] (.file "values".toUTF8)) := by
    rw [on_copyNew_of_free (read_eq_ok.mp hread) (by decide)
      (freeLocation_eq_ok.mpr ⟨htarget.locateWith rfl, by decide⟩), hread]
    rfl
  have hfound : (headerAlone.put ["out.nc"] (.file "values".toUTF8)).read
      ⟨"co2.nc.header.json"⟩ = .ok "header".toUTF8 := hheader.read rfl (by decide)
  have htaken : (headerAlone.put ["out.nc"] (.file "values".toUTF8)).createNew
      ⟨"out.nc.header.json"⟩ ByteArray.empty = .error .alreadyExists :=
    createNew_of_taken (by decide) (hother.locateWith rfl) (by decide)
  have hsidecar : Dataset.sidecar ⟨"co2.nc"⟩ = ⟨"co2.nc.header.json"⟩ := by decide
  rw [on_copyFile_of_made hparent rfl, on_copyBoth, hdata]
  simp only
  rw [hsidecar, if_pos (isFile_iff.mpr ⟨_, hfound⟩)]
  exact on_copyNew_of_not_created (read_eq_ok.mp hfound) htaken

/-- The data is there, although its copy was refused. -/
theorem left_of_refused_sample :
    (copyFile ⟨"co2.nc"⟩ ⟨"out.nc"⟩).on headerAlone =
        (.error (.alreadyExists (Dataset.sidecar ⟨"out.nc"⟩)),
          headerAlone.put ["out.nc"] (.file "values".toUTF8)) ∧
      ∃ l content, headerAlone.node? l = none ∧
        (headerAlone.put ["out.nc"] (.file "values".toUTF8)).locate ⟨"out.nc"⟩ = .ok l ∧
        (headerAlone.put ["out.nc"] (.file "values".toUTF8)).read ⟨"out.nc"⟩ = .ok content := by
  refine ⟨on_copyFile_headerAlone, ?_⟩
  rcases left_of_refused on_copyFile_headerAlone with
    ⟨htarget, -⟩ | ⟨-, l, content, hnothing, hl, -, hread, -⟩
  · exact absurd htarget (by decide)
  · exact ⟨l, content, hnothing, hl, hread⟩

end ForcingData
