import ForcingData.Proofs.FileTree.Disk
import ForcingData.Proofs.FileTree.Walk
import ForcingData.Proofs.Path
import ForcingData.Proofs.Results

/-! # Replacing a file

`on_replace`: either nothing changes, or the new content is all there where the path leads, and
nothing else has changed. -/

namespace ForcingData.FileTree

/-! ### Nodes -/

theorem put_put (t : FileTree) (l : Location) (m n : Node) : (t.put l m).put l n = t.put l n := by
  unfold put
  congr 1
  refine Dict.ext_get? fun k => ?_
  simp only [Dict.get?_insert]
  split <;> rfl

theorem removeAt_put {t : FileTree} {l : Location} (h : t.node? l = none) (n : Node) :
    (t.put l n).removeAt l = t := by
  have hget : t.nodes.get? l = none := by
    rwa [node?, if_neg (ne_nil_of_node?_eq_none h)] at h
  unfold put removeAt
  cases t
  congr 1
  refine Dict.ext_get? fun k => ?_
  simp only [Dict.get?_erase, Dict.get?_insert]
  by_cases hk : k = l
  · subst hk
    rw [if_pos rfl]
    exact hget.symm
  · rw [if_neg hk, if_neg hk]

theorem freeLocation_eq_ok {t : FileTree} {p : Path} {l : Location} :
    t.freeLocation p = .ok l ↔ t.locateWith ⟨false, true⟩ p = .ok l ∧ t.node? l = none := by
  rw [freeLocation, Except.bind_eq_ok]
  constructor
  · rintro ⟨k, hk, h⟩
    split at h
    · cases h
    · rename_i hnone
      cases h
      exact ⟨hk, Option.not_isSome_iff_eq_none.mp hnone⟩
  · rintro ⟨hl, hn⟩
    exact ⟨l, hl, by simp [hn]⟩

theorem refuseSlash_eq_ok {t : FileTree} {p : Path} (h : p.text.toList.getLast? ≠ some '/') :
    t.refuseSlash p = .ok () := by
  rw [refuseSlash, if_neg h]
  rfl

theorem directoryOf_join {p : Path} {rest last : List Char} (hp : p.text.toList = '/' :: rest)
    (hlast : (Text.splitChars (· == '/') rest).getLast? = some last)
    (hvoid : Path.isVoid last = false) {name : String} (hname : Path.IsName name)
    (hhere : name ≠ ".") : directoryOf (p.join ⟨name⟩) = p := by
  rw [directoryOf, Path.parent?_join hp hlast hvoid hname hhere]
  refine if_neg fun he => ?_
  rw [he] at hp
  cases hp

/-! ### Temporary files -/

theorem freeName_eq (t : FileTree) (directory : Path) : ∀ fuel n,
    ∃ k : Nat, t.freeName directory fuel n = directory.join ⟨s!".tmp{k}"⟩
  | 0, n => ⟨n, rfl⟩
  | fuel + 1, n => by
    unfold freeName
    simp only
    split
    · exact freeName_eq t directory fuel (n + 1)
    · exact ⟨n, rfl⟩

theorem isName_temporary (k : Nat) : Path.IsName s!".tmp{k}" := by
  have htext : s!".tmp{k}".toList = ['.', 't', 'm', 'p'] ++ Nat.toDigits 10 k := by
    simp [toString]
  refine ⟨fun he => ?_, fun hm => ?_⟩
  · rw [he] at htext
    simp at htext
  · rw [htext, List.mem_append] at hm
    rcases hm with hm | hm
    · revert hm
      decide
    · have := Nat.isDigit_of_mem_toDigits (by decide) (by decide) hm
      revert this
      decide

theorem getLast?_join {name : String} (hname : Path.IsName name) (p : Path) :
    (p.join ⟨name⟩).text.toList.getLast? ≠ some '/' := by
  obtain ⟨before, _, htext⟩ := Path.exists_join (Path.not_isAbsolute_mk hname.2) p
  exact fun he => hname.not_isOpen _ htext (.inr he)

/-! ### All or nothing -/

section
variable {t : FileTree} {temporary : Path} {k : Location}

theorem createNew_eq_ok (hslash : temporary.text.toList.getLast? ≠ some '/') {content : ByteArray}
    (h : t.freeLocation temporary = .ok k) :
    t.createNew temporary content = .ok (t.put k (.file content)) := by
  rw [createNew, refuseSlash_eq_ok hslash, h]
  rfl

theorem locateWith_put_new (h : t.freeLocation temporary = .ok k) (content : ByteArray)
    (follow missing : Bool) :
    (t.put k (.file content)).locateWith ⟨follow, missing⟩ temporary = .ok k := by
  obtain ⟨hk, hnone⟩ := freeLocation_eq_ok.mp h
  obtain ⟨hrefused, hleads⟩ := locateWith_eq_ok.mp hk
  exact locateWith_eq_ok.mpr ⟨hrefused, hleads.put_new hnone (fun _ => Node.noConfusion) missing⟩

theorem node?_put_new {l : Location} (h : t.node? l = none) (n : Node) :
    (t.put l n).node? l = some n :=
  node?_put_self (ne_nil_of_node?_eq_none h) n

theorem write_new (hslash : temporary.text.toList.getLast? ≠ some '/')
    (h : t.freeLocation temporary = .ok k) (before content : ByteArray) :
    (t.put k (.file before)).write temporary content = .ok (t.put k (.file content)) := by
  have hnone := (freeLocation_eq_ok.mp h).2
  rw [write, refuseSlash_eq_ok hslash, locateWith_put_new h]
  simp only [bind, Except.bind, node?_put_new hnone, put_put]

theorem remove_new (h : t.freeLocation temporary = .ok k) (content : ByteArray) :
    (t.put k (.file content)).remove temporary = .ok t := by
  have hnone := (freeLocation_eq_ok.mp h).2
  rw [remove, locateWith_put_new h]
  simp [bind, Except.bind, isDirectoryAt, node?_put_new hnone, removeAt_put hnone]

theorem rename_new (h : t.freeLocation temporary = .ok k) (content : ByteArray) {p : Path}
    {t' : FileTree} (hr : (t.put k (.file content)).rename temporary p = .ok t') :
    ∃ l, (t.put k (.file content)).locateWith ⟨false, true⟩ p = .ok l ∧
      t' = t.put l (.file content) := by
  have hnone := (freeLocation_eq_ok.mp h).2
  rw [rename, locateWith_put_new h] at hr
  obtain ⟨_, hk, hr⟩ := Except.bind_eq_ok.mp hr
  obtain rfl := Except.ok.inj hk
  obtain ⟨l, hl, hr⟩ := Except.bind_eq_ok.mp hr
  rw [node?_put_new hnone] at hr
  refine ⟨l, hl, ?_⟩
  split at hr
  · cases ‹some _ = none›
  · cases hr
  · cases ‹some _ = some _›
    rw [removeAt_put hnone] at hr
    exact (Except.ok.inj hr).symm

theorem rename_new_eq_ok (h : t.freeLocation temporary = .ok k) (content : ByteArray) {p : Path}
    {l : Location} (hl : (t.put k (.file content)).locateWith ⟨false, true⟩ p = .ok l)
    (hd : (t.put k (.file content)).isDirectoryAt l = false) :
    (t.put k (.file content)).rename temporary p = .ok (t.put l (.file content)) := by
  have hnone := (freeLocation_eq_ok.mp h).2
  have hnode : (t.put k (.file content)).node? l ≠ some .directory := by
    simpa [isDirectoryAt] using hd
  rw [rename, locateWith_put_new h, hl]
  simp only [bind, Except.bind, node?_put_new hnone]
  rw [removeAt_put hnone]

theorem rename_new_directory (h : t.freeLocation temporary = .ok k) (content : ByteArray)
    {p : Path} {l : Location}
    (hl : (t.put k (.file content)).locateWith ⟨false, true⟩ p = .ok l)
    (hd : (t.put k (.file content)).isDirectoryAt l = true) :
    (t.put k (.file content)).rename temporary p = .error .isDirectory := by
  have hnone := (freeLocation_eq_ok.mp h).2
  rw [rename, locateWith_put_new h, hl]
  simp only [bind, Except.bind, node?_put_new hnone, isDirectoryAt_iff.mp hd]

/-- Without a temporary file nothing is done. -/
theorem on_replace_of_not_free {p : Path}
    (htemporary : t.freeName (directoryOf p) t.nodes.size 0 = temporary)
    (hslash : temporary.text.toList.getLast? ≠ some '/') {e : OsError}
    (h : t.freeLocation temporary = .error e) (content : ByteArray) :
    (replace p content).on t = (.error e, t) := by
  have hcreate : t.createNew temporary ByteArray.empty = .error e := by
    rw [createNew, refuseSlash_eq_ok hslash, h]
    rfl
  rw [replace, Disk.on_bind, Disk.on_get]
  simp only [htemporary]
  rw [Disk.on_bind, Disk.on_change, hcreate]

/-- Once there is a temporary file, all depends on whether it can be moved. -/
theorem on_replace_of_free {p : Path}
    (htemporary : t.freeName (directoryOf p) t.nodes.size 0 = temporary)
    (hslash : temporary.text.toList.getLast? ≠ some '/')
    (h : t.freeLocation temporary = .ok k) (content : ByteArray) : (replace p content).on t =
      match (t.put k (.file content)).rename temporary p with
      | .ok t' => (.ok (), t')
      | .error e => (.error e, t) := by
  rw [replace, Disk.on_bind, Disk.on_get]
  simp only [htemporary]
  rw [Disk.on_bind, Disk.on_change, createNew_eq_ok hslash h]
  simp only
  rw [Disk.on_bind, Disk.on_change, write_new hslash h]
  simp only [Disk.on, ExceptT.run]
  cases (t.put k (.file content)).rename temporary p with
  | error e =>
    rw [remove_new h]
    rfl
  | ok t' => rfl

end

theorem slash_freeName (t : FileTree) (directory : Path) (fuel n : Nat) :
    (t.freeName directory fuel n).text.toList.getLast? ≠ some '/' := by
  obtain ⟨k, hk⟩ := freeName_eq t directory fuel n
  rw [hk]
  exact getLast?_join (isName_temporary k) _

theorem on_replace (t : FileTree) (p : Path) (content : ByteArray) :
    (∃ e, (replace p content).on t = (.error e, t)) ∨
      ∃ k l, t.node? k = none ∧
        (t.put k (.file content)).locateWith ⟨false, true⟩ p = .ok l ∧
        (replace p content).on t = (.ok (), t.put l (.file content)) := by
  have hslash := slash_freeName t (directoryOf p) t.nodes.size 0
  generalize htemporary : t.freeName (directoryOf p) t.nodes.size 0 = temporary at hslash
  cases hfree : t.freeLocation temporary with
  | error e => exact .inl ⟨e, on_replace_of_not_free htemporary hslash hfree content⟩
  | ok k =>
    rw [on_replace_of_free htemporary hslash hfree]
    cases hr : (t.put k (.file content)).rename temporary p with
    | error e => exact .inl ⟨e, rfl⟩
    | ok t' =>
      obtain ⟨l, hl, rfl⟩ := rename_new hfree content hr
      exact .inr ⟨k, l, (freeLocation_eq_ok.mp hfree).2, hl, rfl⟩

/-- Where there is no file left over and no directory in the way, a file is replaced. -/
theorem on_replace_eq_ok {t : FileTree} {p : Path} {k l : Location} {content : ByteArray}
    (hfree : t.freeLocation ((directoryOf p).join ⟨".tmp0"⟩) = .ok k)
    (hl : (t.put k (.file content)).locateWith ⟨false, true⟩ p = .ok l)
    (hd : (t.put k (.file content)).isDirectoryAt l = false) :
    (replace p content).on t = (.ok (), t.put l (.file content)) := by
  have hname : s!".tmp{0}" = ".tmp0" := rfl
  have htemporary : t.freeName (directoryOf p) t.nodes.size 0 =
      (directoryOf p).join ⟨".tmp0"⟩ := by
    rw [← hname] at hfree ⊢
    unfold freeName
    split
    · rfl
    · simp only [hfree]
  have hname' : Path.IsName ".tmp0" := ⟨by decide, by decide⟩
  have hslash := getLast?_join hname' (directoryOf p)
  rw [on_replace_of_free htemporary hslash hfree, rename_new_eq_ok hfree content hl hd]

end ForcingData.FileTree
