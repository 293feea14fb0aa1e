import ForcingData.Proofs.FileTree.Growth
import ForcingData.Proofs.FileTree.Inside

/-! # Work in one place

Work on a file tree is confined to a place (`Confined`) if nothing changes anywhere else, all
directories stay and no link comes to stand in that place. Paths lead to the same directories
afterwards (`Confined.locate`), and the path of a name in the place still leads to what has that
name there (`Confined.eq_of_locateWith`), so whatever is written there next is confined as well. -/

namespace ForcingData.FileTree
open Disk

/-! ### Names in a directory -/

section
variable {t : FileTree} {directory : Path} {l k : Location} {ending : Ending} {name : String}

theorem node?_removeAt (t : FileTree) {l : Location} (hl : l ≠ []) (k : Location) :
    (t.removeAt l).node? k = if k = l then none else t.node? k := by
  unfold node? removeAt
  by_cases hk : k = []
  · subst hk
    rw [if_pos rfl, if_neg (Ne.symm hl), if_pos rfl]
  · rw [if_neg hk, if_neg hk, Dict.get?_erase]

theorem refused?_of_join (hp : directory.text ≠ "") (hname : Path.IsName name)
    (h : refused? (directory.join ⟨name⟩) = none) : refused? directory = none := by
  obtain ⟨before, htext, hcases⟩ := Path.exists_join_name hp hname
  obtain ⟨hnul, -, hshort⟩ := refused?_eq_none.mp h
  rw [← String.utf8Len_toList] at hshort
  rw [htext] at hnul hshort
  rw [String.utf8Len_append, String.utf8Len_cons] at hshort
  rw [List.mem_append, List.mem_cons] at hnul
  refine refused?_eq_none.mpr ⟨fun hm => ?_, hp, ?_⟩
  · rcases hcases with hd | hd
    · rw [hd] at hm
      exact hnul (.inl hm)
    · rw [hd, List.mem_append, List.mem_singleton] at hm
      rcases hm with hm | hm
      · exact hnul (.inl hm)
      · cases hm
  · rw [← String.utf8Len_toList]
    rcases hcases with hd | hd
    · rw [hd]
      omega
    · rw [hd, String.utf8Len_append, String.utf8Len_cons, String.utf8Len_nil]
      omega

theorem exists_locate_of_join (hp : directory.text ≠ "") (hname : IsNodeName name)
    (h : t.locateWith ending (directory.join ⟨name⟩) = .ok k) :
    ∃ l, t.locate directory = .ok l ∧ t.isDirectoryAt l = true := by
  obtain ⟨hrefused, hleads⟩ := locateWith_eq_ok.mp h
  obtain ⟨names, hjoin, hsteps⟩ := steps_join hp hname.isName
  rw [hjoin, origin_join hp hname.isName] at hleads
  obtain ⟨l, hl, hd, -⟩ := hleads.exists_append hname.not_here hname.not_up
  refine ⟨l, locate_eq_ok.mpr ⟨refused?_of_join hp hname.isName hrefused, ?_⟩, hd⟩
  rcases hsteps with hsteps | hsteps
  · rwa [hsteps]
  · obtain ⟨links, hwalk⟩ := hl.walk_append
    rw [hsteps, ← walk_eq_ok, hwalk _ _ (List.cons_ne_nil _ _), walk_here hd, walk]

/-- The path of a name in a directory leads to what has this name there, if that is no link. -/
theorem eq_of_locateWith_join (hl : t.locate directory = .ok l) (hname : IsNodeName name)
    (hlink : ∀ target, t.node? (l ++ [name]) ≠ some (.link target))
    (h : t.locateWith ending (directory.join ⟨name⟩) = .ok k) :
    k = l ++ [name] ∧ t.isDirectoryAt l = true := by
  obtain ⟨links, hwalk⟩ := locateWith_join hl hname.isName (locateWith_eq_ok.mp h).1
  rw [hwalk, walk_eq_ok] at h
  cases h with
  | stay => exact absurd rfl hname.not_here
  | up => exact absurd rfl hname.not_up
  | nothing hd | lastLink hd => exact ⟨rfl, hd⟩
  | link _ _ hn => exact absurd hn (hlink _)
  | child hd _ _ _ hend =>
    cases hend
    exact ⟨rfl, hd⟩

theorem withoutSlashes_eq {p : Path} (h : p.text.toList.getLast? ≠ some '/') :
    withoutSlashes p = p := by
  have hkept : (p.text.toList.reverse.dropWhile (· == '/')).reverse = p.text.toList := by
    cases hrev : p.text.toList.reverse with
    | nil => exact (List.reverse_eq_nil_iff.mp hrev).symm
    | cons c cs =>
      have hlast : p.text.toList.getLast? = some c := by
        rw [List.getLast?_eq_head?_reverse, hrev, List.head?_cons]
      have hc : ¬(c == '/') = true := fun hc => h (by rw [hlast, beq_iff_eq.mp hc])
      rw [List.dropWhile_cons, if_neg hc, ← hrev, List.reverse_reverse]
  rw [withoutSlashes, hkept]
  split
  · rfl
  · rw [String.ofList_toList]

/-- Making a directory in one that is there never fails because something is missing. -/
theorem makeDirectory_join_ne_notFound (hl : t.locate directory = .ok l)
    (hd : t.isDirectoryAt l = true) (hname : IsNodeName name) :
    t.makeDirectory (directory.join ⟨name⟩) ≠ .error .notFound := by
  intro h
  rw [makeDirectory, withoutSlashes_eq (getLast?_join hname.isName directory)] at h
  rcases Except.bind_eq_error.mp h with hfree | ⟨k, -, hput⟩
  swap
  · cases hput
  rcases Except.bind_eq_error.mp hfree with hlocate | ⟨k, -, htaken⟩
  · -- the path of the new directory is refused for another reason, or leads to its place
    cases hrefused : refused? (directory.join ⟨name⟩) with
    | some e =>
      rw [locateWith, hrefused] at hlocate
      obtain rfl := Except.error.inj hlocate
      have htext : (directory.join ⟨name⟩).text = "" := by
        unfold refused? at hrefused
        split_ifs at hrefused with hnul hempty
        · cases hrefused
        · exact hempty
        · cases hrefused
      exact text_join_ne (text_ne_of_locate hl) hname.isName htext
    | none =>
      obtain ⟨links, hwalk⟩ := locateWith_join hl hname.isName hrefused
      rw [hwalk] at hlocate
      by_cases hlong : nameLimit < name.utf8ByteSize
      · rw [walk, if_neg (by simp [hd]), if_neg hname.not_here, if_neg hname.not_up,
          if_pos hlong] at hlocate
        cases hlocate
      · rw [walk_last hd ⟨hname.not_here, hname.not_up, Nat.not_lt.mp hlong⟩] at hlocate
        cases hlocate
  · split at htaken <;> cases htaken

end

/-! ### Confined work -/

/-- No node in the place is a link. -/
def LinkFree (t : FileTree) (place : Location) : Prop :=
  ∀ k target, place <+: k → t.node? k ≠ some (.link target)

theorem linkFree_of_nodes {t : FileTree} (h : ∀ e ∈ t.nodes.toList, ∀ target, e.2 ≠ .link target)
    (place : Location) : t.LinkFree place := by
  intro k target _ hn
  unfold node? at hn
  split at hn
  · cases hn
  · exact h _ ((Dict.mem_toList _).mpr hn) target rfl

/-- Nothing changes but in the place, and there no directory goes and no link appears. -/
structure Confined (place : Location) (t t' : FileTree) : Prop where
  workingDirectory : t'.workingDirectory = t.workingDirectory
  outside : ∀ k, ¬place <+: k → t'.node? k = t.node? k
  directory : ∀ k, t.isDirectoryAt k = true → t'.isDirectoryAt k = true
  linkFree : t'.LinkFree place

/-- What is at other places than these stays there. -/
def SameBut (places : List Location) (t t' : FileTree) : Prop :=
  ∀ k, k ∉ places → t'.node? k = t.node? k

namespace Confined
variable {place k l : Location} {t t' : FileTree} {n : Node} {p directory : Path}

theorem refl (h : t.LinkFree place) : Confined place t t :=
  ⟨rfl, fun _ _ => rfl, fun _ h => h, h⟩

/-- Anything but a link may be put in the place, except where a directory is. -/
theorem put (h : Confined place t t') (hplace : place ≠ []) (hk : place <+: k)
    (hd : t'.node? k ≠ some .directory) (hn : ∀ target, n ≠ .link target) :
    Confined place t (t'.put k n) := by
  have hnil : k ≠ [] := by
    rintro rfl
    exact hplace (List.prefix_nil.mp hk)
  refine ⟨h.workingDirectory, fun x hx => ?_, fun x hx => ?_, fun x target hx => ?_⟩
  · rw [node?_put t' hnil, if_neg (by rintro rfl; exact hx hk), h.outside x hx]
  · have hx := isDirectoryAt_iff.mp (h.directory x hx)
    rw [isDirectoryAt_iff, node?_put t' hnil, if_neg (by rintro rfl; exact hd hx), hx]
  · rw [node?_put t' hnil]
    split
    · exact fun he => hn target (Option.some.inj he)
    · exact h.linkFree x target hx

theorem removeAt (h : Confined place t t') (hplace : place ≠ []) (hk : place <+: k)
    (hd : t'.node? k ≠ some .directory) : Confined place t (t'.removeAt k) := by
  have hnil : k ≠ [] := by
    rintro rfl
    exact hplace (List.prefix_nil.mp hk)
  refine ⟨h.workingDirectory, fun x hx => ?_, fun x hx => ?_, fun x target hx => ?_⟩
  · rw [node?_removeAt t' hnil, if_neg (by rintro rfl; exact hx hk), h.outside x hx]
  · have hx := isDirectoryAt_iff.mp (h.directory x hx)
    rw [isDirectoryAt_iff, node?_removeAt t' hnil, if_neg (by rintro rfl; exact hd hx), hx]
  · rw [node?_removeAt t' hnil]
    split
    · exact nofun
    · exact h.linkFree x target hx

theorem locate (h : Confined place t t') (hfree : t.LinkFree place) (hl : t.locate p = .ok l)
    (hd : t.isDirectoryAt l = true) : t'.locate p = .ok l := by
  obtain ⟨hrefused, hleads⟩ := locate_eq_ok.mp hl
  have hkeeps : ∀ k n, t.node? k = some n → (∀ content, n ≠ .file content) →
      t'.node? k = some n := by
    intro k n hn hfile
    cases n with
    | file content => exact absurd rfl (hfile content)
    | directory => exact isDirectoryAt_iff.mp (h.directory k (isDirectoryAt_iff.mpr hn))
    | link target => rw [h.outside k fun hk => hfree k target hk hn, hn]
  refine locate_eq_ok.mpr ⟨hrefused, ?_⟩
  rw [origin, h.workingDirectory]
  exact hleads.of_keeps hkeeps rfl hd

end Confined

theorem sameBut_put {t : FileTree} {k : Location} {n : Node} (hk : k ≠ []) :
    SameBut [k] t (t.put k n) := by
  intro x hx
  rw [node?_put t hk, if_neg (by simpa using hx)]

theorem SameBut.mono {places places' : List Location} {t t' : FileTree} (h : SameBut places t t')
    (hsub : places ⊆ places') : SameBut places' t t' :=
  fun k hk => h k fun hmem => hk (hsub hmem)

/-! ### The place of a name in a directory -/

section
variable {t t' : FileTree} {parent : Path} {l k : Location} {name file : String} {ending : Ending}
  {content : ByteArray} (hfree : t.LinkFree (l ++ [name])) (hl : t.locate parent = .ok l)
  (hd : t.isDirectoryAt l = true) (hname : IsNodeName name) (h : Confined (l ++ [name]) t t')
include hfree hl hd hname h

theorem Confined.eq_of_locateWith (hfile : IsNodeName file)
    (hk : t'.locateWith ending ((parent.join ⟨name⟩).join ⟨file⟩) = .ok k) :
    k = l ++ [name] ++ [file] := by
  have hne := text_join_ne (text_ne_of_locate hl) hname.isName
  obtain ⟨m, hm, -⟩ := exists_locate_of_join hne hfile hk
  obtain ⟨rfl, -⟩ := eq_of_locateWith_join (h.locate hfree hl hd) hname
    (fun target => h.linkFree _ target (List.prefix_refl _)) hm
  exact (eq_of_locateWith_join hm hfile
    (fun target => h.linkFree _ target (List.prefix_append _ _)) hk).1

theorem Confined.makeDirectory {t₁ : FileTree}
    (ht : t'.makeDirectory (parent.join ⟨name⟩) = .ok t₁) :
    Confined (l ++ [name]) t t₁ ∧ SameBut [l ++ [name]] t' t₁ := by
  rw [FileTree.makeDirectory, withoutSlashes_eq (getLast?_join hname.isName parent)] at ht
  obtain ⟨k, hk, ht⟩ := Except.bind_eq_ok.mp ht
  obtain rfl := Except.ok.inj ht
  obtain ⟨hk, hnothing⟩ := freeLocation_eq_ok.mp hk
  obtain ⟨rfl, -⟩ := eq_of_locateWith_join (h.locate hfree hl hd) hname
    (fun target => h.linkFree _ target (List.prefix_refl _)) hk
  exact ⟨h.put (by simp) (List.prefix_refl _) (by simp [hnothing]) fun _ => Node.noConfusion,
    sameBut_put (by simp)⟩

theorem Confined.createDirectories :
    Confined (l ++ [name]) t ((createDirectories (parent.join ⟨name⟩)).on t').2 ∧
      SameBut [l ++ [name]] t' ((FileTree.createDirectories (parent.join ⟨name⟩)).on t').2 := by
  have hmissing := makeDirectory_join_ne_notFound (h.locate hfree hl hd) (h.directory l hd) hname
  have hfind : Confined (l ++ [name]) t ((makeOrFind (parent.join ⟨name⟩)).on t').2 ∧
      SameBut [l ++ [name]] t' ((makeOrFind (parent.join ⟨name⟩)).on t').2 := by
    rw [on_makeOrFind]
    cases ht : t'.makeDirectory (parent.join ⟨name⟩) with
    | error e => exact ⟨h, fun _ _ => rfl⟩
    | ok t₁ => exact h.makeDirectory hfree hl hd hname ht
  generalize parent.join ⟨name⟩ = p at hmissing hfind ⊢
  rw [on_createDirectories_eq]
  split
  · exact ⟨h, fun _ _ => rfl⟩
  · split
    · -- the directory that it is made in is there, so none is made on the way
      exact absurd ‹_› hmissing
    · exact hfind

theorem Confined.ensureFile (hfile : IsNodeName file) {t₁ : FileTree}
    (ht : t'.ensureFile ((parent.join ⟨name⟩).join ⟨file⟩) = .ok t₁) :
    Confined (l ++ [name]) t t₁ ∧ SameBut [l ++ [name] ++ [file]] t' t₁ := by
  obtain ⟨_, -, ht⟩ := Except.bind_eq_ok.mp ht
  obtain ⟨k, hk, ht⟩ := Except.bind_eq_ok.mp ht
  obtain rfl := h.eq_of_locateWith hfree hl hd hname hfile hk
  split at ht
  · cases ht
  · obtain rfl := Except.ok.inj ht
    exact ⟨h, fun _ _ => rfl⟩
  · rename_i hn
    obtain rfl := Except.ok.inj ht
    refine ⟨h.put (by simp) (List.prefix_append _ _) ?_ nofun, sameBut_put (by simp)⟩
    rw [hn]
    exact nofun

theorem Confined.write (hfile : IsNodeName file) {t₁ : FileTree}
    (ht : t'.write ((parent.join ⟨name⟩).join ⟨file⟩) content = .ok t₁) :
    Confined (l ++ [name]) t t₁ ∧ SameBut [l ++ [name] ++ [file]] t' t₁ ∧
      t₁.node? (l ++ [name] ++ [file]) = some (.file content) := by
  obtain ⟨_, -, ht⟩ := Except.bind_eq_ok.mp ht
  obtain ⟨k, hk, ht⟩ := Except.bind_eq_ok.mp ht
  obtain rfl := h.eq_of_locateWith hfree hl hd hname hfile hk
  split at ht
  · cases ht
  · rename_i hn
    obtain rfl := Except.ok.inj ht
    exact ⟨h.put (by simp) (List.prefix_append _ _) hn nofun, sameBut_put (by simp),
      node?_put_self (by simp) _⟩

/-- A file, and no directory, is moved from one name to another. -/
theorem Confined.rename {other : String} (hfile : IsNodeName file) (hother : IsNodeName other)
    (hn : t'.node? (l ++ [name] ++ [file]) = some (.file content)) {t₁ : FileTree}
    (ht : t'.rename ((parent.join ⟨name⟩).join ⟨file⟩) ((parent.join ⟨name⟩).join ⟨other⟩) =
      .ok t₁) : Confined (l ++ [name]) t t₁ ∧
        SameBut [l ++ [name] ++ [file], l ++ [name] ++ [other]] t' t₁ := by
  obtain ⟨k, hk, ht⟩ := Except.bind_eq_ok.mp ht
  obtain ⟨k', hk', ht⟩ := Except.bind_eq_ok.mp ht
  obtain rfl := h.eq_of_locateWith hfree hl hd hname hfile hk
  obtain rfl := h.eq_of_locateWith hfree hl hd hname hother hk'
  rw [hn] at ht
  split at ht
  · cases ht
  · cases ht
  · rename_i n _ hsome hno
    obtain rfl := Option.some.inj hsome
    obtain rfl := Except.ok.inj ht
    have hgone := h.removeAt (by simp) (List.prefix_append _ _) (by rw [hn]; exact nofun)
    refine ⟨hgone.put (by simp) (List.prefix_append _ _) ?_ nofun, fun k hk => ?_⟩
    · rw [node?_removeAt t' (by simp)]
      split
      · exact nofun
      · exact hno
    · obtain ⟨hfrom, hto⟩ : k ≠ _ ∧ k ≠ _ := by simpa using hk
      rw [node?_put _ (by simp), if_neg (by simpa using hto), node?_removeAt t' (by simp),
        if_neg (by simpa using hfrom)]

end
end ForcingData.FileTree
