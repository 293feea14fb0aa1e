import ForcingData.Proofs.FileTree.Growth

/-! # Rooted file trees

In a rooted tree whatever there is stands in a directory, up to the root. Then a path that is
followed to its end leads to a file or a directory, never to a link (`IsRooted.locate`). Making
directories, writing files and making links leave a tree rooted, so that all trees that are laid out
are rooted (`isRooted_of_ofLayout?`). -/

namespace ForcingData.FileTree

structure IsRooted (t : FileTree) : Prop where
  nodes : ∀ l, (t.node? l).isSome = true → t.isDirectoryAt l.dropLast = true
  workingDirectory : t.isDirectoryAt t.workingDirectory = true

theorem isDirectoryAt_root (t : FileTree) : t.isDirectoryAt [] = true :=
  isDirectoryAt_iff.mpr (if_pos rfl)

theorem isRooted_iff {t : FileTree} : t.IsRooted ↔
    (∀ l ∈ t.nodes.keys, t.isDirectoryAt l.dropLast = true) ∧
      t.isDirectoryAt t.workingDirectory = true := by
  constructor
  · intro h
    refine ⟨fun l hl => ?_, h.workingDirectory⟩
    by_cases hnil : l = []
    · rw [hnil]
      exact t.isDirectoryAt_root
    · exact h.nodes l ((isSome_node? hnil).mpr hl)
  · rintro ⟨hnodes, hworking⟩
    refine ⟨fun l hl => ?_, hworking⟩
    by_cases hnil : l = []
    · rw [hnil]
      exact t.isDirectoryAt_root
    · exact hnodes l ((isSome_node? hnil).mp hl)

instance (t : FileTree) : Decidable t.IsRooted := decidable_of_iff _ isRooted_iff.symm

section
variable {t t' : FileTree} {ending : Ending} {links : Nat} {here l : Location}
  {names : List String} {p : Path}

/-! ### Where paths lead -/

theorem Leads.eq_of_file {content : ByteArray} (h : Leads t ending links here names l)
    (hn : t.node? here = some (.file content)) : l = here := by
  cases h with
  | done => rfl
  | stay hd | up hd | nothing hd | lastLink hd | link hd | child hd =>
    cases (isDirectoryAt_iff.mp hd).symm.trans hn

namespace IsRooted
variable (h : t.IsRooted)
include h

theorem origin (p : Path) : t.isDirectoryAt (t.origin p) = true := by
  rw [FileTree.origin]
  split
  · exact t.isDirectoryAt_root
  · exact h.workingDirectory

theorem up (hd : t.isDirectoryAt here = true) : t.isDirectoryAt here.dropLast = true :=
  h.nodes here (by rw [isDirectoryAt_iff.mp hd]; rfl)

/-- A walk that starts in a directory and follows every link ends at a file or a directory. -/
theorem leads (hl : Leads t ⟨true, false⟩ links here names l)
    (hd : t.isDirectoryAt here = true) :
    t.isDirectoryAt l = true ∨ ∃ content, t.node? l = some (.file content) := by
  induction hl with
  | done => exact .inl hd
  | stay _ _ ih => exact ih hd
  | up _ _ ih => exact ih (h.up hd)
  | nothing _ _ _ hm => cases hm
  | lastLink _ _ _ hf => cases hf
  | link _ _ _ _ _ ih =>
    refine ih ?_
    split
    · exact t.isDirectoryAt_root
    · exact hd
  | @child _ _ _ _ _ n _ _ hn hlink hrest ih =>
    cases n with
    | directory => exact ih (isDirectoryAt_iff.mpr hn)
    | link target => exact absurd rfl (hlink target)
    | file content =>
      obtain rfl := hrest.eq_of_file hn
      exact .inr ⟨content, hn⟩

theorem locate (hl : t.locate p = .ok l) :
    t.isDirectoryAt l = true ∨ ∃ content, t.node? l = some (.file content) :=
  h.leads (locate_eq_ok.mp hl).2 (h.origin p)

theorem parent (hl : Leads t ending links here names l) (hd : t.isDirectoryAt here = true) :
    t.isDirectoryAt l.dropLast = true := by
  induction hl with
  | done => exact h.up hd
  | stay _ _ ih => exact ih hd
  | up _ _ ih => exact ih (h.up hd)
  | nothing hd' | lastLink hd' =>
    rw [List.dropLast_concat]
    exact hd'
  | link _ _ _ _ _ ih =>
    refine ih ?_
    split
    · exact t.isDirectoryAt_root
    · exact hd
  | @child _ here _ name _ n _ _ hn hlink hrest ih =>
    cases n with
    | directory => exact ih (isDirectoryAt_iff.mpr hn)
    | link target => exact absurd rfl (hlink target)
    | file content =>
      obtain rfl := hrest.eq_of_file hn
      exact h.nodes _ (by rw [hn]; rfl)

/-! ### Changes -/

theorem put (hparent : t.isDirectoryAt l.dropLast = true) (hl : t.node? l ≠ some .directory)
    (n : Node) : (t.put l n).IsRooted := by
  have hnil : l ≠ [] := by
    rintro rfl
    exact hl (if_pos rfl)
  have hkeep : ∀ k, t.isDirectoryAt k = true → (t.put l n).isDirectoryAt k = true := by
    intro k hk
    have hk := isDirectoryAt_iff.mp hk
    rw [isDirectoryAt_iff, node?_put t hnil, if_neg (by rintro rfl; exact hl hk), hk]
  refine ⟨fun k hk => hkeep _ ?_, hkeep _ h.workingDirectory⟩
  rw [node?_put t hnil] at hk
  split at hk
  · subst_vars
    exact hparent
  · exact h.nodes k hk

theorem put_free (hl : t.freeLocation p = .ok l) (n : Node) : (t.put l n).IsRooted := by
  obtain ⟨hlocate, hfree⟩ := freeLocation_eq_ok.mp hl
  refine h.put (h.parent (locateWith_eq_ok.mp hlocate).2 (h.origin p)) ?_ n
  rw [hfree]
  exact nofun

theorem makeDirectory (ht : t.makeDirectory p = .ok t') : t'.IsRooted := by
  obtain ⟨l, hl, ht⟩ := Except.bind_eq_ok.mp ht
  cases ht
  exact h.put_free hl _

theorem write {content : ByteArray} (ht : t.write p content = .ok t') : t'.IsRooted := by
  obtain ⟨_, _, ht⟩ := Except.bind_eq_ok.mp ht
  obtain ⟨l, hl, ht⟩ := Except.bind_eq_ok.mp ht
  split at ht
  · cases ht
  · rename_i hn
    cases ht
    exact h.put (h.parent (locateWith_eq_ok.mp hl).2 (h.origin p)) hn _

end IsRooted

/-! ### Layouts -/

theorem isRooted_bare (l : Location) : (bare l).IsRooted := by
  have hprefix : ∀ k, k <+: l → (bare l).isDirectoryAt k = true := fun k hk => by
    rw [isDirectoryAt_iff, node?_bare, if_pos hk]
  refine ⟨fun k hk => hprefix _ ?_, hprefix _ (List.prefix_refl l)⟩
  rw [node?_bare] at hk
  split at hk
  · exact (List.dropLast_prefix k).trans ‹_›
  · cases hk

theorem isRooted_of_ofLayout? {layout : Layout} (h : ofLayout? l layout = some t) :
    t.IsRooted := by
  have hkeep := keeps_lay (fun _ _ _ h => h.makeDirectory) (fun _ _ _ _ h => h.write)
    (fun _ _ _ _ h hk => h.put_free hk _) layout _ (isRooted_bare l)
  unfold ofLayout? at h
  split at h
  · rename_i heq
    rw [heq] at hkeep
    cases h
    exact hkeep
  · cases h

end
end ForcingData.FileTree
