import ForcingData.Proofs.FileTree.Growth
import Mathlib.Data.List.TakeWhile

/-! # Directories that were made

Where making a directory succeeds, with all directories on the way to it, the directory is there
(`isDirectory_of_createDirectories`), slashes at the end of its path or not. -/

namespace ForcingData.FileTree
open Text

variable {t t' : FileTree} {p : Path}

/-! ### Slashes at the end -/

/-- A path that is no slash, and the slashes behind it. -/
structure IsSlashed (p q : Path) (slashes : List Char) : Prop where
  text : p.text.toList = q.text.toList ++ slashes
  slash : ∀ c ∈ slashes, c = '/'
  nonempty : q.text.toList ≠ []
  last : q.text.toList.getLast? ≠ some '/'

theorem withoutSlashes_cases (p : Path) :
    withoutSlashes p = p ∨ ∃ slashes, IsSlashed p (withoutSlashes p) slashes := by
  have hsplit := List.takeWhile_append_dropWhile (p := (· == '/')) (l := p.text.toList.reverse)
  cases hrest : p.text.toList.reverse.dropWhile (· == '/') with
  | nil => exact .inl (by rw [withoutSlashes, hrest]; rfl)
  | cons last before =>
    have hcut : withoutSlashes p = ⟨String.ofList (last :: before).reverse⟩ := by
      rw [withoutSlashes, hrest]
      cases hrev : (last :: before).reverse with
      | nil => simp at hrev
      | cons => rfl
    refine .inr ⟨(p.text.toList.reverse.takeWhile (· == '/')).reverse, ?_, fun c hc => ?_, ?_, ?_⟩
    · rw [hcut, String.toList_ofList, ← List.reverse_append, ← hrest, hsplit, List.reverse_reverse]
    · simpa using List.mem_takeWhile_imp (List.mem_reverse.mp hc)
    · rw [hcut, String.toList_ofList]
      simp
    · have hlast : last ≠ '/' := by
        have hhead := List.head?_dropWhile_not (· == '/') p.text.toList.reverse
        rw [hrest] at hhead
        simpa using hhead
      rw [hcut, String.toList_ofList, List.reverse_cons, List.getLast?_concat]
      simpa using hlast

namespace IsSlashed
variable {q : Path} {slashes : List Char} (h : IsSlashed p q slashes)
include h

theorem steps_eq : steps q = namesOf q.text.toList := by
  have hlast : (splitAt '/' q.text).getLast? ≠ some "" := by
    intro hlast
    rw [splitAt, List.getLast?_map] at hlast
    obtain ⟨piece, hpiece, hempty⟩ := Option.map_eq_some_iff.mp hlast
    obtain rfl : piece = [] := by simpa using hempty
    obtain ⟨c, hc, hslash⟩ := Path.getLast?_of_splitChars hpiece h.nonempty
    exact h.last (by rw [hc, beq_iff_eq.mp hslash])
  unfold steps
  simp only [hlast, decide_false, Bool.false_and, Bool.false_eq_true, if_false]
  rfl

theorem namesOf_eq : namesOf p.text.toList = namesOf q.text.toList := by
  rw [h.text]
  cases hslashes : slashes with
  | nil => rw [List.append_nil]
  | cons c rest =>
    have hslash := h.slash
    rw [hslashes] at hslash
    obtain rfl := hslash c (List.mem_cons_self ..)
    have hnone : namesOf rest = [] := by
      refine List.filter_eq_nil_iff.mpr fun name hname => ?_
      obtain ⟨piece, hpiece, rfl⟩ := List.mem_map.mp hname
      have hempty : piece = [] := by
        refine List.eq_nil_iff_forall_not_mem.mpr fun d hd => ?_
        have hd' := hslash d (List.mem_cons_of_mem _ (Path.mem_of_mem_splitChars hpiece d hd))
        simpa [hd'] using Path.eq_false_of_mem_splitChars hpiece d hd
      simp [hempty]
    rw [namesOf, Path.splitChars_append_cons (by rfl), List.map_append, List.filter_append]
    exact (congrArg (namesOf q.text.toList ++ ·) hnone).trans (List.append_nil _)

theorem isAbsolute_eq : p.isAbsolute = q.isAbsolute := by
  rw [Path.isAbsolute, Path.isAbsolute, h.text, List.head?_append_of_ne_nil _ h.nonempty]

end IsSlashed

/-- Slashes at the end are at most a step to where one is already. -/
theorem steps_withoutSlashes (p : Path) :
    steps p = steps (withoutSlashes p) ∨ steps p = steps (withoutSlashes p) ++ ["."] := by
  rcases withoutSlashes_cases p with heq | ⟨slashes, h⟩
  · rw [heq]
    exact .inl rfl
  · have hnames : (splitAt '/' p.text).filter (· ≠ "") = steps (withoutSlashes p) := by
      rw [h.steps_eq, ← h.namesOf_eq]
      rfl
    rw [steps]
    simp only [hnames]
    split
    · exact .inr rfl
    · exact .inl rfl

theorem origin_withoutSlashes (t : FileTree) (p : Path) :
    t.origin (withoutSlashes p) = t.origin p := by
  rcases withoutSlashes_cases p with heq | ⟨slashes, h⟩
  · rw [heq]
  · rw [origin, origin, h.isAbsolute_eq]

/-! ### What is there -/

theorem isDirectory_of_makeDirectory (hp : refused? p = none) (h : t.makeDirectory p = .ok t') :
    t'.isDirectory p = true := by
  obtain ⟨l, hl, h⟩ := Except.bind_eq_ok.mp h
  obtain rfl := Except.ok.inj h
  obtain ⟨hl, hnothing⟩ := freeLocation_eq_ok.mp hl
  obtain ⟨-, hleads⟩ := locateWith_eq_ok.mp hl
  have hnode : (t.put l .directory).node? l = some .directory :=
    node?_put_self (ne_nil_of_node?_eq_none hnothing) _
  have hnew : Leads (t.put l .directory) ⟨true, false⟩ linkLimit (t.origin p)
      (steps (withoutSlashes p)) l :=
    origin_withoutSlashes t p ▸ hleads.put_new hnothing (fun _ => Node.noConfusion) false
  have hlocate : (t.put l .directory).locate p = .ok l := by
    rw [locate, locateWith, hp]
    show walk _ _ _ (t.origin p) (steps p) = _
    rcases steps_withoutSlashes p with hsteps | hsteps
    · rw [hsteps, hnew.walk_eq]
    · obtain ⟨links, hwalk⟩ := hnew.walk_append
      rw [hsteps, hwalk _ _ (List.cons_ne_nil _ _), walk_here (isDirectoryAt_iff.mpr hnode), walk]
  rw [isDirectory, lookup_eq_ok.mpr ⟨l, hlocate, hnode⟩]

theorem isDirectory_of_makeOrFind (hp : refused? p = none)
    (h : (makeOrFind p).on t = (.ok (), t')) : t'.isDirectory p = true := by
  rw [on_makeOrFind] at h
  split at h
  · rename_i t₁ hmade
    cases h
    exact isDirectory_of_makeDirectory hp hmade
  · split at h
    · rename_i hd
      cases h
      exact hd
    · cases h

theorem isDirectory_of_createDirectories (hp : refused? p = none)
    (h : (createDirectories p).on t = (.ok (), t')) : t'.isDirectory p = true := by
  have hne : p.text ≠ "" := (refused?_eq_none.mp hp).2.1
  rw [on_createDirectories_eq, if_neg hne] at h
  split at h
  · -- a directory on the way was missing
    split at h
    · cases h
    · rw [Disk.on_bind] at h
      split at h
      · exact isDirectory_of_makeOrFind hp h
      · cases h
  · exact isDirectory_of_makeOrFind hp h

end ForcingData.FileTree
