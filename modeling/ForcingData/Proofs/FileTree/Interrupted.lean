import ForcingData.Proofs.FileTree.Beside
import ForcingData.Proofs.FileTree.Named
import Mathlib.Logic.Relation

/-! # Replacing a file, interrupted

The steps of replacing a file (`Replacing.Step`), each of which may fail, and after each of which
the process may die; `replace` takes these steps (`steps_of_replace`). Until the temporary file is
moved nothing is there but this file more, and it has all the content by then (`Inv.of_steps`). -/

namespace ForcingData.FileTree.Replacing

/-- How much of the temporary file is written. -/
inductive Progress
  | begun
  | complete
  | synced
deriving DecidableEq

/-- How far the replacing of a file has come. -/
inductive Stage
  | start
  | writing (progress : Progress) (temporary : Path)
  /-- Something has failed; the temporary file is removed, if that can be done. -/
  | failing (e : OsError) (temporary : Path)
  | failed (e : OsError)
  | moved

/-- One step, with any name for the temporary file that is allowed. What a step that has failed, or
that was not finished, has written of the content may be anything. -/
inductive Step (allowed : String → Prop) (p : Path) (content : ByteArray) :
    Stage × FileTree → Stage × FileTree → Prop
  | create {t t' : FileTree} {name : String} (hname : IsNodeName name) (hallowed : allowed name)
      (h : t.createNew ((directoryOf p).join ⟨name⟩) ByteArray.empty = .ok t') :
      Step allowed p content (.start, t) (.writing .begun ((directoryOf p).join ⟨name⟩), t')
  | notCreated (t : FileTree) (e : OsError) : Step allowed p content (.start, t) (.failed e, t)
  | writePart {t t' : FileTree} {temporary : Path} (part : ByteArray)
      (h : t.write temporary part = .ok t') :
      Step allowed p content (.writing .begun temporary, t) (.writing .begun temporary, t')
  | writeAll {t t' : FileTree} {temporary : Path} (h : t.write temporary content = .ok t') :
      Step allowed p content (.writing .begun temporary, t) (.writing .complete temporary, t')
  | sync (t : FileTree) (temporary : Path) :
      Step allowed p content (.writing .complete temporary, t) (.writing .synced temporary, t)
  | move {t t' : FileTree} {temporary : Path} (h : t.rename temporary p = .ok t') :
      Step allowed p content (.writing .synced temporary, t) (.moved, t')
  | fail (t : FileTree) (progress : Progress) (temporary : Path) (e : OsError) :
      Step allowed p content (.writing progress temporary, t) (.failing e temporary, t)
  | remove {t t' : FileTree} {e : OsError} {temporary : Path}
      (h : t.remove temporary = .ok t') :
      Step allowed p content (.failing e temporary, t) (.failed e, t')
  | leave (t : FileTree) (e : OsError) (temporary : Path) :
      Step allowed p content (.failing e temporary, t) (.failed e, t)

variable {allowed : String → Prop} {p temporary : Path} {content : ByteArray} {t t' : FileTree}
  {k : Location} {a b : Stage × FileTree}

/-! ### What the steps keep -/

/-- The place of a temporary file, where there was nothing before. -/
structure Temporary (allowed : String → Prop) (p : Path) (t : FileTree) (temporary : Path)
    (k : Location) : Prop where
  named : ∃ name, IsNodeName name ∧ allowed name ∧ temporary = (directoryOf p).join ⟨name⟩
  free : t.freeLocation temporary = .ok k

theorem Temporary.slash (h : Temporary allowed p t temporary k) :
    temporary.text.toList.getLast? ≠ some '/' := by
  obtain ⟨name, hname, -, rfl⟩ := h.named
  exact getLast?_join hname.isName _

theorem Temporary.nothing (h : Temporary allowed p t temporary k) : t.node? k = none :=
  (freeLocation_eq_ok.mp h.free).2

theorem Temporary.getLast? (h : Temporary allowed p t temporary k) :
    ∃ name, allowed name ∧ IsNodeName name ∧ k.getLast? = some name := by
  obtain ⟨name, hname, hallowed, rfl⟩ := h.named
  obtain ⟨names, hsteps⟩ := exists_steps_join (directoryOf p) hname.isName
  have hk := (freeLocation_eq_ok.mp h.free).1
  exact ⟨name, hallowed, hname, getLast?_of_locateWith hname.not_here hname.not_up hsteps hk⟩

/-- What is there at each stage, if it was `t` at the start. -/
inductive Inv (allowed : String → Prop) (p : Path) (content : ByteArray) (t : FileTree) :
    Stage × FileTree → Prop
  | start : Inv allowed p content t (.start, t)
  | writing {progress : Progress} {temporary : Path} {k : Location} {part : ByteArray}
      (hk : Temporary allowed p t temporary k) (hpart : progress ≠ .begun → part = content) :
      Inv allowed p content t (.writing progress temporary, t.put k (.file part))
  | failing {e : OsError} {temporary : Path} {k : Location} {part : ByteArray}
      (hk : Temporary allowed p t temporary k) :
      Inv allowed p content t (.failing e temporary, t.put k (.file part))
  | failed (e : OsError) : Inv allowed p content t (.failed e, t)
  | leftOver {e : OsError} {temporary : Path} {k : Location} {part : ByteArray}
      (hk : Temporary allowed p t temporary k) :
      Inv allowed p content t (.failed e, t.put k (.file part))
  | moved {l : Location} (hl : t.locateWith ⟨false, true⟩ p = .ok l)
      (hd : t.node? l ≠ some .directory) :
      Inv allowed p content t (.moved, t.put l (.file content))

theorem exists_of_createNew (hslash : temporary.text.toList.getLast? ≠ some '/')
    (h : t.createNew temporary content = .ok t') :
    ∃ k, t.freeLocation temporary = .ok k ∧ t' = t.put k (.file content) := by
  rw [createNew, refuseSlash_eq_ok hslash] at h
  obtain ⟨_, -, h⟩ := Except.bind_eq_ok.mp h
  obtain ⟨k, hk, h⟩ := Except.bind_eq_ok.mp h
  exact ⟨k, hk, (Except.pure_eq_ok.mp h).symm⟩

/-- Only what is no directory is replaced. -/
theorem Temporary.exists_of_rename (hk : Temporary allowed p t temporary k)
    (h : (t.put k (.file content)).rename temporary p = .ok t') :
    ∃ l, t.locateWith ⟨false, true⟩ p = .ok l ∧ t.node? l ≠ some .directory ∧
      t' = t.put l (.file content) := by
  have hb : Beside (· = k) t (t.put k (.file content)) := .put (.inl hk.nothing) content
  obtain ⟨l, hl, rfl⟩ := rename_new hk.free content h
  refine ⟨l, (hb.locateWith rfl).mp hl, fun hd => ?_, rfl⟩
  rw [rename_new_directory hk.free content hl (hb.isDirectoryAt (isDirectoryAt_iff.mpr hd))] at h
  cases h

theorem Inv.step (h : Inv allowed p content t a) (hs : Step allowed p content a b) :
    Inv allowed p content t b := by
  cases hs with
  | create hname hallowed hcreate =>
    cases h
    have hslash := getLast?_join hname.isName (directoryOf p)
    obtain ⟨k, hk, rfl⟩ := exists_of_createNew hslash hcreate
    exact .writing ⟨⟨_, hname, hallowed, rfl⟩, hk⟩ fun hne => absurd rfl hne
  | notCreated e =>
    cases h
    exact .failed _
  | writePart part hwrite =>
    cases h with
    | writing hk =>
      rw [write_new hk.slash hk.free] at hwrite
      cases hwrite
      exact .writing hk fun hne => absurd rfl hne
  | writeAll hwrite =>
    cases h with
    | writing hk =>
      rw [write_new hk.slash hk.free] at hwrite
      cases hwrite
      exact .writing hk fun _ => rfl
  | sync =>
    cases h with
    | writing hk hpart => exact .writing hk fun _ => hpart nofun
  | move hmove =>
    cases h with
    | writing hk hpart =>
      obtain rfl := hpart nofun
      obtain ⟨l, hl, hd, rfl⟩ := hk.exists_of_rename hmove
      exact .moved hl hd
  | fail =>
    cases h with
    | writing hk => exact .failing hk
  | remove hremove =>
    cases h with
    | failing hk =>
      rw [remove_new hk.free] at hremove
      cases hremove
      exact .failed _
  | leave =>
    cases h with
    | failing hk => exact .leftOver hk

theorem Inv.of_steps (h : Relation.ReflTransGen (Step allowed p content) (.start, t) b) :
    Inv allowed p content t b := by
  induction h with
  | refl => exact .start
  | tail _ hs ih => exact ih.step hs

/-! ### The running program -/

def Stage.ofResult : Except OsError Unit → Stage
  | .ok () => .moved
  | .error e => .failed e

theorem isNodeName_temporaryName (n : Nat) : IsNodeName (temporaryName n) := by
  have hlength : 4 ≤ (temporaryName n).toList.length := by
    rw [toList_temporaryName, List.length_append]
    exact Nat.le_add_right ..
  refine ⟨isName_temporary n, fun he => ?_, fun he => ?_⟩
  · rw [he] at hlength
    revert hlength
    decide
  · rw [he] at hlength
    revert hlength
    decide

/-- What `replace` does is one way through the steps. -/
theorem steps_of_replace (hallowed : ∀ n, allowed (temporaryName n)) (p : Path)
    (content : ByteArray) (t : FileTree) :
    Relation.ReflTransGen (Step allowed p content) (.start, t)
      (.ofResult ((replace p content).on t).1, ((replace p content).on t).2) := by
  have hslash := slash_freeName t (directoryOf p) t.nodes.size 0
  obtain ⟨n, hn⟩ : ∃ n, t.freeName (directoryOf p) t.nodes.size 0 =
      (directoryOf p).join ⟨temporaryName n⟩ := freeName_eq ..
  cases hfree : t.freeLocation (t.freeName (directoryOf p) t.nodes.size 0) with
  | error e =>
    rw [on_replace_of_not_free rfl hslash hfree]
    exact .single (.notCreated t e)
  | ok k =>
    have hcreate : t.createNew _ .empty = .ok (t.put k (.file .empty)) :=
      createNew_eq_ok hslash hfree
    have hwrite := write_new hslash hfree .empty content
    rw [on_replace_of_free rfl hslash hfree]
    rw [hn] at hfree hcreate hwrite ⊢
    have hwritten : Relation.ReflTransGen (Step allowed p content) (.start, t)
        (.writing .synced ((directoryOf p).join ⟨temporaryName n⟩), t.put k (.file content)) :=
      .tail (.tail (.single (.create (isNodeName_temporaryName n) (hallowed n) hcreate))
        (.writeAll hwrite)) (.sync _ _)
    cases hmove : (t.put k (.file content)).rename ((directoryOf p).join ⟨temporaryName n⟩) p with
    | ok t' =>
      exact hwritten.tail (.move hmove)
    | error e =>
      exact (hwritten.tail (.fail _ _ _ e)).tail (.remove (remove_new hfree content))

end ForcingData.FileTree.Replacing
