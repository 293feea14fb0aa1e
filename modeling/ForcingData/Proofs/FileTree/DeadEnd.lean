import ForcingData.Proofs.FileTree.Beside

/-! # A file at a dead end

A location is a dead end (`IsEnd`) if no walk goes on from it: there is nothing, or a file, or a
link to something that is no directory. With another file there, every path leads where it led
before, or to this file (`IsEnd.lookup_put`), and directories stay where they are. -/

namespace ForcingData.FileTree
variable {t : FileTree} {ending : Ending} {links links' : Nat} {here k l l' : Location}
  {names rest : List String} {p : Path} {content : ByteArray}

/-! ### Walks -/

theorem Leads.more (h : Leads t ending links here names l) (n : Nat) :
    Leads t ending (links + n) here names l := by
  induction h with
  | done => exact .done ..
  | stay hd _ ih => exact .stay hd ih
  | up hd _ ih => exact .up hd ih
  | nothing hd hs hn hm => exact .nothing hd hs hn hm
  | lastLink hd hs hn hf => exact .lastLink hd hs hn hf
  | link hd hs hn hf _ ih =>
    rw [Nat.add_right_comm]
    exact .link hd hs hn hf ih
  | child hd hs hn hl _ ih => exact .child hd hs hn hl ih

theorem Leads.unique (h : Leads t ending links here names l)
    (h' : Leads t ending links' here names l') : l = l' := by
  have hwalk := (h.more links').walk_eq
  rw [Nat.add_comm, (h'.more links).walk_eq] at hwalk
  exact (Except.ok.inj hwalk).symm

theorem Leads.of_append (h : Leads t ⟨true, false⟩ links here (names ++ rest) l) :
    ∃ m links', Leads t ⟨true, false⟩ links here names m ∧
      Leads t ⟨true, false⟩ links' m rest l := by
  -- where `names` is at its end the rest of the walk is all there is
  generalize hall : names ++ rest = all at h
  induction h generalizing names with
  | done links here =>
    obtain ⟨rfl, rfl⟩ := List.append_eq_nil_iff.mp hall
    exact ⟨here, links, .done .., .done ..⟩
  | stay hd h ih =>
    cases names with
    | nil =>
      obtain rfl : rest = _ := hall
      exact ⟨_, _, .done .., .stay hd h⟩
    | cons name names =>
      obtain ⟨rfl, hrest⟩ := List.cons.inj hall
      obtain ⟨m, links', hm, hend⟩ := ih hrest
      exact ⟨m, links', .stay hd hm, hend⟩
  | up hd h ih =>
    cases names with
    | nil =>
      obtain rfl : rest = _ := hall
      exact ⟨_, _, .done .., .up hd h⟩
    | cons name names =>
      obtain ⟨rfl, hrest⟩ := List.cons.inj hall
      obtain ⟨m, links', hm, hend⟩ := ih hrest
      exact ⟨m, links', .up hd hm, hend⟩
  | nothing _ _ _ hm => cases hm
  | lastLink _ _ _ hf => cases hf
  | link hd hs hn hf h ih =>
    cases names with
    | nil =>
      obtain rfl : rest = _ := hall
      exact ⟨_, _, .done .., .link hd hs hn hf h⟩
    | cons name names =>
      obtain ⟨rfl, rfl⟩ := List.cons.inj hall
      obtain ⟨m, links', hm, hend⟩ := ih (List.append_assoc ..)
      exact ⟨m, links', .link hd hs hn (fun _ => rfl) hm, hend⟩
  | child hd hs hn hl h ih =>
    cases names with
    | nil =>
      obtain rfl : rest = _ := hall
      exact ⟨_, _, .done .., .child hd hs hn hl h⟩
    | cons name names =>
      obtain ⟨rfl, hrest⟩ := List.cons.inj hall
      obtain ⟨m, links', hm, hend⟩ := ih hrest
      exact ⟨m, links', .child hd hs hn hl hm, hend⟩

theorem locate_eq_ok : t.locate p = .ok l ↔
    refused? p = none ∧ Leads t ⟨true, false⟩ linkLimit (t.origin p) (steps p) l :=
  locateWith_eq_ok

theorem lookup_eq_ok {n : Node} :
    t.lookup p = .ok n ↔ ∃ l, t.locate p = .ok l ∧ t.node? l = some n := by
  rw [lookup, Except.bind_eq_ok]
  refine exists_congr fun l => and_congr_right fun _ => ?_
  cases t.node? l with
  | none => simp
  | some m => simp

/-! ### Dead ends -/

/-- The target of a link at a location leads, through some number of links, to the other one. -/
def Targets (t : FileTree) (k : Location) (target : Path) (l : Location) : Prop :=
  ∃ links, Leads t ⟨true, false⟩ links (if target.isAbsolute then [] else k.dropLast)
    (steps target) l

/-- No walk goes on from here. -/
structure IsEnd (t : FileTree) (k : Location) : Prop where
  not_directory : t.node? k ≠ some .directory
  not_to_directory : ∀ target l, t.node? k = some (.link target) → t.Targets k target l →
    t.node? l ≠ some .directory

theorem IsEnd.of_nothing (h : t.node? k = none) : t.IsEnd k := by
  constructor
  · rw [h]
    exact nofun
  · intro _ _ hlink
    rw [h] at hlink
    cases hlink

theorem IsEnd.ne_nil (h : t.IsEnd k) : k ≠ [] := by
  rintro rfl
  exact h.not_directory rfl

theorem lookup_put_self {n : Node} (hk : k ≠ []) (h : (t.put k n).locate p = .ok k) :
    (t.put k n).lookup p = .ok n :=
  lookup_eq_ok.mpr ⟨k, h, node?_put_self hk n⟩

theorem isDirectoryAt_of_put (hk : k ≠ []) (h : (t.put k (.file content)).isDirectoryAt l = true) :
    l ≠ k ∧ t.isDirectoryAt l = true := by
  rw [isDirectoryAt_iff] at h
  have hne : l ≠ k := by
    rintro rfl
    cases (node?_put_self hk _).symm.trans h
  rw [node?_put_of_ne hk hne] at h
  exact ⟨hne, isDirectoryAt_iff.mpr h⟩

theorem IsEnd.isDirectoryAt_put (hk : t.IsEnd k) (content : ByteArray)
    (h : t.isDirectoryAt l = true) : (t.put k (.file content)).isDirectoryAt l = true := by
  rw [isDirectoryAt_iff] at h ⊢
  rw [node?_put_of_ne hk.ne_nil, h]
  rintro rfl
  exact hk.not_directory h

/-- A walk past a file that was put is one without it, unless it ends there. -/
theorem Leads.of_put (hk : k ≠ [])
    (h : Leads (t.put k (.file content)) ⟨true, false⟩ links here names l) :
    l = k ∨ Leads t ⟨true, false⟩ links here names l := by
  have hdir : ∀ {x}, (t.put k (.file content)).isDirectoryAt x = true →
      t.isDirectoryAt x = true := fun hd => (isDirectoryAt_of_put hk hd).2
  induction h with
  | done links here => exact .inr (.done links here)
  | stay hd _ ih => exact ih.imp id (.stay (hdir hd))
  | up hd _ ih => exact ih.imp id (.up (hdir hd))
  | nothing _ _ _ hm => cases hm
  | lastLink _ _ _ hf => cases hf
  | @link _ here _ name _ target hd hs hn hf _ ih =>
    have hne : here ++ [name] ≠ k := by
      rintro rfl
      cases (node?_put_self hk _).symm.trans hn
    rw [node?_put_of_ne hk hne] at hn
    exact ih.imp id (.link (hdir hd) hs hn hf)
  | @child _ here _ name _ n hd hs hn hl h ih =>
    by_cases hx : here ++ [name] = k
    · -- nothing comes after a file
      rcases h.done_or_directory with ⟨-, rfl⟩ | hdirectory
      · exact .inl hx
      · exact absurd hx (isDirectoryAt_of_put hk hdirectory).1
    · rw [node?_put_of_ne hk hx] at hn
      exact ih.imp id (.child (hdir hd) hs hn hl)

namespace IsEnd
variable (hk : t.IsEnd k)
include hk

/-- A walk ends where it ended before, or at the file that was put where it took a link. -/
theorem leads_put (content : ByteArray) (h : Leads t ⟨true, false⟩ links here names l) :
    Leads (t.put k (.file content)) ⟨true, false⟩ links here names l ∨
      Leads (t.put k (.file content)) ⟨true, false⟩ links here names k ∧
        ∃ target, t.node? k = some (.link target) ∧ t.Targets k target l := by
  have hfile : (t.put k (.file content)).node? k = some (.file content) :=
    node?_put_self hk.ne_nil _
  have hdir : ∀ {x}, t.isDirectoryAt x = true →
      (t.put k (.file content)).isDirectoryAt x = true := hk.isDirectoryAt_put content
  induction h with
  | done links here => exact .inl (.done links here)
  | stay hd _ ih => exact ih.imp (.stay (hdir hd)) (.imp_left (.stay (hdir hd)))
  | up hd _ ih => exact ih.imp (.up (hdir hd)) (.imp_left (.up (hdir hd)))
  | nothing _ _ _ hm => cases hm
  | lastLink _ _ _ hf => cases hf
  | @link links here l name rest target hd hs hn hf h ih =>
    by_cases hx : here ++ [name] = k
    · subst hx
      obtain ⟨m, links', hm, hrest⟩ := h.of_append
      have htarget : t.Targets (here ++ [name]) target m := ⟨links, by simpa using hm⟩
      -- the target is no directory, so that nothing is left to be walked
      rcases hrest.done_or_directory with ⟨rfl, rfl⟩ | hdirectory
      · exact .inr ⟨.child (hdir hd) hs hfile (by simp) (.done ..), target, hn, htarget⟩
      · exact absurd (isDirectoryAt_iff.mp hdirectory) (hk.not_to_directory target m hn htarget)
    · have hn' : (t.put k (.file content)).node? (here ++ [name]) = some (.link target) := by
        rw [node?_put_of_ne hk.ne_nil hx, hn]
      exact ih.imp (.link (hdir hd) hs hn' hf) (.imp_left (.link (hdir hd) hs hn' hf))
  | @child links here l name rest n hd hs hn hl h ih =>
    by_cases hx : here ++ [name] = k
    · subst hx
      rcases h.done_or_directory with ⟨rfl, rfl⟩ | hdirectory
      · exact .inl (.child (hdir hd) hs hfile (by simp) (.done ..))
      · exact absurd (isDirectoryAt_iff.mp hdirectory) hk.not_directory
    · have hn' : (t.put k (.file content)).node? (here ++ [name]) = some n := by
        rw [node?_put_of_ne hk.ne_nil hx, hn]
      exact ih.imp (.child (hdir hd) hs hn' hl) (.imp_left (.child (hdir hd) hs hn' hl))

theorem lookup_put (content : ByteArray) (p : Path) :
    (t.put k (.file content)).locate p = .ok k ∨
      ∀ n, (t.put k (.file content)).lookup p = .ok n ↔ t.lookup p = .ok n := by
  refine or_iff_not_imp_left.mpr fun hother n => ?_
  rw [lookup_eq_ok, lookup_eq_ok]
  constructor
  · rintro ⟨l, hl, hn⟩
    have hne : l ≠ k := fun he => hother (he ▸ hl)
    obtain ⟨hrefused, hleads⟩ := locate_eq_ok.mp hl
    rw [node?_put_of_ne hk.ne_nil hne] at hn
    exact ⟨l, locate_eq_ok.mpr ⟨hrefused, (hleads.of_put hk.ne_nil).resolve_left hne⟩, hn⟩
  · rintro ⟨l, hl, hn⟩
    obtain ⟨hrefused, hleads⟩ := locate_eq_ok.mp hl
    rcases hk.leads_put content hleads with hleads' | ⟨hleads', -⟩
    · have hl' : (t.put k (.file content)).locate p = .ok l :=
        locate_eq_ok.mpr ⟨hrefused, hleads'⟩
      have hne : l ≠ k := fun he => hother (he ▸ hl')
      exact ⟨l, hl', by rw [node?_put_of_ne hk.ne_nil hne, hn]⟩
    · exact absurd (locate_eq_ok.mpr ⟨hrefused, hleads'⟩) hother

/-- Directories stay where they are. -/
theorem locate_put_directory (content : ByteArray) :
    (t.put k (.file content)).locate p = .ok l ∧
        (t.put k (.file content)).isDirectoryAt l = true ↔
      t.locate p = .ok l ∧ t.isDirectoryAt l = true := by
  constructor
  · rintro ⟨hl, hd⟩
    obtain ⟨hne, hd⟩ := isDirectoryAt_of_put hk.ne_nil hd
    obtain ⟨hrefused, hleads⟩ := locate_eq_ok.mp hl
    exact ⟨locate_eq_ok.mpr ⟨hrefused, (hleads.of_put hk.ne_nil).resolve_left hne⟩, hd⟩
  · rintro ⟨hl, hd⟩
    obtain ⟨hrefused, hleads⟩ := locate_eq_ok.mp hl
    rcases hk.leads_put content hleads with hleads' | ⟨-, target, hlink, htarget⟩
    · exact ⟨locate_eq_ok.mpr ⟨hrefused, hleads'⟩, hk.isDirectoryAt_put content hd⟩
    · exact absurd (isDirectoryAt_iff.mp hd) (hk.not_to_directory target l hlink htarget)

theorem not_exists_of_put (hnothing : t.node? k = none)
    (h : (t.put k (.file content)).locate p = .ok k) : t.exists? p = false := by
  rw [exists?]
  cases hl : t.lookup p with
  | error e => rfl
  | ok n =>
    obtain ⟨l, hlocate, hn⟩ := lookup_eq_ok.mp hl
    obtain ⟨hrefused, hleads⟩ := locate_eq_ok.mp hlocate
    rcases hk.leads_put content hleads with hleads' | ⟨-, target, hlink, -⟩
    · obtain rfl := Except.ok.inj (h.symm.trans (locate_eq_ok.mpr ⟨hrefused, hleads'⟩))
      cases hnothing.symm.trans hn
    · cases hnothing.symm.trans hlink

end IsEnd

/-! ### The last step -/

section
variable {name : String} (hsteps : steps p = names ++ [name])
include hsteps

/-- What a path leads to has its last name, if there is no link at its end. -/
theorem last_or_link_of_put (hk : k ≠ []) (hhere : name ≠ ".") (hup : name ≠ "..")
    (h : (t.put k (.file content)).locate p = .ok k) : k.getLast? = some name ∨
      ∃ m target, t.locateWith ⟨false, true⟩ p = .ok m ∧ t.node? m = some (.link target) := by
  obtain ⟨hrefused, hleads⟩ := locate_eq_ok.mp h
  rw [hsteps] at hleads
  obtain ⟨l, links', hl, hlast⟩ := hleads.of_append
  cases hlast with
  | stay => exact absurd rfl hhere
  | up => exact absurd rfl hup
  | nothing _ _ _ hm => cases hm
  | lastLink _ _ _ hf => cases hf
  | child _ _ _ _ hend =>
    cases hend
    exact .inl (List.getLast?_concat ..)
  | @link _ _ _ _ _ target hd hs hn =>
    right
    obtain ⟨hne, hd⟩ := isDirectoryAt_of_put hk hd
    have hne' : l ++ [name] ≠ k := by
      rintro rfl
      cases (node?_put_self hk _).symm.trans hn
    rw [node?_put_of_ne hk hne'] at hn
    obtain ⟨links, hwalk⟩ := ((hl.of_put hk).resolve_left hne).walk_append
    refine ⟨l ++ [name], target, ?_, hn⟩
    rw [locateWith, hrefused, hsteps]
    exact (hwalk _ [name] (List.cons_ne_nil _ _)).trans (walk_last hd hs links)

theorem IsEnd.locate_put_self (hend : t.IsEnd k) (hs : IsStep name)
    (hk : t.locateWith ⟨false, true⟩ p = .ok k) (content : ByteArray) :
    (t.put k (.file content)).locate p = .ok k := by
  obtain ⟨hrefused, hleads⟩ := locateWith_eq_ok.mp hk
  rw [hsteps] at hleads
  obtain ⟨l, hl, hd, hlast⟩ := hleads.exists_append hs.not_here hs.not_up
  obtain rfl := hlast rfl
  have hl' : Leads (t.put (l ++ [name]) (.file content)) ⟨true, false⟩ linkLimit (t.origin p)
      names l := by
    refine (hend.leads_put content hl).resolve_right fun ⟨_, target, hlink, htarget⟩ => ?_
    exact hend.not_to_directory target l hlink htarget (isDirectoryAt_iff.mp hd)
  have hd' := hend.isDirectoryAt_put content hd
  obtain ⟨links, hwalk⟩ := hl'.walk_append
  rw [locate, locateWith, hrefused, hsteps]
  exact (hwalk _ [name] (List.cons_ne_nil _ _)).trans
    (Leads.child hd' hs (node?_put_self hend.ne_nil _) (by simp) (.done ..)).walk_eq

/-- A path that ends in a link to a file ends in a dead end. -/
theorem IsEnd.of_isFile (hs : IsStep name) (hk : t.locateWith ⟨false, true⟩ p = .ok k)
    (hd : t.node? k ≠ some .directory)
    (hfile : ∀ target, t.node? k = some (.link target) → t.isFile p = true) : t.IsEnd k := by
  refine ⟨hd, fun target l hlink ⟨links', htarget⟩ => ?_⟩
  obtain ⟨links, here, -, hlast, hwalk⟩ := exists_walk_last hs.not_here hs.not_up hsteps hk
  obtain rfl := hlast rfl
  have hfile := hfile target hlink
  rw [isFile] at hfile
  split at hfile
  · rename_i content hlookup
    obtain ⟨l', hl', hn⟩ := lookup_eq_ok.mp hlookup
    rw [locate, hwalk, walk_eq_ok] at hl'
    rw [List.dropLast_concat] at htarget
    cases hl' with
    | stay => exact absurd rfl hs.not_here
    | up => exact absurd rfl hs.not_up
    | nothing _ _ _ hm => cases hm
    | lastLink _ _ _ hf => cases hf
    | child _ _ hn' hl => exact absurd (Option.some.inj (hn'.symm.trans hlink)) (hl _)
    | link _ _ hn' _ h' =>
      cases hn'.symm.trans hlink
      rw [List.append_nil] at h'
      obtain rfl := h'.unique htarget
      simp [hn]
  · cases hfile

end
end ForcingData.FileTree
