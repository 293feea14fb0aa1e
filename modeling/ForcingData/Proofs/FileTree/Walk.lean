import ForcingData.FileTree.Basic
import ForcingData.Proofs.Dict

/-! # Following paths

`Leads` says which walks come to an end, and where (`walk_eq_ok`). What a walk meets on its way are
directories and links, so that files may come and go beside it (`Leads.of_keeps`). -/

namespace ForcingData.FileTree

/-- A name that stands for itself. -/
structure IsStep (name : String) : Prop where
  not_here : name ≠ "."
  not_up : name ≠ ".."
  short : name.utf8ByteSize ≤ nameLimit

section
variable {t : FileTree} {ending : Ending} {links : Nat} {here : Location} {name : String}
  {rest : List String} (hd : t.isDirectoryAt here = true)
include hd

theorem walk_here : t.walk ending links here ("." :: rest) = t.walk ending links here rest := by
  rw [walk, if_neg (by simp [hd]), if_pos rfl]

theorem walk_up :
    t.walk ending links here (".." :: rest) = t.walk ending links here.dropLast rest := by
  rw [walk, if_neg (by simp [hd]), if_neg (by decide), if_pos rfl]

variable (hs : IsStep name)
include hs

theorem walk_nothing (hn : t.node? (here ++ [name]) = none) :
    t.walk ending links here (name :: rest) =
      if rest = [] && ending.missing then .ok (here ++ [name]) else .error .notFound := by
  rw [walk, if_neg (by simp [hd]), if_neg hs.not_here, if_neg hs.not_up,
    if_neg (Nat.not_lt.mpr hs.short), hn]

theorem walk_last_link {target : Path} (hn : t.node? (here ++ [name]) = some (.link target))
    (hf : ending.follow = false) :
    t.walk ending links here [name] = .ok (here ++ [name]) := by
  rw [walk, if_neg (by simp [hd]), if_neg hs.not_here, if_neg hs.not_up,
    if_neg (Nat.not_lt.mpr hs.short), hn]
  simp [hf]

theorem walk_link {target : Path} (hn : t.node? (here ++ [name]) = some (.link target))
    (hf : rest = [] → ending.follow = true) : t.walk ending (links + 1) here (name :: rest) =
      t.walk ending links (if target.isAbsolute then [] else here) (steps target ++ rest) := by
  rw [walk, if_neg (by simp [hd]), if_neg hs.not_here, if_neg hs.not_up,
    if_neg (Nat.not_lt.mpr hs.short), hn]
  simp only
  rw [if_neg (by simpa using hf)]

theorem walk_child {n : Node} (hn : t.node? (here ++ [name]) = some n)
    (hl : ∀ target, n ≠ .link target) : t.walk ending links here (name :: rest) =
      t.walk ending links (here ++ [name]) rest := by
  rw [walk, if_neg (by simp [hd]), if_neg hs.not_here, if_neg hs.not_up,
    if_neg (Nat.not_lt.mpr hs.short), hn]
  cases n with
  | link target => exact absurd rfl (hl target)
  | file content => rfl
  | directory => rfl

end

/-- The steps lead from one location to another, through at most so many links. -/
inductive Leads (t : FileTree) (ending : Ending) :
    Nat → Location → List String → Location → Prop
  | done (links : Nat) (here : Location) : Leads t ending links here [] here
  | stay {links : Nat} {here l : Location} {rest : List String}
      (hd : t.isDirectoryAt here = true) (h : Leads t ending links here rest l) :
      Leads t ending links here ("." :: rest) l
  | up {links : Nat} {here l : Location} {rest : List String}
      (hd : t.isDirectoryAt here = true) (h : Leads t ending links here.dropLast rest l) :
      Leads t ending links here (".." :: rest) l
  | nothing {links : Nat} {here : Location} {name : String}
      (hd : t.isDirectoryAt here = true) (hs : IsStep name)
      (hn : t.node? (here ++ [name]) = none) (hm : ending.missing = true) :
      Leads t ending links here [name] (here ++ [name])
  | lastLink {links : Nat} {here : Location} {name : String} {target : Path}
      (hd : t.isDirectoryAt here = true) (hs : IsStep name)
      (hn : t.node? (here ++ [name]) = some (.link target)) (hf : ending.follow = false) :
      Leads t ending links here [name] (here ++ [name])
  | link {links : Nat} {here l : Location} {name : String} {rest : List String} {target : Path}
      (hd : t.isDirectoryAt here = true) (hs : IsStep name)
      (hn : t.node? (here ++ [name]) = some (.link target))
      (hf : rest = [] → ending.follow = true)
      (h : Leads t ending links (if target.isAbsolute then [] else here)
        (steps target ++ rest) l) :
      Leads t ending (links + 1) here (name :: rest) l
  | child {links : Nat} {here l : Location} {name : String} {rest : List String} {n : Node}
      (hd : t.isDirectoryAt here = true) (hs : IsStep name)
      (hn : t.node? (here ++ [name]) = some n) (hl : ∀ target, n ≠ .link target)
      (h : Leads t ending links (here ++ [name]) rest l) :
      Leads t ending links here (name :: rest) l

theorem Leads.walk_eq {t : FileTree} {ending : Ending} {links : Nat} {here l : Location}
    {names : List String} (h : Leads t ending links here names l) :
    t.walk ending links here names = .ok l := by
  induction h with
  | done => rw [walk]
  | stay hd _ ih => rw [walk_here hd, ih]
  | up hd _ ih => rw [walk_up hd, ih]
  | nothing hd hs hn hm =>
    rw [walk_nothing hd hs hn]
    simp [hm]
  | lastLink hd hs hn hf => rw [walk_last_link hd hs hn hf]
  | link hd hs hn hf _ ih => rw [walk_link hd hs hn hf, ih]
  | child hd hs hn hl _ ih => rw [walk_child hd hs hn hl, ih]

theorem walk_eq_ok {t : FileTree} {ending : Ending} {links : Nat} {here l : Location}
    {names : List String} :
    t.walk ending links here names = .ok l ↔ Leads t ending links here names l := by
  refine ⟨fun h => ?_, Leads.walk_eq⟩
  -- each way through `walk` is a rule of `Leads`, or fails
  induction links, here, names using walk.induct t ending with
  | case1 links here =>
    rw [walk] at h
    cases h
    exact .done ..
  | case2 links here name rest hd =>
    rw [walk, if_pos hd] at h
    cases h
  | case3 links here rest hd ih =>
    have hd : t.isDirectoryAt here = true := by simpa using hd
    rw [walk_here hd] at h
    exact .stay hd (ih h)
  | case4 links here rest hd _ ih =>
    have hd : t.isDirectoryAt here = true := by simpa using hd
    rw [walk_up hd] at h
    exact .up hd (ih h)
  | case5 links here name rest hd hhere hup hlong =>
    rw [walk, if_neg hd, if_neg hhere, if_neg hup, if_pos hlong] at h
    cases h
  | case6 links here name rest hd hhere hup hlong hn hm =>
    have hd : t.isDirectoryAt here = true := by simpa using hd
    have hs : IsStep name := ⟨hhere, hup, Nat.not_lt.mp hlong⟩
    rw [walk_nothing hd hs hn, if_pos hm] at h
    cases h
    obtain ⟨rfl, hmissing⟩ : rest = [] ∧ ending.missing = true := by simpa using hm
    exact .nothing hd hs hn hmissing
  | case7 links here name rest hd hhere hup hlong hn hm =>
    have hd : t.isDirectoryAt here = true := by simpa using hd
    rw [walk_nothing hd ⟨hhere, hup, Nat.not_lt.mp hlong⟩ hn, if_neg hm] at h
    cases h
  | case8 links here name rest hd hhere hup hlong target hn hf =>
    have hd : t.isDirectoryAt here = true := by simpa using hd
    have hs : IsStep name := ⟨hhere, hup, Nat.not_lt.mp hlong⟩
    obtain ⟨rfl, hstop⟩ : rest = [] ∧ ending.follow = false := by simpa using hf
    rw [walk_last_link hd hs hn hstop] at h
    cases h
    exact .lastLink hd hs hn hstop
  | case9 here name rest hd hhere hup hlong target hn hf =>
    rw [walk, if_neg hd, if_neg hhere, if_neg hup, if_neg hlong, hn] at h
    simp only [if_neg hf] at h
    cases h
  | case10 here name rest hd hhere hup hlong target hn hf links ih =>
    have hd : t.isDirectoryAt here = true := by simpa using hd
    have hs : IsStep name := ⟨hhere, hup, Nat.not_lt.mp hlong⟩
    have hf : rest = [] → ending.follow = true := by simpa using hf
    rw [walk_link hd hs hn hf] at h
    exact .link hd hs hn hf (ih h)
  | case11 links here name rest hd hhere hup hlong n hl hn ih =>
    have hd : t.isDirectoryAt here = true := by simpa using hd
    have hs : IsStep name := ⟨hhere, hup, Nat.not_lt.mp hlong⟩
    rw [walk_child hd hs hn hl] at h
    exact .child hd hs hn hl (ih h)

theorem locateWith_eq_ok {t : FileTree} {ending : Ending} {p : Path} {l : Location} :
    t.locateWith ending p = .ok l ↔
      refused? p = none ∧ Leads t ending linkLimit (t.origin p) (steps p) l := by
  unfold locateWith
  cases refused? p with
  | some e => exact ⟨nofun, fun h => by cases h.1⟩
  | none => exact walk_eq_ok.trans ⟨fun h => ⟨rfl, h⟩, And.right⟩

/-! ### One node more or less -/

theorem node?_put (t : FileTree) {l : Location} (hl : l ≠ []) (n : Node) (k : Location) :
    (t.put l n).node? k = if k = l then some n else t.node? k := by
  unfold node? put
  by_cases hk : k = []
  · subst hk
    rw [if_pos rfl, if_pos rfl, if_neg (Ne.symm hl)]
  · rw [if_neg hk, if_neg hk, Dict.get?_insert]

theorem node?_put_self {t : FileTree} {l : Location} (hl : l ≠ []) (n : Node) :
    (t.put l n).node? l = some n := by
  rw [node?_put t hl, if_pos rfl]

theorem node?_put_of_ne {t : FileTree} {l k : Location} {n : Node} (hl : l ≠ []) (hk : k ≠ l) :
    (t.put l n).node? k = t.node? k := by
  rw [node?_put t hl, if_neg hk]

theorem ne_nil_of_node?_eq_none {t : FileTree} {l : Location} (h : t.node? l = none) : l ≠ [] := by
  rintro rfl
  cases h

theorem isSome_node? {t : FileTree} {l : Location} (hl : l ≠ []) :
    (t.node? l).isSome = true ↔ l ∈ t.nodes.keys := by
  rw [node?, if_neg hl, Dict.mem_keys]

theorem isDirectoryAt_iff {t : FileTree} {l : Location} :
    t.isDirectoryAt l = true ↔ t.node? l = some .directory := by
  simp [isDirectoryAt]

section
variable {t t' : FileTree} {ending : Ending} {links : Nat} {here l : Location}
  {names : List String}

theorem Leads.done_or_directory (h : Leads t ending links here names l) :
    names = [] ∧ l = here ∨ t.isDirectoryAt here = true := by
  cases h with
  | done => exact .inl ⟨rfl, rfl⟩
  | stay hd | up hd | nothing hd | lastLink hd | link hd | child hd => exact .inr hd

/-- A walk to a directory depends on directories and links alone. -/
theorem Leads.of_keeps (hk : ∀ k n, t.node? k = some n → (∀ content, n ≠ .file content) →
    t'.node? k = some n) (hm : ending.missing = false) (h : Leads t ending links here names l)
    (hl : t.isDirectoryAt l = true) : Leads t' ending links here names l := by
  have hdir : ∀ k, t.isDirectoryAt k = true → t'.isDirectoryAt k = true := fun k hd =>
    isDirectoryAt_iff.mpr (hk k _ (isDirectoryAt_iff.mp hd) nofun)
  induction h with
  | done links here => exact .done links here
  | stay hd _ ih => exact .stay (hdir _ hd) (ih hl)
  | up hd _ ih => exact .up (hdir _ hd) (ih hl)
  | nothing hd hs hn hmissing =>
    rw [hm] at hmissing
    cases hmissing
  | lastLink hd hs hn hf => exact .lastLink (hdir _ hd) hs (hk _ _ hn nofun) hf
  | link hd hs hn hf _ ih => exact .link (hdir _ hd) hs (hk _ _ hn nofun) hf (ih hl)
  | child hd hs hn hlink h ih =>
    refine .child (hdir _ hd) hs (hk _ _ hn ?_) hlink (ih hl)
    rintro content rfl
    rcases h.done_or_directory with ⟨_, rfl⟩ | hfile
    · rw [isDirectoryAt_iff, hn] at hl
      cases hl
    · rw [isDirectoryAt_iff, hn] at hfile
      cases hfile

theorem Leads.put_other {k : Location} (hk : t.node? k = none) (n : Node)
    (h : Leads t ending links here names l) (hne : l ≠ k) :
    Leads (t.put k n) ending links here names l := by
  have hnil := ne_nil_of_node?_eq_none hk
  have hkeep : ∀ x m, t.node? x = some m → (t.put k n).node? x = some m := by
    intro x m hx
    rw [node?_put t hnil, if_neg (by rintro rfl; rw [hk] at hx; cases hx), hx]
  have hdir : ∀ x, t.isDirectoryAt x = true → (t.put k n).isDirectoryAt x = true := fun x hd =>
    isDirectoryAt_iff.mpr (hkeep x _ (isDirectoryAt_iff.mp hd))
  induction h with
  | done links here => exact .done links here
  | stay hd _ ih => exact .stay (hdir _ hd) (ih hne)
  | up hd _ ih => exact .up (hdir _ hd) (ih hne)
  | nothing hd hs hn hm =>
    exact .nothing (hdir _ hd) hs (by rw [node?_put t hnil, if_neg hne, hn]) hm
  | lastLink hd hs hn hf => exact .lastLink (hdir _ hd) hs (hkeep _ _ hn) hf
  | link hd hs hn hf _ ih => exact .link (hdir _ hd) hs (hkeep _ _ hn) hf (ih hne)
  | child hd hs hn hl _ ih => exact .child (hdir _ hd) hs (hkeep _ _ hn) hl (ih hne)

theorem Leads.put_new {follow : Bool} (h : Leads t ⟨false, true⟩ links here names l)
    (hl : t.node? l = none) {n : Node} (hnode : ∀ target, n ≠ .link target) (missing : Bool) :
    Leads (t.put l n) ⟨follow, missing⟩ links here names l := by
  have hnil := ne_nil_of_node?_eq_none hl
  have hkeep : ∀ x m, t.node? x = some m → (t.put l n).node? x = some m := by
    intro x m hx
    rw [node?_put t hnil, if_neg (by rintro rfl; rw [hl] at hx; cases hx), hx]
  have hdir : ∀ x, t.isDirectoryAt x = true →
      (t.put l n).isDirectoryAt x = true := fun x hd =>
    isDirectoryAt_iff.mpr (hkeep x _ (isDirectoryAt_iff.mp hd))
  induction h with
  | done links here => exact .done links here
  | stay hd _ ih => exact .stay (hdir _ hd) (ih hl hnil hkeep hdir)
  | up hd _ ih => exact .up (hdir _ hd) (ih hl hnil hkeep hdir)
  | nothing hd hs hn hm =>
    exact .child (hdir _ hd) hs (node?_put_self hnil _) hnode (.done ..)
  | lastLink hd hs hn hf =>
    rw [hl] at hn
    cases hn
  | link hd hs hn hf _ ih =>
    refine .link (hdir _ hd) hs (hkeep _ _ hn) (fun hr => ?_) (ih hl hnil hkeep hdir)
    cases hf hr
  | child hd hs hn hlink _ ih =>
    exact .child (hdir _ hd) hs (hkeep _ _ hn) hlink (ih hl hnil hkeep hdir)

/-! ### The last step -/

/-- What follows a directory is followed from there, with the links that are left. -/
theorem Leads.walk_append (h : Leads t ⟨true, false⟩ links here names l) :
    ∃ links', ∀ ending rest, rest ≠ [] →
      t.walk ending links here (names ++ rest) = t.walk ending links' l rest := by
  induction h with
  | done links here => exact ⟨links, fun _ _ _ => rfl⟩
  | stay hd _ ih =>
    obtain ⟨links', ih⟩ := ih
    refine ⟨links', fun ending rest hr => ?_⟩
    rw [List.cons_append, walk_here hd, ih ending rest hr]
  | up hd _ ih =>
    obtain ⟨links', ih⟩ := ih
    refine ⟨links', fun ending rest hr => ?_⟩
    rw [List.cons_append, walk_up hd, ih ending rest hr]
  | nothing hd hs hn hm => cases hm
  | lastLink hd hs hn hf => cases hf
  | link hd hs hn hf _ ih =>
    obtain ⟨links', ih⟩ := ih
    refine ⟨links', fun ending rest hr => ?_⟩
    have hlast : ∀ names : List String, names ++ rest = [] → ending.follow = true :=
      fun names he => absurd (List.append_eq_nil_iff.mp he).2 hr
    rw [List.cons_append, walk_link hd hs hn (hlast _), ← List.append_assoc, ih ending rest hr]
  | child hd hs hn hl _ ih =>
    obtain ⟨links', ih⟩ := ih
    refine ⟨links', fun ending rest hr => ?_⟩
    rw [List.cons_append, walk_child hd hs hn hl, ih ending rest hr]

theorem Leads.of_append_here (h : Leads t ⟨true, false⟩ links here (names ++ ["."]) l) :
    Leads t ⟨true, false⟩ links here names l := by
  -- the step to be left out is the last one of a walk that goes on in every other case
  generalize hsteps : names ++ ["."] = all at h
  induction h generalizing names with
  | done => simp at hsteps
  | stay hd h ih =>
    cases names with
    | nil =>
      obtain rfl := (List.cons.inj hsteps).2
      exact h
    | cons name names =>
      obtain ⟨rfl, hrest⟩ := List.cons.inj hsteps
      exact .stay hd (ih hrest)
  | up hd h ih =>
    cases names with
    | nil => simp at hsteps
    | cons name names =>
      obtain ⟨rfl, hrest⟩ := List.cons.inj hsteps
      exact .up hd (ih hrest)
  | nothing hd hs hn hm => cases hm
  | lastLink hd hs hn hf => cases hf
  | link hd hs hn hf h ih =>
    cases names with
    | nil => exact absurd (List.cons.inj hsteps).1.symm hs.not_here
    | cons name names =>
      obtain ⟨rfl, rfl⟩ := List.cons.inj hsteps
      exact .link hd hs hn (fun _ => rfl) (ih (List.append_assoc ..))
  | child hd hs hn hl h ih =>
    cases names with
    | nil => exact absurd (List.cons.inj hsteps).1.symm hs.not_here
    | cons name names =>
      obtain ⟨rfl, hrest⟩ := List.cons.inj hsteps
      exact .child hd hs hn hl (ih hrest)

end
end ForcingData.FileTree
