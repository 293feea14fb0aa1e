import ForcingData.FileTree.Layout
import ForcingData.Proofs.FileTree.Disk
import ForcingData.Proofs.FileTree.Walk
import ForcingData.Proofs.Path
import ForcingData.Proofs.Results

/-! # Names in file trees

In a named tree every name on the way to a node is one that a path can give: it is not empty, holds
no slash, and is neither `.` nor `..`. Paths lead to locations of such names, so directories that
are made and files that are written leave a tree named, and all trees that are laid out are
named. -/

namespace ForcingData

/-- A name that something can have. -/
structure IsNodeName (name : String) : Prop where
  isName : Path.IsName name
  not_here : name ≠ "."
  not_up : name ≠ ".."

instance : DecidablePred IsNodeName := fun name =>
  decidable_of_iff (Path.IsName name ∧ name ≠ "." ∧ name ≠ "..")
    ⟨fun h => ⟨h.1, h.2.1, h.2.2⟩, fun h => ⟨h.isName, h.not_here, h.not_up⟩⟩

/-- The work leaves trees with the property in it, also where it fails. -/
def Disk.Keeps {ε α : Type} (P : FileTree → Prop) (x : Disk ε α) : Prop :=
  ∀ t, P t → P (x.on t).2

namespace Disk
variable {ε α β : Type} {P : FileTree → Prop}

theorem keeps_pure (a : α) : Keeps P (pure a : Disk ε α) := fun _ h => h

theorem keeps_throw (e : ε) : Keeps P (throw e : Disk ε α) := fun _ h => h

theorem Keeps.bind {x : Disk ε α} {f : α → Disk ε β} (hx : Keeps P x) (hf : ∀ a, Keeps P (f a)) :
    Keeps P (x >>= f) := by
  intro t h
  have h' := hx t h
  rw [on_bind]
  rcases hr : x.on t with ⟨_ | a, t'⟩ <;> rw [hr] at h'
  · exact h'
  · exact hf a t' h'

theorem keeps_change {f : FileTree → Except ε FileTree} (hf : ∀ t t', P t → f t = .ok t' → P t') :
    Keeps P (change f) := by
  intro t h
  rw [on_change]
  cases ht : f t with
  | error e => exact h
  | ok t' => exact hf t t' h ht

theorem keeps_forM {f : α → Disk ε PUnit} (hf : ∀ a, Keeps P (f a)) :
    ∀ l : List α, Keeps P (l.forM f)
  | [] => keeps_pure _
  | a :: l => (hf a).bind fun _ => keeps_forM hf l

end Disk

namespace FileTree

structure IsNamed (t : FileTree) : Prop where
  nodes : ∀ l, (t.node? l).isSome = true → ∀ name ∈ l, IsNodeName name
  workingDirectory : ∀ name ∈ t.workingDirectory, IsNodeName name

theorem isNamed_iff {t : FileTree} : t.IsNamed ↔
    (∀ l ∈ t.nodes.keys, ∀ name ∈ l, IsNodeName name) ∧
      ∀ name ∈ t.workingDirectory, IsNodeName name := by
  have hnode {l : Location} {name : String} (hname : name ∈ l) :
      (t.node? l).isSome = true ↔ l ∈ t.nodes.keys := isSome_node? (List.ne_nil_of_mem hname)
  constructor
  · exact fun h => ⟨fun l hl name hname => h.nodes l ((hnode hname).mpr hl) name hname,
      h.workingDirectory⟩
  · exact fun h => ⟨fun l hl name hname => h.1 l ((hnode hname).mp hl) name hname, h.2⟩

instance (t : FileTree) : Decidable t.IsNamed := decidable_of_iff _ isNamed_iff.symm

/-! ### Locations -/

theorem isName_of_mem_steps {p : Path} {name : String} (h : name ∈ steps p) :
    Path.IsName name := by
  have hpiece : ∀ name, name ∈ (Text.splitAt '/' p.text).filter (· ≠ "") → Path.IsName name := by
    intro name hmem
    obtain ⟨hmem, hne⟩ := List.mem_filter.mp hmem
    obtain ⟨piece, hpiece, rfl⟩ := List.mem_map.mp hmem
    refine ⟨by simpa using hne, ?_⟩
    rw [String.toList_ofList]
    intro hslash
    simpa using Path.eq_false_of_mem_splitChars hpiece _ hslash
  unfold steps at h
  simp only at h
  split at h
  · rcases List.mem_append.mp h with h | h
    · exact hpiece name h
    · obtain rfl := List.mem_singleton.mp h
      exact ⟨by decide, by decide⟩
  · exact hpiece name h

/-- A walk by names from a location of names comes to one. -/
theorem Leads.isNodeName {t : FileTree} {ending : Ending} {links : Nat} {here l : Location}
    {names : List String} (h : Leads t ending links here names l)
    (hhere : ∀ name ∈ here, IsNodeName name) (hnames : ∀ name ∈ names, Path.IsName name) :
    ∀ name ∈ l, IsNodeName name := by
  have hchild : ∀ {here : Location} {name : String}, (∀ x ∈ here, IsNodeName x) →
      Path.IsName name → IsStep name → ∀ x ∈ here ++ [name], IsNodeName x := by
    intro here name hhere hname hs x hx
    rcases List.mem_append.mp hx with hx | hx
    · exact hhere x hx
    · obtain rfl := List.mem_singleton.mp hx
      exact ⟨hname, hs.not_here, hs.not_up⟩
  induction h with
  | done => exact hhere
  | stay hd _ ih => exact ih hhere (List.forall_mem_cons.mp hnames).2
  | up hd _ ih =>
    exact ih (fun x hx => hhere x (List.dropLast_subset _ hx)) (List.forall_mem_cons.mp hnames).2
  | nothing hd hs hn hm => exact hchild hhere (hnames _ (List.mem_cons_self ..)) hs
  | lastLink hd hs hn hf => exact hchild hhere (hnames _ (List.mem_cons_self ..)) hs
  | link hd hs hn hf _ ih =>
    refine ih ?_ ?_
    · split
      · exact fun _ hx => absurd hx List.not_mem_nil
      · exact hhere
    · intro x hx
      rcases List.mem_append.mp hx with hx | hx
      · exact isName_of_mem_steps hx
      · exact hnames x (List.mem_cons_of_mem _ hx)
  | child hd hs hn hl _ ih =>
    have hsplit := List.forall_mem_cons.mp hnames
    exact ih (hchild hhere hsplit.1 hs) hsplit.2

namespace IsNamed
variable {t t' : FileTree} {p : Path} {l : Location}

theorem locateWith (h : t.IsNamed) {ending : Ending} (hl : t.locateWith ending p = .ok l) :
    ∀ name ∈ l, IsNodeName name := by
  refine (locateWith_eq_ok.mp hl).2.isNodeName ?_ fun _ => isName_of_mem_steps
  rw [origin]
  split
  · exact fun _ hx => absurd hx List.not_mem_nil
  · exact h.workingDirectory

/-! ### Changes -/

theorem put (h : t.IsNamed) (hl : ∀ name ∈ l, IsNodeName name) (n : Node) :
    (t.put l n).IsNamed := by
  refine ⟨fun k hk => ?_, h.workingDirectory⟩
  by_cases hkl : k = l
  · exact hkl ▸ hl
  · refine h.nodes k ?_
    unfold node? FileTree.put at hk
    rwa [Dict.get?_insert, if_neg hkl] at hk

theorem freeLocation (h : t.IsNamed) (hl : t.freeLocation p = .ok l) :
    ∀ name ∈ l, IsNodeName name := by
  obtain ⟨l', hl', hfree⟩ := Except.bind_eq_ok.mp hl
  split at hfree
  · cases hfree
  · cases hfree
    exact h.locateWith hl'

theorem put_free (h : t.IsNamed) {n : Node}
    (ht : (do return t.put (← t.freeLocation p) n) = Except.ok (ε := OsError) t') : t'.IsNamed := by
  obtain ⟨l, hl, ht⟩ := Except.bind_eq_ok.mp ht
  cases ht
  exact h.put (h.freeLocation hl) n

theorem write (h : t.IsNamed) {content : ByteArray} (ht : t.write p content = .ok t') :
    t'.IsNamed := by
  obtain ⟨_, _, ht⟩ := Except.bind_eq_ok.mp ht
  obtain ⟨l, hl, ht⟩ := Except.bind_eq_ok.mp ht
  split at ht
  · cases ht
  · cases ht
    exact h.put (h.locateWith hl) _

end IsNamed

/-! ### Work -/

open Disk

section
variable {P : FileTree → Prop} (hP : ∀ t t' p, P t → t.makeDirectory p = .ok t' → P t')
include hP

theorem keeps_makeOrFind (p : Path) : Keeps P (makeOrFind p) := by
  intro t h
  rw [on_makeOrFind]
  cases ht : t.makeDirectory p with
  | error e => exact h
  | ok t' => exact hP t t' p h ht

theorem keeps_makeDirectories : ∀ (fuel : Nat) (p : Path), Keeps P (makeDirectories fuel p)
  | 0, _ => keeps_throw _
  | fuel + 1, p => by
    intro t h
    rw [on_makeDirectories]
    split
    · exact h
    · split
      · cases p.parent? with
        | none => exact h
        | some parent =>
          exact ((keeps_makeDirectories fuel parent).bind fun _ => keeps_makeOrFind hP p) t h
      · exact keeps_makeOrFind hP p t h

theorem keeps_createDirectories (p : Path) : Keeps P (createDirectories p) :=
  keeps_makeDirectories hP _ p

theorem keeps_createParent (p : Path) : Keeps P (createParent p) := by
  rw [createParent]
  split
  · exact keeps_createDirectories hP _
  · exact keeps_pure _

/-- What each of the changes keeps that a layout is made of, making all of it keeps. -/
theorem keeps_lay (hwrite : ∀ t t' p content, P t → t.write p content = .ok t' → P t')
    (hlink : ∀ t l p target, P t → t.freeLocation p = .ok l → P (t.put l (.link target)))
    (l : Layout) : Keeps P (lay l) := by
  refine (keeps_forM (keeps_createDirectories hP) _).bind fun _ => ?_
  refine (keeps_forM (fun (p, content) => ?_) _).bind fun _ => keeps_forM (fun (p, target) => ?_) _
  · exact (keeps_createParent hP p).bind fun _ => keeps_change fun _ _ h => hwrite _ _ _ _ h
  · refine (keeps_createParent hP p).bind fun _ => keeps_change fun t t' h ht => ?_
    obtain ⟨l, hl, ht⟩ := Except.bind_eq_ok.mp ht
    cases ht
    exact hlink t l p target h hl

end

theorem node?_bare (l k : Location) :
    (bare l).node? k = if k <+: l then some .directory else none := by
  by_cases hnil : k = []
  · rw [node?, if_pos hnil, if_pos (hnil ▸ List.nil_prefix)]
  · have hmem : (k ∈ (List.range l.length).map fun n => l.take (n + 1)) ↔ k <+: l := by
      rw [List.mem_map]
      constructor
      · rintro ⟨n, -, rfl⟩
        exact List.take_prefix _ _
      · intro hk
        have hlength := hk.length_le
        have hpos := List.length_pos_iff.mpr hnil
        refine ⟨k.length - 1, List.mem_range.mpr (by omega), ?_⟩
        rw [Nat.sub_add_cancel hpos, ← List.prefix_iff_eq_take.mp hk]
    rw [node?, if_neg hnil, bare, Dict.get?_ofList_const]
    simp only [hmem]

theorem isNamed_bare {l : Location} (hl : ∀ name ∈ l, IsNodeName name) : (bare l).IsNamed := by
  refine ⟨fun k hk name hname => ?_, hl⟩
  rw [node?_bare] at hk
  split at hk
  · exact hl name (List.IsPrefix.subset ‹_› hname)
  · cases hk

theorem isNamed_of_ofLayout? {l : Location} (hl : ∀ name ∈ l, IsNodeName name) {layout : Layout}
    {t : FileTree} (h : ofLayout? l layout = some t) : t.IsNamed := by
  have hkeep := keeps_lay (fun _ _ _ h => h.put_free) (fun _ _ _ _ h => h.write)
    (fun _ _ _ _ h hk => h.put (h.freeLocation hk) _) layout _ (isNamed_bare hl)
  unfold ofLayout? at h
  split at h
  · rename_i heq
    rw [heq] at hkeep
    cases h
    exact hkeep
  · cases h

end FileTree
end ForcingData
