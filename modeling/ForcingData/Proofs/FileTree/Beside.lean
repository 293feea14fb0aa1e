import ForcingData.Proofs.FileTree.Inside
import ForcingData.Proofs.FileTree.Replace

/-! # Trees beside some files

Two trees agree beside some places if they differ at these places at most, and only in files that
are there or not. Paths lead through the same directories and links in both, so that another file is
replaced in both in the same way (`Beside.replace`), also where what is left of temporary files is
passed over. -/

namespace ForcingData.FileTree

/-- There is nothing, or a file. -/
def IsPlain (n : Option Node) : Prop := n = none ∨ ∃ content, n = some (.file content)

theorem isPlain_of_ne {n : Option Node} (hd : n ≠ some .directory)
    (hl : ∀ target, n ≠ some (.link target)) : IsPlain n := by
  rcases n with _ | _ | _ | target
  · exact .inl rfl
  · exact .inr ⟨_, rfl⟩
  · exact absurd rfl hd
  · exact absurd rfl (hl target)

theorem IsPlain.file_of_eq {n : Option Node} {m : Node} (h : IsPlain n) (hn : n = some m) :
    ∃ content, m = .file content := by
  rcases h with h | ⟨content, h⟩
  · rw [hn] at h
    cases h
  · rw [hn] at h
    exact ⟨content, Option.some.inj h⟩

structure Beside (places : Location → Prop) (t t' : FileTree) : Prop where
  workingDirectory : t'.workingDirectory = t.workingDirectory
  node : ∀ k, t'.node? k = t.node? k ∨
    places k ∧ IsPlain (t.node? k) ∧ IsPlain (t'.node? k)

namespace Beside
variable {places places' : Location → Prop} {t t' t'' : FileTree} {k : Location}

theorem refl (places : Location → Prop) (t : FileTree) : Beside places t t :=
  ⟨rfl, fun _ => .inl rfl⟩

theorem symm (h : Beside places t t') : Beside places t' t :=
  ⟨h.workingDirectory.symm, fun k => (h.node k).imp Eq.symm fun ⟨hk, ht, ht'⟩ => ⟨hk, ht', ht⟩⟩

theorem mono (h : Beside places t t') (hsub : ∀ k, places k → places' k) : Beside places' t t' :=
  ⟨h.workingDirectory, fun k => (h.node k).imp id fun ⟨hk, hplain⟩ => ⟨hsub k hk, hplain⟩⟩

theorem trans (h : Beside places t t') (h' : Beside places t' t'') : Beside places t t'' := by
  refine ⟨h'.workingDirectory.trans h.workingDirectory, fun k => ?_⟩
  rcases h.node k with hsame | ⟨hk, ht, ht'⟩
  · rcases h'.node k with hsame' | ⟨hk, ht', ht''⟩
    · exact .inl (hsame'.trans hsame)
    · exact .inr ⟨hk, hsame ▸ ht', ht''⟩
  · rcases h'.node k with hsame' | ⟨_, _, ht''⟩
    · exact .inr ⟨hk, ht, hsame'.symm ▸ ht'⟩
    · exact .inr ⟨hk, ht, ht''⟩

theorem node_eq (h : Beside places t t') (hk : ¬places k) : t'.node? k = t.node? k :=
  (h.node k).resolve_right fun hplace => hk hplace.1

theorem node_eq_some (h : Beside places t t') {n : Node} (hn : t.node? k = some n)
    (hfile : ∀ content, n ≠ .file content) : t'.node? k = some n := by
  rcases h.node k with hsame | ⟨_, ht, _⟩
  · exact hsame.trans hn
  · obtain ⟨content, rfl⟩ := ht.file_of_eq hn
    exact absurd rfl (hfile content)

theorem isDirectoryAt (h : Beside places t t') (hd : t.isDirectoryAt k = true) :
    t'.isDirectoryAt k = true :=
  isDirectoryAt_iff.mpr (h.node_eq_some (isDirectoryAt_iff.mp hd) nofun)

theorem put (hk : IsPlain (t.node? k)) (content : ByteArray) :
    Beside (· = k) t (t.put k (.file content)) := by
  have hnil : k ≠ [] := by
    rintro rfl
    obtain ⟨_, hfile⟩ := hk.file_of_eq (m := .directory) rfl
    cases hfile
  refine ⟨rfl, fun x => ?_⟩
  rw [node?_put t hnil]
  split
  · rename_i hx
    exact .inr ⟨hx, hx ▸ hk, .inr ⟨content, rfl⟩⟩
  · exact .inl rfl

end Beside

theorem put_comm {t : FileTree} {k l : Location} (h : k ≠ l) (m n : Node) :
    (t.put k m).put l n = (t.put l n).put k m := by
  unfold FileTree.put
  congr 1
  refine Dict.ext_get? fun x => ?_
  simp only [Dict.get?_insert]
  by_cases hx : x = l
  · subst hx
    rw [if_pos rfl, if_neg h.symm, if_pos rfl]
  · rw [if_neg hx, if_neg hx]

/-! ### Walks -/

section
variable {places : Location → Prop} {t t' : FileTree} {ending : Ending} {links : Nat}
  {here k : Location} {names : List String} {name : String} {p : Path}

/-- A walk whose end may be missing does not depend on whether there is a file at its end. -/
theorem Leads.beside (hb : Beside places t t') (hm : ending.missing = true)
    (h : Leads t ending links here names k) : Leads t' ending links here names k := by
  induction h with
  | done => exact .done ..
  | stay hd _ ih => exact .stay (hb.isDirectoryAt hd) ih
  | up hd _ ih => exact .up (hb.isDirectoryAt hd) ih
  | @nothing _ here name hd hs hn hm =>
    rcases hb.node (here ++ [name]) with hsame | ⟨_, _, hplain⟩
    · exact .nothing (hb.isDirectoryAt hd) hs (hsame.trans hn) hm
    · rcases hplain with hnone | ⟨content, hfile⟩
      · exact .nothing (hb.isDirectoryAt hd) hs hnone hm
      · exact .child (hb.isDirectoryAt hd) hs hfile nofun (.done ..)
  | lastLink hd hs hn hf =>
    exact .lastLink (hb.isDirectoryAt hd) hs (hb.node_eq_some hn nofun) hf
  | link hd hs hn hf _ ih =>
    exact .link (hb.isDirectoryAt hd) hs (hb.node_eq_some hn nofun) hf ih
  | @child _ here _ name rest n hd hs hn hl h ih =>
    rcases hb.node (here ++ [name]) with hsame | ⟨_, hplain, hplain'⟩
    · exact .child (hb.isDirectoryAt hd) hs (hsame.trans hn) hl ih
    · -- beyond a file the walk does not go on
      obtain ⟨content, rfl⟩ := hplain.file_of_eq hn
      obtain ⟨rfl, rfl⟩ := h.done_or_directory.resolve_right fun hdir => by
        rw [isDirectoryAt_iff, hn] at hdir
        cases hdir
      rcases hplain' with hnone | ⟨content', hfile⟩
      · exact .nothing (hb.isDirectoryAt hd) hs hnone hm
      · exact .child (hb.isDirectoryAt hd) hs hfile nofun (.done ..)

theorem Beside.origin_eq (hb : Beside places t t') (p : Path) : t'.origin p = t.origin p := by
  rw [origin, origin, hb.workingDirectory]

theorem Beside.locateWith (hb : Beside places t t') (hm : ending.missing = true) :
    t'.locateWith ending p = .ok k ↔ t.locateWith ending p = .ok k := by
  rw [locateWith_eq_ok, locateWith_eq_ok, hb.origin_eq]
  exact ⟨fun h => ⟨h.1, h.2.beside hb.symm hm⟩, fun h => ⟨h.1, h.2.beside hb hm⟩⟩

/-- A walk to a name is one to a directory, and then a step. -/
theorem Leads.exists_append (h : Leads t ending links here (names ++ [name]) k)
    (hhere : name ≠ ".") (hup : name ≠ "..") : ∃ l, Leads t ⟨true, false⟩ links here names l ∧
      t.isDirectoryAt l = true ∧ (ending.follow = false → k = l ++ [name]) := by
  -- the last step is taken in the first case of `names`, all others lead on to it
  generalize hall : names ++ [name] = all at h
  induction h generalizing names with
  | done => simp at hall
  | stay hd _ ih =>
    cases names with
    | nil => exact absurd (List.cons.inj hall).1 hhere
    | cons first names =>
      obtain ⟨rfl, hrest⟩ := List.cons.inj hall
      obtain ⟨l, hl, hrest⟩ := ih hrest
      exact ⟨l, .stay hd hl, hrest⟩
  | up hd _ ih =>
    cases names with
    | nil => exact absurd (List.cons.inj hall).1 hup
    | cons first names =>
      obtain ⟨rfl, hrest⟩ := List.cons.inj hall
      obtain ⟨l, hl, hrest⟩ := ih hrest
      exact ⟨l, .up hd hl, hrest⟩
  | nothing hd | lastLink hd =>
    cases names with
    | nil =>
      obtain ⟨rfl, -⟩ := List.cons.inj hall
      exact ⟨_, .done .., hd, fun _ => rfl⟩
    | cons first names => simp at hall
  | @link _ _ _ _ rest target hd hs' hn hf _ ih =>
    cases names with
    | nil =>
      obtain ⟨rfl, hnil⟩ := List.cons.inj hall
      exact ⟨_, .done .., hd, fun hstop => absurd (hf hnil.symm) (by simp [hstop])⟩
    | cons first names =>
      obtain ⟨rfl, rfl⟩ := List.cons.inj hall
      have hall : (steps target ++ names) ++ [name] = steps target ++ (names ++ [name]) :=
        List.append_assoc ..
      obtain ⟨l, hl, hrest⟩ := ih hall
      exact ⟨l, .link hd hs' hn (fun _ => rfl) hl, hrest⟩
  | child hd hs' hn hlink h ih =>
    cases names with
    | nil =>
      obtain ⟨rfl, rfl⟩ := List.cons.inj hall
      cases h
      exact ⟨_, .done .., hd, fun _ => rfl⟩
    | cons first names =>
      obtain ⟨rfl, hrest⟩ := List.cons.inj hall
      obtain ⟨l, hl, hrest⟩ := ih hrest
      exact ⟨l, .child hd hs' hn hlink hl, hrest⟩

theorem steps_name (hname : Path.IsName name) : steps ⟨name⟩ = [name] := by
  have hpieces : Text.splitAt '/' name = [name] := by
    simp [Text.splitAt, hname.splitChars_eq]
  unfold steps
  simp only [hpieces]
  rw [if_neg (by simp [hname.1])]
  simp [hname.1]

theorem exists_steps_join (p : Path) (hname : Path.IsName name) :
    ∃ names, steps (p.join ⟨name⟩) = names ++ [name] := by
  by_cases hp : p.text = ""
  · have hjoin : p.join ⟨name⟩ = ⟨name⟩ := by
      simp [Path.join, Path.not_isAbsolute_mk hname.2, hp]
    exact ⟨[], by rw [hjoin, steps_name hname, List.nil_append]⟩
  · obtain ⟨names, hjoin, _⟩ := steps_join hp hname
    exact ⟨names, hjoin⟩

/-- Whatever is at the end of a path, the directory that it is in is reached first. -/
theorem exists_walk_last (hhere : name ≠ ".") (hup : name ≠ "..")
    (hsteps : steps p = names ++ [name]) (h : t.locateWith ending p = .ok k) :
    ∃ links l, t.isDirectoryAt l = true ∧ (ending.follow = false → k = l ++ [name]) ∧
      ∀ ending', t.locateWith ending' p = t.walk ending' links l [name] := by
  obtain ⟨hrefused, hleads⟩ := locateWith_eq_ok.mp h
  rw [hsteps] at hleads
  obtain ⟨l, hl, hd, hlast⟩ := hleads.exists_append hhere hup
  obtain ⟨links, hwalk⟩ := hl.walk_append
  refine ⟨links, l, hd, hlast, fun ending' => ?_⟩
  rw [FileTree.locateWith, hrefused, hsteps]
  exact hwalk ending' [name] (List.cons_ne_nil _ _)

theorem getLast?_of_locateWith (hhere : name ≠ ".") (hup : name ≠ "..")
    (hsteps : steps p = names ++ [name]) (h : t.locateWith ⟨false, true⟩ p = .ok k) :
    k.getLast? = some name := by
  obtain ⟨_, l, _, hlast, _⟩ := exists_walk_last hhere hup hsteps h
  rw [hlast rfl, List.getLast?_concat]

/-- What may be missing, and is not followed, is always in its directory. -/
theorem walk_last (hd : t.isDirectoryAt here = true) (hs : IsStep name) (links : Nat) :
    t.walk ⟨false, true⟩ links here [name] = .ok (here ++ [name]) := by
  cases hn : t.node? (here ++ [name]) with
  | none => rw [walk_nothing hd hs hn]; rfl
  | some n =>
    cases n with
    | link target => exact walk_last_link hd hs hn rfl
    | file content => rw [walk_child hd hs hn (by simp), walk]
    | directory => rw [walk_child hd hs hn (by simp), walk]

theorem exists_locateWith (hs : IsStep name) (hsteps : steps p = names ++ [name])
    (h : t.locateWith ending p = .ok k) : ∃ k', t.locateWith ⟨false, true⟩ p = .ok k' := by
  obtain ⟨links, l, hd, _, hwalk⟩ := exists_walk_last hs.not_here hs.not_up hsteps h
  exact ⟨l ++ [name], by rw [hwalk, walk_last hd hs]⟩

/-- A name that is a path by itself. -/
structure IsPathName (name : String) : Prop where
  isName : Path.IsName name
  isStep : IsStep name
  allowed : refused? ⟨name⟩ = none

instance : DecidablePred IsPathName := fun name =>
  decidable_of_iff (Path.IsName name ∧ (name ≠ "." ∧ name ≠ ".." ∧
      name.utf8ByteSize ≤ nameLimit) ∧ refused? ⟨name⟩ = none)
    ⟨fun ⟨hname, hs, hr⟩ => ⟨hname, ⟨hs.1, hs.2.1, hs.2.2⟩, hr⟩,
      fun h => ⟨h.isName, ⟨h.isStep.not_here, h.isStep.not_up, h.isStep.short⟩, h.allowed⟩⟩

theorem IsPathName.locateWith (h : IsPathName name)
    (hd : t.isDirectoryAt t.workingDirectory = true) :
    t.locateWith ⟨false, true⟩ ⟨name⟩ = .ok (t.workingDirectory ++ [name]) := by
  rw [FileTree.locateWith, h.allowed, steps_name h.isName, origin,
    Path.not_isAbsolute_mk h.isName.2]
  exact walk_last hd h.isStep _

/-- What is looked up under a path is what stands there, if this is no link. -/
theorem lookup_of_locateWith (hs : IsStep name) (hsteps : steps p = names ++ [name])
    (h : t.locateWith ⟨false, true⟩ p = .ok k)
    (hlink : ∀ target, t.node? k ≠ some (.link target)) : t.lookup p =
      match t.node? k with
      | some n => .ok n
      | none => .error .notFound := by
  obtain ⟨links, l, hd, hlast, hwalk⟩ := exists_walk_last hs.not_here hs.not_up hsteps h
  obtain rfl := hlast rfl
  rw [lookup, locate, hwalk]
  cases hn : t.node? (l ++ [name]) with
  | none => rw [walk_nothing hd hs hn]; rfl
  | some n =>
    rw [walk_child hd hs hn fun target he => hlink target (hn.trans (congrArg some he)), walk]
    simp only [bind, Except.bind, hn]

/-- What stands at another place is found as before. -/
theorem Beside.lookup_eq (hb : Beside places t t') (hs : IsStep name)
    (hsteps : steps p = names ++ [name]) (hk : t.locateWith ⟨false, true⟩ p = .ok k)
    (hlink : ∀ target, t.node? k ≠ some (.link target)) (hnode : t'.node? k = t.node? k) :
    t'.lookup p = t.lookup p := by
  rw [lookup_of_locateWith hs hsteps hk hlink,
    lookup_of_locateWith hs hsteps ((hb.locateWith rfl).mpr hk) (hnode.symm ▸ hlink), hnode]

end

/-! ### Temporary files -/

def temporaryName (n : Nat) : String := s!".tmp{n}"

/-- The path of a temporary file. -/
def temporary (directory : Path) (n : Nat) : Path := directory.join ⟨temporaryName n⟩

/-- Is there something under the name of this temporary file? -/
def Taken (t : FileTree) (directory : Path) (n : Nat) : Prop :=
  t.freeLocation (temporary directory n) = .error .alreadyExists

theorem toList_temporaryName (n : Nat) :
    (temporaryName n).toList = ['.', 't', 'm', 'p'] ++ Nat.toDigits 10 n := by
  simp [temporaryName, toString]

theorem temporaryName_inj {m n : Nat} (h : temporaryName m = temporaryName n) : m = n := by
  have hdigits := congrArg String.toList h
  rw [toList_temporaryName, toList_temporaryName] at hdigits
  have hvalue := congrArg (Nat.ofDigitChars 10 · 0) (List.append_cancel_left hdigits)
  simpa only [Nat.ofDigitChars_ten_toDigits] using hvalue

/-- Nothing leads to a location that is taken already: this is only found out at the end. -/
theorem walk_ne_alreadyExists (t : FileTree) (ending : Ending) (links : Nat) (here : Location)
    (names : List String) : t.walk ending links here names ≠ .error .alreadyExists := by
  fun_induction walk t ending links here names <;> simp_all

theorem locateWith_ne_alreadyExists (t : FileTree) (ending : Ending) (p : Path) :
    t.locateWith ending p ≠ .error .alreadyExists := by
  unfold locateWith
  cases h : refused? p with
  | none => exact walk_ne_alreadyExists t ending _ _ _
  | some e =>
    rintro he
    obtain rfl := Except.error.inj he
    unfold refused? at h
    split at h
    · cases h
    · split at h
      · cases h
      · split at h <;> cases h

theorem taken_iff {t : FileTree} {directory : Path} {n : Nat} : t.Taken directory n ↔
    ∃ k, t.locateWith ⟨false, true⟩ (temporary directory n) = .ok k ∧
      (t.node? k).isSome = true := by
  rw [Taken, freeLocation]
  cases h : t.locateWith ⟨false, true⟩ (temporary directory n) with
  | error e =>
    constructor
    · intro he
      obtain rfl := Except.error.inj he
      exact absurd h (locateWith_ne_alreadyExists t _ _)
    · rintro ⟨_, hk, _⟩
      cases hk
  | ok k =>
    simp only [bind, Except.bind, Except.ok.injEq, exists_eq_left']
    split <;> simp_all

/-- The first name that is free, if it is among the next ones. -/
theorem freeName_of_taken {t : FileTree} {directory : Path} {k : Nat}
    (hfree : ¬t.Taken directory k) {fuel : Nat} : ∀ {n : Nat}, n ≤ k → k ≤ n + fuel →
      (∀ m, n ≤ m → m < k → t.Taken directory m) →
      t.freeName directory fuel n = temporary directory k := by
  induction fuel with
  | zero =>
    intro n hle hfuel _
    obtain rfl : n = k := by omega
    rfl
  | succ fuel ih =>
    intro n hle hfuel htaken
    unfold freeName
    simp only
    rcases Nat.eq_or_lt_of_le hle with rfl | hlt
    · split
      · rename_i hn
        exact absurd hn hfree
      · rfl
    · have hn : t.freeLocation (directory.join ⟨s!".tmp{n}"⟩) = .error .alreadyExists :=
        htaken n (Nat.le_refl n) hlt
      simp only [hn]
      exact ih hlt (by omega) fun m hm => htaken m (by omega)

theorem exists_freeName (t : FileTree) (directory : Path) (fuel : Nat) : ∀ n, ∃ k,
    t.freeName directory fuel n = temporary directory k ∧
      ∀ m, n ≤ m → m < k → t.Taken directory m := by
  induction fuel with
  | zero => exact fun n => ⟨n, rfl, fun m hm hlt => by omega⟩
  | succ fuel ih =>
    intro n
    unfold freeName
    simp only
    split
    · rename_i hn
      obtain ⟨k, hk, htaken⟩ := ih (n + 1)
      refine ⟨k, hk, fun m hm hlt => ?_⟩
      rcases Nat.eq_or_lt_of_le hm with rfl | hm
      · exact hn
      · exact htaken m hm hlt
    · exact ⟨n, rfl, fun m hm hlt => by omega⟩

theorem getLast?_temporary {t : FileTree} {directory : Path} {n : Nat} {k : Location}
    (h : t.locateWith ⟨false, true⟩ (temporary directory n) = .ok k) :
    k.getLast? = some (temporaryName n) := by
  have hne {name : String} (hname : name.toList.length < 4) : temporaryName n ≠ name := by
    rintro rfl
    rw [toList_temporaryName, List.length_append, List.length_cons] at hname
    simp at hname
  obtain ⟨names, hsteps⟩ := exists_steps_join directory (isName_temporary n)
  exact getLast?_of_locateWith (hne (by decide)) (hne (by decide)) hsteps h

theorem le_size_of_taken {t : FileTree} {directory : Path} {k : Nat}
    (h : ∀ m < k, t.Taken directory m) : k ≤ t.nodes.size := by
  have hsub : (List.range k).map (fun m => some (temporaryName m)) ⊆
      t.nodes.keys.map List.getLast? := by
    intro name hname
    obtain ⟨m, hm, rfl⟩ := List.mem_map.mp hname
    obtain ⟨l, hl, hsome⟩ := taken_iff.mp (h m (List.mem_range.mp hm))
    have hlast := getLast?_temporary hl
    have hnil : l ≠ [] := by
      rintro rfl
      cases hlast
    exact List.mem_map.mpr ⟨l, (isSome_node? hnil).mp hsome, hlast⟩
  have hnodup : ((List.range k).map fun m => some (temporaryName m)).Nodup :=
    List.nodup_range.map fun m n hmn => temporaryName_inj (Option.some.inj hmn)
  have hle := (List.subperm_of_subset hnodup hsub).length_le
  simpa [Dict.keys, Dict.size] using hle

section
variable {places : Location → Prop} {t t' : FileTree} {directory p : Path} {k x : Location}
  {content : ByteArray}

/-- None of the places is that of a temporary file. -/
def NotTemporary (places : Location → Prop) : Prop :=
  ∀ k, places k → ∀ n, k.getLast? ≠ some (temporaryName n)

theorem Beside.taken (hb : Beside places t t') (hplaces : NotTemporary places) {n : Nat}
    (h : t.Taken directory n) : t'.Taken directory n := by
  obtain ⟨l, hl, hsome⟩ := taken_iff.mp h
  refine taken_iff.mpr ⟨l, (hb.locateWith rfl).mpr hl, ?_⟩
  rw [hb.node_eq fun hplace => hplaces l hplace n (getLast?_temporary hl)]
  exact hsome

/-- The first free name is the same, whatever else there is. -/
theorem Beside.freeName (hb : Beside places t t') (hplaces : NotTemporary places)
    (h : t.freeLocation (t.freeName directory t.nodes.size 0) = .ok x) :
    t'.freeLocation (t'.freeName directory t'.nodes.size 0) = .ok x := by
  obtain ⟨k, hk, htaken⟩ := exists_freeName t directory t.nodes.size 0
  rw [hk] at h
  have htaken' : ∀ m < k, t'.Taken directory m := fun m hm =>
    hb.taken hplaces (htaken m (Nat.zero_le m) hm)
  have hfree : ¬t'.Taken directory k := by
    intro hk'
    have hk := hb.symm.taken hplaces hk'
    rw [Taken, h] at hk
    cases hk
  have hsize := le_size_of_taken htaken'
  rw [freeName_of_taken hfree (Nat.zero_le k) (by omega) fun m _ => htaken' m]
  obtain ⟨hx, hnone⟩ := freeLocation_eq_ok.mp h
  refine freeLocation_eq_ok.mpr ⟨(hb.locateWith rfl).mpr hx, ?_⟩
  rw [hb.node_eq fun hplace => hplaces x hplace k (getLast?_temporary hx), hnone]

/-! ### Replacing a file -/

/-- A file is replaced where no directory is in the way and there can be a temporary file. -/
theorem on_replace_iff {t₁ : FileTree} : (replace p content).on t = (.ok (), t₁) ↔
    ∃ x k, t.freeLocation (t.freeName (directoryOf p) t.nodes.size 0) = .ok x ∧
      t.locateWith ⟨false, true⟩ p = .ok k ∧ t.node? k ≠ some .directory ∧
      t₁ = t.put k (.file content) := by
  have hslash := slash_freeName t (directoryOf p) t.nodes.size 0
  cases hfree : t.freeLocation (t.freeName (directoryOf p) t.nodes.size 0) with
  | error e =>
    rw [on_replace_of_not_free rfl hslash hfree]
    exact ⟨nofun, fun ⟨_, _, hx, _⟩ => nomatch hx⟩
  | ok x =>
    have hnone := (freeLocation_eq_ok.mp hfree).2
    -- the temporary file is in nobody's way
    have hb : Beside (· = x) t (t.put x (.file content)) := .put (.inl hnone) content
    have hnode (k : Location) : (t.put x (.file content)).isDirectoryAt k = true ↔
        t.node? k = some .directory := by
      rw [isDirectoryAt_iff]
      exact ⟨fun h => hb.symm.node_eq_some h nofun, fun h => hb.node_eq_some h nofun⟩
    rw [on_replace_of_free rfl hslash hfree]
    constructor
    · intro h
      cases hr : (t.put x (.file content)).rename _ p with
      | error e =>
        rw [hr] at h
        cases h
      | ok t' =>
        rw [hr] at h
        cases h
        obtain ⟨k, hk, rfl⟩ := rename_new hfree content hr
        refine ⟨x, k, rfl, (hb.locateWith rfl).mp hk, fun hd => ?_, rfl⟩
        rw [rename_new_directory hfree content hk ((hnode k).mpr hd)] at hr
        cases hr
    · rintro ⟨_, k, hx, hk, hd, rfl⟩
      obtain rfl := Except.ok.inj hx
      rw [rename_new_eq_ok hfree content ((hb.locateWith rfl).mpr hk)
        (Bool.eq_false_iff.mpr fun h => hd ((hnode k).mp h))]

/-- What is replaced in one tree is replaced in the other, if it is the same there. -/
theorem Beside.on_replace (hb : Beside places t t') (hplaces : NotTemporary places)
    (hk : t.locateWith ⟨false, true⟩ p = .ok k) (hnode : t'.node? k = t.node? k) {t₁ : FileTree}
    (h : (replace p content).on t = (.ok (), t₁)) :
    (replace p content).on t' = (.ok (), t'.put k (.file content)) := by
  obtain ⟨x, l, hx, hl, hd, -⟩ := on_replace_iff.mp h
  obtain rfl := Except.ok.inj (hk.symm.trans hl)
  exact on_replace_iff.mpr ⟨x, k, hb.freeName hplaces hx, (hb.locateWith rfl).mpr hk,
    hnode ▸ hd, rfl⟩

end
end ForcingData.FileTree
