import ForcingData.Proofs.FileTree.Walk
import ForcingData.Proofs.Path
import ForcingData.Proofs.Results
import Mathlib.Data.String.Basic

/-! # Inside a directory

Where a path leads to a directory, the path of a name in it leads to what has this name there:
`locateWith_join`, and for files `read_join`. -/

namespace ForcingData.FileTree
open Text

/-! ### Steps -/

theorem splitAt_join {p : Path} {name : String} (hname : Path.IsName name) {before : List Char}
    (h : p.text.toList = before ++ '/' :: name.toList) :
    splitAt '/' p.text = (splitChars (· == '/') before).map String.ofList ++ [name] := by
  rw [splitAt, h, Path.splitChars_append_cons (by rfl), hname.splitChars_eq, List.map_append]
  simp

/-- The names between slashes. -/
def namesOf (cs : List Char) : List String :=
  ((splitChars (· == '/') cs).map String.ofList).filter (· ≠ "")

theorem steps_join {p : Path} (hp : p.text ≠ "") {name : String} (hname : Path.IsName name) :
    ∃ names, steps (p.join ⟨name⟩) = names ++ [name] ∧
      (steps p = names ∨ steps p = names ++ ["."]) := by
  obtain ⟨before, htext, hcases⟩ := Path.exists_join_name hp hname
  refine ⟨namesOf before, ?_, ?_⟩
  · unfold steps
    simp only [splitAt_join hname htext, List.getLast?_concat, List.filter_append]
    rw [if_neg (by simp [hname.1])]
    simp [namesOf, hname.1]
  · have hnames : (splitAt '/' p.text).filter (· ≠ "") = namesOf before := by
      rcases hcases with h | h
      · rw [splitAt, h]
        rfl
      · rw [splitAt, h, Path.splitChars_append_cons (by rfl), List.map_append, List.filter_append]
        simp [namesOf, splitChars]
    unfold steps
    simp only [hnames]
    split
    · exact .inr rfl
    · exact .inl rfl

theorem origin_join {t : FileTree} {p : Path} (hp : p.text ≠ "") {name : String}
    (hname : Path.IsName name) : t.origin (p.join ⟨name⟩) = t.origin p := by
  have habs : (p.join ⟨name⟩).isAbsolute = p.isAbsolute := by
    obtain ⟨before, htext, hcases⟩ := Path.exists_join_name hp hname
    have hne : p.text.toList ≠ [] := fun he => hp (String.toList_eq_nil_iff.mp he)
    rw [Path.isAbsolute, Path.isAbsolute, htext]
    rcases hcases with h | h
    · rw [h] at hne ⊢
      rw [List.head?_append_of_ne_nil _ hne]
    · rw [h]
      cases before <;> rfl
  rw [origin, origin, habs]

/-! ### Refused paths -/

theorem text_join_ne {p : Path} (hp : p.text ≠ "") {name : String} (hname : Path.IsName name) :
    (p.join ⟨name⟩).text ≠ "" := by
  obtain ⟨before, htext, _⟩ := Path.exists_join_name hp hname
  intro he
  rw [he] at htext
  simp at htext

theorem refused?_eq_none {p : Path} : refused? p = none ↔
    '\x00' ∉ p.text.toList ∧ p.text ≠ "" ∧ p.text.utf8ByteSize ≤ pathLimit := by
  unfold refused?
  by_cases hnul : '\x00' ∈ p.text.toList
  · simp [hnul]
  · by_cases hne : p.text = ""
    · simp [hne]
    · simp [hnul, hne]

/-- A path is not refused for a name at its end, if it does not become too long. -/
theorem refused?_join {p : Path} (hp : refused? p = none) {name : String}
    (hname : Path.IsName name) (hnul : '\x00' ∉ name.toList)
    (hshort : p.text.utf8ByteSize + 1 + name.utf8ByteSize ≤ pathLimit) :
    refused? (p.join ⟨name⟩) = none := by
  obtain ⟨hpnul, hne, _⟩ := refused?_eq_none.mp hp
  obtain ⟨before, htext, hbefore⟩ := Path.exists_join_name hne hname
  have hsub : (∀ c ∈ before, c ∈ p.text.toList) ∧
      String.utf8Len before ≤ p.text.utf8ByteSize := by
    rw [← String.utf8Len_toList]
    rcases hbefore with h | h
    · rw [h]
      exact ⟨fun _ hc => hc, Nat.le_refl _⟩
    · rw [h, String.utf8Len_append]
      exact ⟨fun _ hc => List.mem_append_left _ hc, Nat.le_add_right _ _⟩
  refine refused?_eq_none.mpr ⟨fun hm => ?_, fun he => ?_, ?_⟩
  · rw [htext, List.mem_append] at hm
    rcases hm with hm | hm
    · exact hpnul (hsub.1 _ hm)
    · rcases List.mem_cons.mp hm with hm | hm
      · cases hm
      · exact hnul hm
  · exact text_join_ne hne hname he
  · rw [← String.utf8Len_toList, htext, String.utf8Len_append, String.utf8Len_cons,
      String.utf8Len_toList]
    have hslash : '/'.utf8Size = 1 := by decide
    omega

/-! ### Nodes in a directory -/

section
variable {t : FileTree} {directory : Path} {l : Location}

theorem text_ne_of_locate (h : t.locate directory = .ok l) : directory.text ≠ "" := by
  intro he
  have hrefused := (locateWith_eq_ok.mp h).1
  simp [refused?, he] at hrefused

theorem locateWith_join (h : t.locate directory = .ok l) {name : String}
    (hname : Path.IsName name) (hr : refused? (directory.join ⟨name⟩) = none) :
    ∃ links, ∀ ending, t.locateWith ending (directory.join ⟨name⟩) =
      t.walk ending links l [name] := by
  have hne := text_ne_of_locate h
  obtain ⟨names, hjoin, hsteps⟩ := steps_join hne hname
  have hleads : Leads t ⟨true, false⟩ linkLimit (t.origin directory) names l := by
    have hl := (locateWith_eq_ok.mp h).2
    rcases hsteps with hs | hs
    · rwa [hs] at hl
    · rw [hs] at hl
      exact hl.of_append_here
  obtain ⟨links, hwalk⟩ := hleads.walk_append
  refine ⟨links, fun ending => ?_⟩
  rw [locateWith, hr, hjoin, origin_join hne hname]
  exact hwalk ending [name] (List.cons_ne_nil _ _)

variable (h : t.locate directory = .ok l) (hd : t.isDirectoryAt l = true) {name : String}
  (hname : Path.IsName name) (hs : IsStep name)
include h hd hname hs

theorem locateWith_join_nothing (hr : refused? (directory.join ⟨name⟩) = none)
    (hn : t.node? (l ++ [name]) = none) (ending : Ending) :
    t.locateWith ending (directory.join ⟨name⟩) =
      if ending.missing then .ok (l ++ [name]) else .error .notFound := by
  obtain ⟨links, hwalk⟩ := locateWith_join h hname hr
  rw [hwalk, walk_nothing hd hs hn]
  simp

theorem locateWith_join_node (hr : refused? (directory.join ⟨name⟩) = none) {n : Node}
    (hn : t.node? (l ++ [name]) = some n) (hl : ∀ target, n ≠ .link target) (ending : Ending) :
    t.locateWith ending (directory.join ⟨name⟩) = .ok (l ++ [name]) := by
  obtain ⟨links, hwalk⟩ := locateWith_join h hname hr
  rw [hwalk]
  exact walk_eq_ok.mpr (.child hd hs hn hl (.done ..))

theorem lookup_join {content : ByteArray} (hr : refused? (directory.join ⟨name⟩) = none)
    (hn : t.node? (l ++ [name]) = some (.file content)) :
    t.lookup (directory.join ⟨name⟩) = .ok (.file content) := by
  rw [lookup, locate, locateWith_join_node h hd hname hs hr hn nofun]
  simp only [bind, Except.bind, hn]

theorem read_join {content : ByteArray} (hr : refused? (directory.join ⟨name⟩) = none)
    (hn : t.node? (l ++ [name]) = some (.file content)) :
    t.read (directory.join ⟨name⟩) = .ok content := by
  rw [read, lookup_join h hd hname hs hr hn]
  rfl

theorem exists?_join {content : ByteArray} (hr : refused? (directory.join ⟨name⟩) = none)
    (hn : t.node? (l ++ [name]) = some (.file content)) :
    t.exists? (directory.join ⟨name⟩) = true := by
  rw [exists?, lookup_join h hd hname hs hr hn]

theorem exists?_join_nothing (hn : t.node? (l ++ [name]) = none) :
    t.exists? (directory.join ⟨name⟩) = false := by
  rw [exists?, lookup, locate]
  cases hr : refused? (directory.join ⟨name⟩) with
  | some e =>
    rw [locateWith, hr]
    rfl
  | none =>
    rw [locateWith_join_nothing h hd hname hs hr hn]
    rfl

end

/-! ### The names in a directory -/

theorem mem_namesAt {t : FileTree} {l : Location} {name : String} :
    name ∈ t.namesAt l ↔ (t.node? (l ++ [name])).isSome = true := by
  rw [isSome_node? (List.append_ne_nil_of_right_ne_nil _ (List.cons_ne_nil _ _)), namesAt,
    List.mem_filterMap]
  constructor
  · rintro ⟨k, hk, hname⟩
    split at hname
    · subst_vars
      rwa [List.dropLast_append_getLast? name hname]
    · cases hname
  · exact fun hk => ⟨l ++ [name], hk, by simp⟩

theorem mem_namesAt_of_node {t : FileTree} {l : Location} {name : String} {n : Node}
    (h : t.node? (l ++ [name]) = some n) : name ∈ t.namesAt l :=
  mem_namesAt.mpr (by rw [h]; rfl)

theorem exists_of_names_eq_ok {t : FileTree} {p : Path} {names : List String}
    (h : t.names p = .ok names) :
    ∃ l, t.locate p = .ok l ∧ t.isDirectoryAt l = true ∧ names = t.namesAt l := by
  obtain ⟨l, hl, h⟩ := Except.bind_eq_ok.mp h
  split at h
  · rename_i hd
    exact ⟨l, hl, hd, (Except.ok.inj h).symm⟩
  · cases h

theorem names_eq_ok {t : FileTree} {p : Path} {l : Location} (h : t.locate p = .ok l)
    (hd : t.isDirectoryAt l = true) : t.names p = .ok (t.namesAt l) := by
  rw [names, h]
  simp only [bind, Except.bind, hd, if_true]

end ForcingData.FileTree
