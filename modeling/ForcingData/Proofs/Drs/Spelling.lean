import ForcingData.Proofs.Drs.RoundTrip
import ForcingData.Proofs.Metadata.Reached
import ForcingData.Metadata.Placement

/-! # Paths in the right place are read

Whether a file is where it belongs is decided by the parts of its path, and what can be read there
by the text. The two differ in the pieces between slashes that say nothing (`Path.silences`). Where
a path and the prescribed one agree in these as well, the one ends in the text of the other
(`Path.exists_endsWith`), and the values of the metadata are read (`Drs.parsePath_of_validate`). -/

namespace ForcingData

/-! ### Two kinds of entries -/

namespace Sum
variable {α β : Type}

theorem length_filterMap_getRight? (l : List (α ⊕ β)) :
    (l.filterMap Sum.getRight?).length = (l.map Sum.getLeft?).countP Option.isNone := by
  induction l with
  | nil => rfl
  | cons x l ih =>
    rw [List.map_cons]
    cases x with
    | inl a => rwa [List.filterMap_cons, List.countP_cons_of_neg (by simp)]
    | inr b =>
      rw [List.filterMap_cons, List.countP_cons_of_pos (by rfl), ← ih]
      rfl

/-- A list is known by where its left entries stand and by its right ones. -/
theorem list_ext : ∀ {l m : List (α ⊕ β)}, l.map Sum.getLeft? = m.map Sum.getLeft? →
    l.filterMap Sum.getRight? = m.filterMap Sum.getRight? → l = m
  | [], m, hl, _ => (List.map_eq_nil_iff.mp hl.symm).symm
  | x :: l, [], hl, _ => by cases hl
  | .inl a :: l, .inl b :: m, hl, hr => by
    simp only [List.map_cons, Sum.getLeft?_inl, List.cons.injEq, Option.some.injEq] at hl
    rw [hl.1, list_ext hl.2 hr]
  | .inl a :: l, .inr b :: m, hl, _ => by cases hl
  | .inr a :: l, .inl b :: m, hl, _ => by cases hl
  | .inr a :: l, .inr b :: m, hl, hr => by
    simp only [List.map_cons, Sum.getLeft?_inr, List.cons.injEq, true_and] at hl
    simp only [List.filterMap_cons, Sum.getRight?_inr, List.cons.injEq] at hr
    rw [hr.1, list_ext hl hr.2]

theorem list_isSuffix {l m : List (α ⊕ β)} (hl : l.map Sum.getLeft? <:+ m.map Sum.getLeft?)
    (hr : l.filterMap Sum.getRight? <:+ m.filterMap Sum.getRight?) : l <:+ m := by
  obtain ⟨before, hbefore⟩ := hl
  obtain ⟨first, last, rfl, _, hlast⟩ := List.append_eq_map_iff.mp hbefore
  have hlength : (l.filterMap Sum.getRight?).length = (last.filterMap Sum.getRight?).length := by
    rw [length_filterMap_getRight?, length_filterMap_getRight?, hlast]
  rw [List.filterMap_append] at hr
  have heq := (List.suffix_of_suffix_length_le hr (List.suffix_append ..) hlength.le).eq_of_length
    hlength
  rw [list_ext hlast.symm heq]
  exact List.suffix_append ..

end Sum

/-! ### Spelling -/

namespace Path
open Text

theorem joinPieces_append {b : List (List Char)} (hb : b ≠ []) : ∀ {a : List (List Char)}, a ≠ [] →
    joinPieces (a ++ b) = joinPieces a ++ '/' :: joinPieces b
  | [piece], _ => by
    obtain ⟨first, rest, rfl⟩ := List.exists_cons_of_ne_nil hb
    rfl
  | piece :: piece' :: a, _ => by
    have ih := joinPieces_append hb (List.cons_ne_nil piece' a)
    have hjoin (pieces : List (List Char)) : joinPieces (piece :: piece' :: pieces) =
        piece ++ '/' :: joinPieces (piece' :: pieces) := rfl
    rw [List.cons_append, List.cons_append, hjoin, ← List.cons_append, ih, hjoin, List.append_assoc,
      List.cons_append]

/-- What a piece says; one that says nothing stands for itself. -/
def spell (piece : List Char) : List Char ⊕ Part :=
  match Part.ofPiece piece with
  | some part => .inr part
  | none => .inl piece

/-- The first piece may be a root or a dot, which say something there. -/
def spellFirst (piece : List Char) (isAlone : Bool) : List Char ⊕ Part :=
  if piece = [] ∧ isAlone = false then .inr .root
  else if piece = ['.'] then .inr .here
  else spell piece

theorem exists_splitChars_cons {c : Char} (hc : c ≠ '/') (cs : List Char) :
    ∃ piece pieces, splitChars (· == '/') (c :: cs) = (c :: piece) :: pieces := by
  obtain ⟨piece, pieces, hpieces⟩ := List.exists_cons_of_ne_nil (splitChars_ne_nil (· == '/') cs)
  refine ⟨piece, pieces, ?_⟩
  rw [splitChars, if_neg (by simpa using hc), hpieces]

/-- All pieces of a path, the silent ones among them. -/
def spelled (p : Path) : List (List Char ⊕ Part) :=
  match splitChars (· == '/') p.text.toList with
  | [] => []
  | piece :: pieces => spellFirst piece pieces.isEmpty :: pieces.map spell

/-- The pieces that say nothing, at their places. -/
def silences (p : Path) : List (Option (List Char)) := p.spelled.map Sum.getLeft?

def Part.chars : Part → List Char
  | .root => []
  | .here => ['.']
  | .up => ['.', '.']
  | .name text => text.toList

/-- The text of a piece. -/
def unspell : List Char ⊕ Part → List Char
  | .inl piece => piece
  | .inr part => part.chars

theorem unspell_spell (piece : List Char) : unspell (spell piece) = piece := by
  unfold spell Part.ofPiece
  split_ifs with hvoid hup
  · rfl
  · exact hup.symm
  · exact String.toList_ofList

theorem unspell_spellFirst (piece : List Char) (isAlone : Bool) :
    unspell (spellFirst piece isAlone) = piece := by
  unfold spellFirst
  split_ifs with hroot hhere
  · exact hroot.1.symm
  · exact hhere.symm
  · exact unspell_spell piece

theorem map_unspell_spelled (p : Path) :
    p.spelled.map unspell = splitChars (· == '/') p.text.toList := by
  unfold spelled
  split
  · rename_i h
    rw [h]
    rfl
  · rename_i piece pieces h
    rw [h, List.map_cons, unspell_spellFirst, List.map_map]
    refine congrArg _ ((List.map_congr_left fun x _ => unspell_spell x).trans (List.map_id _))

theorem getRight?_spell (piece : List Char) : (spell piece).getRight? = Part.ofPiece piece := by
  unfold spell
  cases Part.ofPiece piece <;> rfl

theorem parts_eq_filterMap_spelled (p : Path) : p.parts = p.spelled.filterMap Sum.getRight? := by
  have hrest (pieces : List (List Char)) :
      (pieces.map spell).filterMap Sum.getRight? = pieces.filterMap Part.ofPiece := by
    rw [List.filterMap_map]
    exact List.filterMap_congr fun x _ => getRight?_spell x
  unfold parts spelled
  cases p.text.toList with
  | nil => rfl
  | cons c cs =>
    -- only the first piece is read in a way of its own: it may be the root, or a dot that counts
    by_cases hc : c = '/'
    · subst hc
      obtain ⟨piece, pieces, hpieces⟩ :=
        List.exists_cons_of_ne_nil (splitChars_ne_nil (· == '/') cs)
      rw [partsOfChars, splitChars, if_pos (by rfl)]
      simp only
      rw [List.filterMap_cons, hrest, hpieces]
      rfl
    · obtain ⟨piece, pieces, hpieces⟩ := exists_splitChars_cons hc cs
      rw [partsOfChars_relative hc hpieces, hpieces, List.filterMap_cons, hrest]
      have hfirst : (spellFirst (c :: piece) pieces.isEmpty).getRight? =
          if c :: piece = ['.'] then some .here else Part.ofPiece (c :: piece) := by
        rw [spellFirst, if_neg (by simp)]
        split
        · rfl
        · exact getRight?_spell _
      rw [hfirst]
      split
      · rfl
      · cases Part.ofPiece (c :: piece) <;> rfl

/-- A path that has the parts of another one at its end, and says nothing where that one says
nothing, ends in its text. -/
theorem exists_endsWith {p q : Path} (h : p.endsWith q = true) (hs : q.silences <:+ p.silences) :
    ∃ before, (before = [] ∨ before.getLast? = some '/') ∧
      p.text.toList = before ++ q.text.toList := by
  have hparts : q.parts <:+ p.parts := List.isSuffixOf_iff_suffix.mp h
  rw [parts_eq_filterMap_spelled, parts_eq_filterMap_spelled] at hparts
  obtain ⟨before, hbefore⟩ := (Sum.list_isSuffix hs hparts).map unspell
  rw [map_unspell_spelled, map_unspell_spelled] at hbefore
  rw [← joinPieces_splitChars p.text.toList, ← hbefore]
  by_cases hnil : before = []
  · subst hnil
    exact ⟨[], .inl rfl, by rw [List.nil_append, joinPieces_splitChars, List.nil_append]⟩
  · refine ⟨joinPieces before ++ ['/'], .inr List.getLast?_concat, ?_⟩
    rw [joinPieces_append (splitChars_ne_nil _ _) hnil, joinPieces_splitChars, List.append_assoc]
    rfl

end Path

/-! ### Reading -/

namespace Drs

/-- The values that are read are the ones that are shown, the directories first. -/
theorem get?_foldl_captured {d : Drs} {fields : Attributes}
    (hcaps : ∀ cap ∈ captured .directory fields d.directoryItems ++
      captured .fileName fields (rendered fields d.fileName.pieces), cap.text ≠ []) (key : String) :
    ((captured .directory fields d.directoryItems ++
        captured .fileName fields (rendered fields d.fileName.pieces)).foldl
          addCapture ∅).get? key =
      if key ∈ d.directoryKeys then fields.get? key
      else if key ∈ d.renderedKeys fields then (fields.get? key).map applyKnownReplacements
      else none := by
  rw [List.foldl_append, get?_foldl_fileName, get?_foldl_directory, filterMap_directoryItems]
  by_cases hdir : key ∈ d.directoryKeys
  · obtain ⟨value, hv, hget⟩ := fieldValue?_of_captured
      (fun c hc => hcaps c (List.mem_append_left _ hc))
      (by rwa [filterMap_directoryItems] : key ∈ d.directoryItems.filterMap Item.key?)
    rw [if_pos hdir, if_pos hdir, hget, hv]
    rfl
  · rw [if_neg hdir, if_neg hdir, Dict.get?_empty, Option.none_or]
    by_cases hfile : key ∈ d.renderedKeys fields
    · obtain ⟨value, hv, hget⟩ := fieldValue?_of_captured
        (fun c hc => hcaps c (List.mem_append_right _ hc)) hfile
      rw [if_pos hfile, hv, ← hget]
      exact if_pos hfile
    · rw [if_neg hfile]
      exact if_neg hfile

theorem status_validate_fullPath {d : Drs} {p : Path} {m : Metadata} :
    (DrsCheck.fullPath.validate d p m).status = .pass ↔
      ∃ spec, d.buildPath m.attributes = .ok spec ∧ p.endsWith spec.path = true := by
  unfold DrsCheck.validate
  cases hb : d.buildPath m.attributes with
  | error e => cases e <;> simp [Finding.withTarget, Finding.fail]
  | ok spec =>
    cases he : p.endsWith spec.path <;>
      simp [DrsCheck.expected, he, Finding.withTarget, Finding.fail, Finding.pass]

/-- A file whose path passes the check, and says nothing where the prescribed path says nothing, has
the values of its metadata in its path. -/
theorem parsePath_of_validate {directory fileName : String} {d : Drs}
    (hd : ofTemplates? directory fileName = .ok d) (hs : d.WellSeparated) {m : Metadata}
    (hm : ∀ key ∈ d.directoryKeys, ∀ value, m.get? key = some value → '/' ∉ value.toList)
    {p : Path} (hp : '\\' ∉ p.text.toList)
    (hsilent : ∀ spec, d.buildPath m.attributes = .ok spec → spec.path.silences <:+ p.silences)
    (hv : (DrsCheck.fullPath.validate d p m).status = .pass) :
    ∃ parsed, d.parsePath p = .ok parsed ∧ ∀ key, parsed.get? key =
      if key ∈ d.directoryKeys then m.get? key
      else if key ∈ d.renderedKeys m.attributes then (m.get? key).map applyKnownReplacements
      else none := by
  obtain ⟨spec, hspec, hends⟩ := status_validate_fullPath.mp hv
  obtain ⟨_, hr⟩ := reads_pathPattern hd hs hm hspec
  obtain ⟨before, hbefore, htext⟩ := Path.exists_endsWith hends (hsilent spec hspec)
  have hfind := hs.findEnd_eq_some (ofTemplates?_eq_ok hd).2.1 hbefore hr
  rw [← htext] at hfind
  refine ⟨_, by rw [parsePath, map_asSlash hp, hfind], fun key => ?_⟩
  exact get?_foldl_captured (fun cap hcap => (hr.captures cap hcap).1) key

theorem ofTemplates?_sample : ofTemplates? "<source_id>" "<variable_id>.nc" =
    .ok FileValidation.sampleVocabularies.drs := by rfl

theorem wellSeparated_sample : FileValidation.sampleVocabularies.drs.WellSeparated :=
  ⟨by decide, by decide, by decide, by decide, by decide, by decide, by decide⟩

/-- The second slash after the data directory says nothing, but is not in the part that counts. -/
theorem parsePath_of_validate_sample :
    ∃ parsed, FileValidation.sampleVocabularies.drs.parsePath ⟨"/data//s1/tas.nc"⟩ = .ok parsed ∧
      parsed.get? "source_id" = some "s1" ∧ parsed.get? "variable_id" = some "tas" := by
  have hspec : FileValidation.sampleVocabularies.drs.buildPath Metadata.sample.attributes =
      .ok ⟨⟨"s1"⟩, "tas.nc"⟩ := by decide +kernel
  have hm : ∀ key ∈ FileValidation.sampleVocabularies.drs.directoryKeys, ∀ value,
      Metadata.sample.get? key = some value → '/' ∉ value.toList := by decide +kernel
  have hsilent : ∀ spec, FileValidation.sampleVocabularies.drs.buildPath
      Metadata.sample.attributes = .ok spec →
        spec.path.silences <:+ (Path.mk "/data//s1/tas.nc").silences := fun spec h => by
    rw [hspec] at h
    obtain rfl := Except.ok.inj h
    decide
  obtain ⟨parsed, hparsed, hget⟩ := parsePath_of_validate ofTemplates?_sample
    wellSeparated_sample hm (by decide) hsilent (by decide +kernel)
  exact ⟨parsed, hparsed, (hget "source_id").trans (by decide +kernel),
    (hget "variable_id").trans (by decide +kernel)⟩

/-- Other spellings of the prescribed path pass the check, and can not be read, or not rightly. -/
theorem validate_without_parsePath :
    ofTemplates? "<source_id>" "<variable_id>.nc" = .ok FileValidation.sampleVocabularies.drs ∧
      FileValidation.sampleVocabularies.drs.WellSeparated ∧
      FileValidation.sampleVocabularies.drs.directoryKeys = ["source_id"] ∧
      Metadata.Reached FileValidation.sampleVocabularies Metadata.sample ∧
      Metadata.sample.get? "source_id" = some "s1" ∧
      ((DrsCheck.fullPath.validate FileValidation.sampleVocabularies.drs ⟨"s1//tas.nc"⟩
          Metadata.sample).status = .pass ∧
        ∃ e, FileValidation.sampleVocabularies.drs.parsePath ⟨"s1//tas.nc"⟩ = .error e) ∧
      (DrsCheck.fullPath.validate FileValidation.sampleVocabularies.drs ⟨"s1/./tas.nc"⟩
          Metadata.sample).status = .pass ∧
        ∃ parsed, FileValidation.sampleVocabularies.drs.parsePath ⟨"s1/./tas.nc"⟩ = .ok parsed ∧
          parsed.get? "source_id" = some "." :=
  ⟨ofTemplates?_sample, wellSeparated_sample, by decide, .read Metadata.ofFile?_sample,
    by decide +kernel, ⟨by decide +kernel, _, rfl⟩, by decide +kernel, _, rfl, by decide +kernel⟩

end Drs
end ForcingData
