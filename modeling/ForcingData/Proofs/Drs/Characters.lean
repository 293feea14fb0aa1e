import ForcingData.Proofs.Drs.FileName
import ForcingData.Proofs.Drs.Filling

/-! # What file names are made of

Whatever the values are, a name that is built is an expansion of its template. All characters that
values in file names can not have come from the literals of the template (`filter_fileName`). So a
template whose literals are harmless gives harmless names, and a name that shows a value is the last
part of its path, whatever the directories are called (`fileName_safe`). -/

namespace ForcingData

namespace Drs

/-- The plain text of an item. -/
def Item.literalChars : Item → List Char
  | .literal text => text
  | .key _ => []

/-- The plain text of a template. -/
def Template.literals (t : Template) : List Char := (keptItems t.pieces).flatMap Item.literalChars

/-- A letter, a digit, a hyphen, a dot or an underscore of ASCII. -/
def isPlainChar (c : Char) : Bool := isFileNameChar c || c == '.' || c == '_'

/-- What no value has is in the literals, in the same order. -/
theorem ReadsItems.filter_eq {is : List Item} {cs : List Char} {caps : List Capture}
    (h : ReadsItems .fileName is cs caps) : cs.filter (!isFileNameChar ·) =
      (is.flatMap Item.literalChars).filter (!isFileNameChar ·) := by
  induction h with
  | nil => rfl
  | literal text _ ih => rw [List.flatMap_cons, List.filter_append, List.filter_append, ih]; rfl
  | @key name v _ hv _ _ _ _ ih =>
    have hnil : v.filter (!isFileNameChar ·) = [] :=
      List.filter_eq_nil_iff.mpr fun c hc => by simpa [Part.allows] using hv c hc
    rw [List.flatMap_cons, List.filter_append, List.filter_append, ih, hnil]
    rfl

theorem mem_keptItems_of_rendered {fields : Attributes} {pieces : List Piece} {i : Item}
    (h : i ∈ rendered fields pieces) : i ∈ keptItems pieces := by
  obtain ⟨p, hp, hi⟩ := List.mem_flatMap.mp h
  split at hi
  · cases hi
  · exact List.mem_flatMap.mpr ⟨p, hp, hi⟩

variable {d : Drs} {fields : Attributes} {spec : PathSpec}

theorem filter_fileName (hb : d.buildPath fields = .ok spec) :
    spec.fileName.toList.filter (!isFileNameChar ·) =
      ((rendered fields d.fileName.pieces).flatMap Item.literalChars).filter (!isFileNameChar ·) :=
  (readsItems_fileName hb).filter_eq

theorem isFileNameChar_or_mem_literals (hb : d.buildPath fields = .ok spec) {c : Char}
    (hc : c ∈ spec.fileName.toList) : isFileNameChar c = true ∨ c ∈ d.fileName.literals := by
  by_cases hchar : isFileNameChar c = true
  · exact .inl hchar
  · right
    have hmem : c ∈ spec.fileName.toList.filter (!isFileNameChar ·) :=
      List.mem_filter.mpr ⟨hc, by simpa using hchar⟩
    rw [filter_fileName hb] at hmem
    obtain ⟨i, hi, hci⟩ := List.mem_flatMap.mp (List.mem_filter.mp hmem).1
    exact List.mem_flatMap.mpr ⟨i, mem_keptItems_of_rendered hi, hci⟩

theorem any_isFileNameChar (hb : d.buildPath fields = .ok spec)
    (hkey : d.fileName.outsideKeys ≠ []) : spec.fileName.toList.any isFileNameChar = true := by
  by_contra hnone
  obtain ⟨key, hkey⟩ := List.exists_mem_of_ne_nil _ hkey
  have hnil := captured_eq_nil hb (Bool.eq_false_iff.mpr hnone)
  obtain ⟨i, hi, hik⟩ := List.mem_filterMap.mp (mem_renderedKeys.mpr (.inl hkey))
  have hcaptured := List.filterMap_eq_nil_iff.mp hnil i hi
  rw [hik] at hcaptured
  cases hcaptured

/-- Built file names are safe. -/
theorem fileName_safe {directory fileName : String}
    (hd : ofTemplates? directory fileName = .ok d) (hb : d.buildPath fields = .ok spec) :
    Expands .fileName fileName.toList spec.fileName.toList ∧
    spec.fileName.toList.filter (!isFileNameChar ·) =
      ((rendered fields d.fileName.pieces).flatMap Item.literalChars).filter (!isFileNameChar ·) ∧
    ((∀ c ∈ d.fileName.literals, isPlainChar c = true) →
      (∀ c ∈ spec.fileName.toList, isPlainChar c = true) ∧
      '/' ∉ spec.fileName.toList ∧ '\\' ∉ spec.fileName.toList ∧
      (d.fileName.outsideKeys ≠ [] → spec.path.fileName? = some spec.fileName)) := by
  refine ⟨?_, filter_fileName hb, fun hliterals => ?_⟩
  · exact (expands_iff_reads (templates_of_ofTemplates? hd).2).mpr ⟨_, reads_fileName hb⟩
  · have hplain : ∀ c ∈ spec.fileName.toList, isPlainChar c = true := fun c hc =>
      (isFileNameChar_or_mem_literals hb hc).elim (fun h => by simp [isPlainChar, h])
        (hliterals c)
    have hslash : '/' ∉ spec.fileName.toList := fun h => absurd (hplain _ h) (by decide)
    refine ⟨hplain, hslash, fun h => absurd (hplain _ h) (by decide), fun hkey => ?_⟩
    have hany := any_isFileNameChar hb hkey
    have ne_of_none {name : String} (h : name.toList.any isFileNameChar = false) :
        spec.fileName ≠ name := by
      rintro rfl
      exact absurd (h.symm.trans hany) Bool.false_ne_true
    exact Path.fileName?_join _ ⟨ne_of_none (by rfl), hslash⟩ (ne_of_none (by rfl))
      (ne_of_none (by rfl))

/-- Templates with a version, for files of any source. -/
def versionedDrs : Drs :=
  ⟨[⟨"<source>", [.item (.key "source")]⟩],
    ⟨"<name>_v1.0[_<region>].nc", [.item (.key "name"), .item (.literal "_v1.0".toList),
      .optional [.literal ['_'], .key "region"], .item (.literal ['.', 'n', 'c'])]⟩⟩

theorem fileName_safe_sample :
    let fields : Attributes := Dict.ofList [("name", "..a_b"), ("source", "/x/../..")]
    let spec : PathSpec := ⟨⟨"/x/../.."⟩, "--a-b_v1.0.nc"⟩
    versionedDrs.buildPath fields = .ok spec ∧ spec.path.text = "/x/../../--a-b_v1.0.nc" ∧
      spec.path.fileName? = some "--a-b_v1.0.nc" := by
  intro fields spec
  have hd : ofTemplates? "<source>" "<name>_v1.0[_<region>].nc" = .ok versionedDrs := by rfl
  have hb : versionedDrs.buildPath fields = .ok spec := by rfl
  have hplain : ∀ c ∈ versionedDrs.fileName.literals, isPlainChar c = true :=
    List.all_eq_true.mp (by rfl)
  exact ⟨hb, by decide, ((fileName_safe hd hb).2.2 hplain).2.2.2 (by decide)⟩

end Drs
end ForcingData
