import ForcingData.Proofs.Drs.Ending

/-! # A file name on its own

The name that templates prescribe for some values can not be read as a path, as its directories are
missing (`exists_parsePath_fileName`), but it can be read as a name: it then says what it shows of
the values, and nothing else (`shown_of_parseFileName`). -/

namespace ForcingData

namespace Drs

theorem replaceChar_replaceChar (c : Char) : replaceChar (replaceChar c) = replaceChar c := by
  unfold replaceChar
  split
  · decide
  · rfl

theorem applyKnownReplacements_idem (value : String) :
    applyKnownReplacements (applyKnownReplacements value) = applyKnownReplacements value := by
  simp [applyKnownReplacements, Function.comp_def, replaceChar_replaceChar]

theorem applyKnownReplacements_ne_empty {value : String} (h : value ≠ "") :
    applyKnownReplacements value ≠ "" := fun he => by
  have hnil := congrArg String.toList he
  simp [applyKnownReplacements, h] at hnil

theorem applyKnownReplacements_eq {value : String}
    (h : ∀ c ∈ value.toList, c ≠ '_' ∧ c ≠ '.') : applyKnownReplacements value = value := by
  have hmap : value.toList.map replaceChar = value.toList := by
    refine (List.map_congr_left fun c hc => ?_).trans (List.map_id _)
    simp [replaceChar, h c hc]
  rw [applyKnownReplacements, hmap, String.ofList_toList]

/-- The template of the file name alone. -/
def nameOnly (d : Drs) : Drs := { d with directory := [] }

/-- What the file name shows of the values, and nothing else. -/
def Shown (d : Drs) (fields read : Attributes) : Prop :=
  ∀ key, read.get? key =
    if key ∈ d.renderedKeys fields then (fields.get? key).map applyKnownReplacements else none

variable {d : Drs} {fields : Attributes} {spec : PathSpec}

theorem reads_fileName (hb : d.buildPath fields = .ok spec) :
    Reads d.fileNamePattern spec.fileName.toList
      (captured .fileName fields (rendered fields d.fileName.pieces)) := by
  obtain ⟨_, _, hname, _⟩ := buildPath_eq_ok hb
  exact reads_of_renderTemplate hname fun h => by cases h

theorem reads_nameOnly (hb : d.buildPath fields = .ok spec) :
    Reads d.nameOnly.fileNamePattern spec.fileName.toList
      (captured .fileName fields (rendered fields d.fileName.pieces)) :=
  reads_fileName (d := d) hb

theorem mem_renderedKeys_chars (hb : d.buildPath fields = .ok spec) {key : String}
    (hkey : key ∈ d.renderedKeys fields) : ∃ value, fields.get? key = some value ∧ value ≠ "" ∧
      ∀ c ∈ (applyKnownReplacements value).toList, isFileNameChar c = true := by
  have hcaps := (reads_fileName hb).captures
  obtain ⟨value, hvalue, hget⟩ := fieldValue?_of_captured (fun c hc => (hcaps c hc).1) hkey
  obtain ⟨i, hi, hik⟩ := List.mem_filterMap.mp hkey
  have hcap := hcaps ⟨.fileName, key, Part.fileName.shown ((fieldValue? fields key).getD "")⟩
    (List.mem_filterMap.mpr ⟨i, hi, by rw [hik]; rfl⟩)
  rw [hget] at hcap
  refine ⟨value, hvalue, ?_, ?_⟩
  · rintro rfl
    exact hcap.1 rfl
  · rw [applyKnownReplacements, String.toList_ofList]
    exact hcap.2

/-! ### Reading the name -/

/-- The last value of a key counts, but all of them are the same. -/
theorem get?_foldl_insert_captured (part : Part) (fields : Attributes) (key : String) :
    ∀ (is : List Item) (acc : Attributes),
      ((captured part fields is).foldl
        (fun fields c => fields.insert c.key (String.ofList c.text)) acc).get? key =
        if key ∈ is.filterMap Item.key? then
          some (String.ofList (part.shown ((fieldValue? fields key).getD "")))
        else acc.get? key
  | [], acc => rfl
  | .literal text :: is, acc => get?_foldl_insert_captured part fields key is acc
  | .key name :: is, acc => by
    have hcap : captured part fields (.key name :: is) =
        ⟨part, name, part.shown ((fieldValue? fields name).getD "")⟩ ::
          captured part fields is := rfl
    rw [hcap, List.foldl_cons, get?_foldl_insert_captured part fields key is, Dict.get?_insert,
      List.filterMap_cons_some (Item.key?_key name)]
    by_cases h : key = name
    · simp [h]
    · simp [h]

theorem shown_captured (hb : d.buildPath fields = .ok spec) :
    d.Shown fields ((captured .fileName fields (rendered fields d.fileName.pieces)).foldl
      (fun fields c => fields.insert c.key (String.ofList c.text)) ∅) := fun key => by
  rw [get?_foldl_insert_captured]
  by_cases hkey : key ∈ d.renderedKeys fields
  · obtain ⟨value, hvalue, hget⟩ :=
      fieldValue?_of_captured (fun c hc => ((reads_fileName hb).captures c hc).1) hkey
    rw [if_pos hkey, hvalue, ← hget]
    exact if_pos hkey
  · rw [if_neg hkey]
    exact if_neg hkey

theorem captured_eq_nil (hb : d.buildPath fields = .ok spec)
    (h : spec.fileName.toList.any isFileNameChar = false) :
    captured .fileName fields (rendered fields d.fileName.pieces) = [] := by
  obtain ⟨_, _, hi⟩ := (reads_fileName hb).chosen
  exact hi.eq_nil_of_no_char h

section
variable (hs : d.nameOnly.WellSeparated) (hb : d.buildPath fields = .ok spec)
include hs hb

theorem notMem_slash_fileName : '/' ∉ spec.fileName.toList :=
  hs.notMem_slash (reads_nameOnly hb)

theorem notMem_backslash_fileName : '\\' ∉ spec.fileName.toList := by
  have hr := reads_nameOnly hb
  refine hs.notMem_backslash hr fun cap hcap hm => ?_
  obtain ⟨i, _, hcap'⟩ := List.mem_filterMap.mp hcap
  obtain ⟨key, _, rfl⟩ := Option.map_eq_some_iff.mp hcap'
  have hchar : isFileNameChar '\\' = true := (hr.captures _ hcap).2 _ hm
  exact absurd hchar (by decide)

/-- There are directories in the templates, but no slash in the name. -/
theorem exists_parsePath_fileName (hne : d.directory ≠ []) :
    ∃ e, d.parsePath ⟨spec.fileName⟩ = .error e := by
  unfold parsePath
  rw [map_asSlash (notMem_backslash_fileName hs hb)]
  cases hfind : findEnd d.pathPattern spec.fileName.toList with
  | none => exact ⟨_, rfl⟩
  | some caps =>
    obtain ⟨before, rest, htext, -, hr⟩ := findEnd_sound hfind
    obtain ⟨t, ts, hdir⟩ := List.exists_cons_of_ne_nil hne
    rw [pathPattern, hdir] at hr
    obtain ⟨a, b, _, _, rfl, _, ha, _⟩ := hr.split
    obtain ⟨x, y, _, _, rfl, _⟩ := ha.directory_cons
    refine absurd ?_ (notMem_slash_fileName hs hb)
    rw [htext]
    simp

theorem shown_of_parseFileName :
    d.Shown fields ((d.parseFileName ⟨spec.fileName⟩).toOption.getD ∅) := by
  have hshown := shown_captured hb
  by_cases hstep : spec.fileName = "" ∨ spec.fileName = "." ∨ spec.fileName = ".."
  · -- such a name has no last part, so the empty text is read in its place
    have hchars : spec.fileName.toList.any isFileNameChar = false := by
      rcases hstep with he | he | he <;> rw [he] <;> rfl
    have hnone : (Path.mk spec.fileName).fileName? = none := by
      rcases hstep with he | he | he <;> rw [he] <;> rfl
    rw [captured_eq_nil hb hchars] at hshown
    rw [parseFileName, hnone, Option.getD_none]
    cases hmatch : matchAll d.fileNamePattern "".toList with
    | none => exact hshown
    | some caps =>
      obtain ⟨_, _, hi⟩ := (matchAll_sound hmatch).chosen
      obtain rfl := hi.eq_nil_of_no_char rfl
      exact hshown
  · rw [not_or, not_or] at hstep
    have hname : Path.IsName spec.fileName := ⟨hstep.1, notMem_slash_fileName hs hb⟩
    have hr := reads_nameOnly hb
    obtain ⟨found, hfound⟩ := Option.isSome_iff_exists.mp (matchAll_isSome_of_reads hr)
    have hcaps := hs.fileName_unique (matchAll_sound hfound) hr
    change matchAll d.fileNamePattern _ = _ at hfound
    rw [parseFileName, Path.fileName?_mk hname hstep.2.1 hstep.2.2, Option.getD_some, hfound, hcaps]
    exact hshown

end
end Drs
end ForcingData
