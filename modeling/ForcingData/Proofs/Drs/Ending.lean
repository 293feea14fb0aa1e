import ForcingData.Metadata.Placement
import ForcingData.Proofs.Drs.RoundTrip

/-! # What a path says beyond its prescribed end

A path that ends as the templates prescribe for some values has the prescribed name behind its last
slash, or nothing that says a step. Either way it can be read for no key that has no value
(`isSome_fieldValue?_of_parsePath`): the prescribed name has one reading, and a section is read from
a character at least. Where a section is left out and nothing of the name is left, any name ends
as prescribed, and may be read for the keys of that section. -/

namespace ForcingData

namespace Path

/-! ### The last step -/

theorem Part.ofPiece_eq_none {piece : List Char} :
    Part.ofPiece piece = none ↔ isVoid piece = true := by
  unfold Part.ofPiece isVoid
  split_ifs <;> simp_all

theorem Part.ofPiece_ne_here (piece : List Char) : Part.ofPiece piece ≠ some .here := by
  unfold Part.ofPiece
  split_ifs <;> exact nofun

theorem Part.ofPiece_inj {piece piece' : List Char} {part : Part}
    (h : Part.ofPiece piece = some part) (h' : Part.ofPiece piece' = some part) :
    piece = piece' := by
  unfold Part.ofPiece at h h'
  split_ifs at h with _ hup
  · split_ifs at h' with _ hup'
    · rw [hup, hup']
    · cases h
      cases h'
  · split_ifs at h' with _ hup'
    · cases h
      cases h'
    · cases h
      exact String.ofList_injective (Part.name.inj (Option.some.inj h')).symm

variable {p q : Path} {before last name : List Char} {part : Part}

theorem getLast?_parts_of_slash (h : p.text.toList = before ++ '/' :: last) (hlast : '/' ∉ last)
    (hpart : Part.ofPiece last = some part) : p.parts.getLast? = some part := by
  have hsplit : (Text.splitChars (· == '/') last).filterMap Part.ofPiece = [part] := by
    rw [splitChars_of_forall, List.filterMap_cons_some hpart]
    · rfl
    · rintro c hc
      rw [beq_eq_false_iff_ne]
      rintro rfl
      exact hlast hc
  rw [parts, h]
  by_cases hne : before = []
  · rw [hne, List.nil_append, partsOfChars, hsplit]
    rfl
  · rw [partsOfChars_append_slash hne, hsplit, List.getLast?_concat]

theorem getLast?_of_endsWith (h : p.endsWith q = true) (hq : q.parts.getLast? = some part) :
    p.parts.getLast? = some part := by
  obtain ⟨front, hfront⟩ := List.isSuffixOf_iff_suffix.mp h
  rw [← hfront, List.getLast?_append, hq]
  rfl

/-- Behind the last slash there is the name that the path has to end with, or no step at all. -/
theorem eq_of_endsWith (hends : p.endsWith q = true) (hp : p.text.toList = before ++ '/' :: last)
    (hlast : '/' ∉ last) (hname : '/' ∉ name) (hne : name ≠ [])
    (hq : q.text.toList = name ∨ name ≠ ['.'] ∧ ∃ front, q.text.toList = front ++ '/' :: name) :
    isVoid last = true ∨ last = name := by
  cases hpart : Part.ofPiece last with
  | none => exact .inl (Part.ofPiece_eq_none.mp hpart)
  | some part =>
    right
    have hp' := getLast?_parts_of_slash hp hlast hpart
    cases hpart' : Part.ofPiece name with
    | none =>
      have hvoid := Part.ofPiece_eq_none.mp hpart'
      have hdot : name = ['.'] := by simpa [isVoid, hne] using hvoid
      rcases hq with hq | ⟨hdot', -⟩
      · have hhere : q.parts.getLast? = some .here := by rw [parts, hq, hdot]; rfl
        rw [getLast?_of_endsWith hends hhere] at hp'
        exact absurd (hpart.trans hp'.symm) (Part.ofPiece_ne_here last)
      · exact absurd hdot hdot'
    | some part' =>
      have hq' : q.parts.getLast? = some part' := by
        rcases hq with hq | ⟨-, front, hq⟩
        · rw [parts_of_no_slash (hq ▸ hname) (hq ▸ hpart')]
          rfl
        · exact getLast?_parts_of_slash hq hname hpart'
      rw [getLast?_of_endsWith hends hq'] at hp'
      exact Part.ofPiece_inj hpart (hp' ▸ hpart')

end Path

namespace Drs

/-! ### Keys of a reading -/

theorem ReadsItems.map_key {part : Part} {is : List Item} {cs : List Char} {caps : List Capture}
    (h : ReadsItems part is cs caps) : caps.map Capture.key = is.filterMap Item.key? := by
  induction h with
  | nil => rfl
  | literal text _ ih => exact ih
  | key name _ _ _ ih => exact congrArg (name :: ·) ih

theorem ReadsItems.mem_of_mem_text {part : Part} {is : List Item} {cs : List Char}
    {caps : List Capture} (h : ReadsItems part is cs caps) {cap : Capture} (hcap : cap ∈ caps)
    {c : Char} (hc : c ∈ cap.text) : c ∈ cs := by
  induction h with
  | nil => cases hcap
  | literal text _ ih => exact List.mem_append_right _ (ih hcap)
  | key name _ _ _ ih =>
    rcases List.mem_cons.mp hcap with rfl | hcap
    · exact List.mem_append_left _ hc
    · exact List.mem_append_right _ (ih hcap)

theorem ReadsItems.part_eq {part : Part} {is : List Item} {cs : List Char} {caps : List Capture}
    (h : ReadsItems part is cs caps) : ∀ cap ∈ caps, cap.part = part := by
  induction h with
  | nil => exact fun _ hcap => absurd hcap List.not_mem_nil
  | literal text _ ih => exact ih
  | key name _ _ _ ih => exact List.forall_mem_cons.mpr ⟨rfl, ih⟩

theorem ReadsItems.eq_nil_of_no_char {is : List Item} {cs : List Char} {caps : List Capture}
    (h : ReadsItems .fileName is cs caps) (hcs : cs.any isFileNameChar = false) :
    caps = [] := by
  refine List.eq_nil_iff_forall_not_mem.mpr fun cap hcap => ?_
  obtain ⟨hne, hallowed⟩ := h.captures cap hcap
  obtain ⟨c, hc⟩ := List.exists_mem_of_ne_nil _ hne
  have hchar : isFileNameChar c = true := by
    have := hallowed c hc
    rwa [h.part_eq cap hcap] at this
  exact List.any_eq_false.mp hcs c (h.mem_of_mem_text hcap hc) hchar

theorem ReadsItems.eq_nil_of_isVoid {is : List Item} {cs : List Char} {caps : List Capture}
    (h : ReadsItems .fileName is cs caps) (hvoid : Path.isVoid cs = true) : caps = [] := by
  refine h.eq_nil_of_no_char ?_
  rcases (Bool.or_eq_true _ _).mp hvoid with he | he
  · rw [beq_iff_eq.mp he]
    rfl
  · rw [beq_iff_eq.mp he]
    rfl

theorem Reads.exists_slash {t : Template} {ts : List Template} {cs : List Char}
    {caps : List Capture} (h : Reads (directoryPattern (t :: ts)) cs caps) :
    ∃ before, cs = before ++ ['/'] := by
  induction ts generalizing t cs caps with
  | nil =>
    obtain ⟨a, b, _, _, rfl, -, -, hb⟩ := h.directory_cons
    cases hb
    exact ⟨a, rfl⟩
  | cons u ts ih =>
    obtain ⟨a, b, _, _, rfl, -, -, hb⟩ := h.directory_cons
    obtain ⟨before, rfl⟩ := ih hb
    exact ⟨a ++ '/' :: before, by simp⟩

theorem Reads.key_mem_directory {ts : List Template} {cs : List Char} {caps : List Capture}
    (h : Reads (directoryPattern ts) cs caps)
    (ho : ∀ t ∈ ts, ∀ p ∈ t.pieces, p.isOptional = false) :
    ∀ cap ∈ caps, cap.key ∈ ts.flatMap Template.keys := by
  induction ts generalizing cs caps with
  | nil => cases h; exact fun _ hcap => absurd hcap List.not_mem_nil
  | cons t ts ih =>
    obtain ⟨a, b, c, c', rfl, rfl, ha, hb⟩ := h.directory_cons
    have hkeys := (ha.of_no_section (ho t (List.mem_cons_self ..))).map_key
    intro cap hcap
    rw [List.flatMap_cons]
    rcases List.mem_append.mp hcap with hcap | hcap
    · refine List.mem_append_left _ ?_
      rw [Template.keys, ← keptItems, ← hkeys]
      exact List.mem_map_of_mem hcap
    · exact List.mem_append_right _ (ih hb (fun u hu => ho u (List.mem_cons_of_mem _ hu)) cap hcap)

theorem get?_addCapture_of_ne {key : String} {cap : Capture} (h : cap.key ≠ key)
    (acc : Attributes) : (addCapture acc cap).get? key = acc.get? key := by
  unfold addCapture
  split
  · rw [Dict.get?_insert, if_neg (Ne.symm h)]
  · split
    · rfl
    · rw [Dict.get?_insert, if_neg (Ne.symm h)]

theorem key_mem_of_foldl_addCapture {key : String} : ∀ {caps : List Capture} {acc : Attributes},
    (caps.foldl addCapture acc).contains key = true →
      acc.contains key = true ∨ ∃ cap ∈ caps, cap.key = key
  | [], _, h => .inl h
  | cap :: caps, acc, h => by
    rw [List.foldl_cons] at h
    rcases key_mem_of_foldl_addCapture h with hacc | ⟨other, hother, rfl⟩
    · by_cases hkey : cap.key = key
      · exact .inr ⟨cap, List.mem_cons_self .., hkey⟩
      · left
        rwa [Dict.contains, get?_addCapture_of_ne hkey] at hacc
    · exact .inr ⟨other, List.mem_cons_of_mem _ hother, rfl⟩

/-! ### Keys with values -/

section
variable {part : Part} {fields : Attributes}

theorem hasValue_of_render {i : Item} {cs : List Char} (h : i.render part fields = .ok cs) :
    i.hasValue fields = true := by
  cases i with
  | literal text => rfl
  | key name =>
    simp only [Item.render] at h
    cases hv : fieldValue? fields name with
    | none =>
      rw [hv] at h
      cases h
    | some value => simp [Item.hasValue, hv]

theorem hasValue_of_renderPieces {pieces : List Piece} {cs : List Char}
    (h : renderPieces part fields pieces = .ok cs) :
    ∀ i ∈ rendered fields pieces, i.hasValue fields = true := by
  induction pieces generalizing cs with
  | nil => exact fun _ hi => absurd hi List.not_mem_nil
  | cons p pieces ih =>
    obtain ⟨a, ha, h⟩ := Except.bind_eq_ok.mp h
    obtain ⟨b, hb, h⟩ := Except.bind_eq_ok.mp h
    intro i hi
    rw [rendered, List.flatMap_cons] at hi
    rcases List.mem_append.mp hi with hi | hi
    · cases p with
      | item j =>
        obtain rfl := List.mem_singleton.mp hi
        exact hasValue_of_render ha
      | optional items =>
        by_cases hall : items.all (Item.hasValue fields) = true
        · simp only [Piece.isOptional, Piece.items, hall] at hi
          exact List.all_eq_true.mp hall i hi
        · simp [Piece.isOptional, Piece.items, hall] at hi
    · exact ih hb i hi

theorem isSome_of_hasValue {is : List Item} (h : ∀ i ∈ is, i.hasValue fields = true) {key : String}
    (hkey : key ∈ is.filterMap Item.key?) : (fieldValue? fields key).isSome = true := by
  obtain ⟨i, hi, hik⟩ := List.mem_filterMap.mp hkey
  simpa [Item.hasValue, hik] using h i hi

end

theorem isSome_fieldValue?_of_directory {d : Drs} {fields : Attributes} {spec : PathSpec}
    (hb : d.buildPath fields = .ok spec)
    (ho : ∀ t ∈ d.directory, ∀ p ∈ t.pieces, p.isOptional = false) {key : String}
    (hkey : key ∈ d.directoryKeys) : (fieldValue? fields key).isSome = true := by
  obtain ⟨names, hnames, -, -⟩ := buildPath_eq_ok hb
  obtain ⟨t, ht, hkey⟩ := List.mem_flatMap.mp hkey
  obtain ⟨i, hi, rfl⟩ := List.mem_iff_getElem.mp ht
  have hrender := hnames.get hi (by rw [← hnames.length_eq]; exact hi)
  obtain ⟨cs, hcs, -⟩ := Except.bind_eq_ok.mp hrender
  have hall : ∀ j ∈ rendered fields d.directory[i].pieces, j.hasValue fields = true :=
    hasValue_of_renderPieces hcs
  rw [rendered_eq_keptItems (ho _ ht)] at hall
  exact isSome_of_hasValue hall hkey

/-! ### The end of a path -/

/-- A section of the file name is left out. -/
def LeavesOut (d : Drs) (fields : Attributes) : Prop :=
  rendered fields d.fileName.pieces ≠ keptItems d.fileName.pieces

/-- What is prescribed ends in the file name, behind a slash unless it is all there is. -/
theorem text_expected (check : DrsCheck) {spec : PathSpec} (hslash : '/' ∉ spec.fileName.toList) :
    (check.expected spec).text.toList = spec.fileName.toList ∨ check = .fullPath ∧
      ∃ front, (check.expected spec).text.toList = front ++ '/' :: spec.fileName.toList := by
  cases check with
  | fileName => exact .inl rfl
  | fullPath =>
    obtain ⟨front, hfront, htext⟩ :=
      Path.exists_join (Path.not_isAbsolute_mk hslash) spec.directory
    rcases hfront with rfl | hfront
    · exact .inl htext
    · refine .inr ⟨rfl, front.dropLast, htext.trans ?_⟩
      rw [← List.dropLast_append_getLast? '/' hfront]
      simp

variable {d : Drs} {fields : Attributes} {spec : PathSpec}

/-- The keys that can be read behind the last slash have values. -/
theorem WellSeparated.isSome_fieldValue?_of_fileName (hs : d.WellSeparated)
    (hb : d.buildPath fields = .ok spec) {check : DrsCheck} {path : Path}
    (hends : path.endsWith (check.expected spec) = true)
    (hname : d.LeavesOut fields →
      spec.fileName ≠ "" ∧ (check = .fullPath → spec.fileName ≠ "."))
    {before last : List Char} (htext : path.text.toList = before ++ '/' :: last)
    {caps : List Capture} (hr : Reads d.fileNamePattern last caps) :
    ∀ cap ∈ caps, (fieldValue? fields cap.key).isSome = true := by
  obtain ⟨-, -, hrender, -⟩ := buildPath_eq_ok hb
  obtain ⟨cs, hcs, -⟩ := Except.bind_eq_ok.mp hrender
  have hvalues := hasValue_of_renderPieces hcs
  intro cap hcap
  obtain ⟨is, hchosen, hitems⟩ := hr.chosen
  have hkey : cap.key ∈ is.filterMap Item.key? := by
    rw [← hitems.map_key]
    exact List.mem_map_of_mem hcap
  by_cases hout : d.LeavesOut fields
  · -- the name is read as it was built, or it says no step and has no room for a value
    have hread := reads_of_renderTemplate hrender fun h => by cases h
    have hslash := hs.notMem_slash hread
    have hlast := hs.notMem_slash hr
    have hne : spec.fileName.toList ≠ [] :=
      fun he => (hname hout).1 (String.toList_eq_nil_iff.mp he)
    have hexpected : (check.expected spec).text.toList = spec.fileName.toList ∨
        spec.fileName.toList ≠ ['.'] ∧
          ∃ front, (check.expected spec).text.toList = front ++ '/' :: spec.fileName.toList := by
      refine (text_expected check hslash).imp_right fun ⟨hfull, hfront⟩ => ⟨fun he => ?_, hfront⟩
      exact (hname hout).2 hfull (String.toList_inj.mp he)
    rcases Path.eq_of_endsWith hends htext hlast hslash hne hexpected with hvoid | rfl
    · rw [hitems.eq_nil_of_isVoid hvoid] at hcap
      cases hcap
    · rw [hs.fileName_unique hr hread] at hcap
      obtain ⟨i, hi, hcap⟩ := List.mem_filterMap.mp hcap
      obtain ⟨key, hik, rfl⟩ := Option.map_eq_some_iff.mp hcap
      exact isSome_of_hasValue hvalues (List.mem_filterMap.mpr ⟨i, hi, hik⟩)
  · -- nothing is left out, so there are values for all keys of the template
    rw [LeavesOut, not_not] at hout
    rw [hout] at hvalues
    exact isSome_of_hasValue (fun i hi => hvalues i (hchosen.mem_keptItems hi)) hkey

/-- A path that ends as prescribed is read for keys that have values only. -/
theorem isSome_fieldValue?_of_parsePath {directory fileName : String}
    (hd : ofTemplates? directory fileName = .ok d) (hs : d.WellSeparated)
    (hb : d.buildPath fields = .ok spec) {check : DrsCheck} {path : Path}
    (hpath : '\\' ∉ path.text.toList) (hends : path.endsWith (check.expected spec) = true)
    (hname : d.LeavesOut fields →
      spec.fileName ≠ "" ∧ (check = .fullPath → spec.fileName ≠ "."))
    {found : Attributes} (hfound : d.parsePath path = .ok found) {key : String}
    (hkey : found.contains key = true) : (fieldValue? fields key).isSome = true := by
  obtain ⟨hne, ho, -⟩ := ofTemplates?_eq_ok hd
  obtain ⟨caps, hcaps, rfl⟩ : ∃ caps, findEnd d.pathPattern path.text.toList = some caps ∧
      found = caps.foldl addCapture ∅ := by
    rw [parsePath, map_asSlash hpath] at hfound
    cases hfind : findEnd d.pathPattern path.text.toList with
    | none => rw [hfind] at hfound; cases hfound
    | some caps =>
      rw [hfind] at hfound
      exact ⟨caps, rfl, (Except.ok.inj hfound).symm⟩
  obtain ⟨before, rest, htext, -, hr⟩ := findEnd_sound hcaps
  -- the last slash divides what the directories say from what the name says
  obtain ⟨a, last, c, c', rfl, rfl, ha, hlast⟩ := hr.split
  obtain ⟨t, ts, hts⟩ := List.exists_cons_of_ne_nil hne
  obtain ⟨dirs, rfl⟩ : ∃ dirs, a = dirs ++ ['/'] := (hts ▸ ha).exists_slash
  have htext' : path.text.toList = (before ++ dirs) ++ '/' :: last := by simp [htext]
  rcases key_mem_of_foldl_addCapture hkey with hempty | ⟨cap, hcap, rfl⟩
  · rw [Dict.contains, Dict.get?_empty] at hempty
    cases hempty
  · rcases List.mem_append.mp hcap with hcap | hcap
    · exact isSome_fieldValue?_of_directory hb ho (ha.key_mem_directory ho cap hcap)
    · exact hs.isSome_fieldValue?_of_fileName hb hends hname htext' hlast cap hcap

end Drs
end ForcingData
