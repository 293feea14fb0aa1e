import ForcingData.Proofs.Drs.Building
import ForcingData.Proofs.Path

/-! # Paths that are built are read back

`exists_parsePath_buildPath`: below any root, the path that well separated templates prescribe for
some values is read, and gives these values back: those of the directories as they are, all others
that the file name shows as it shows them, and nothing else. -/

namespace ForcingData.Drs

/-- All items of all directories. -/
def directoryItems (d : Drs) : List Item := d.directory.flatMap fun t => keptItems t.pieces

/-- The keys that directories are named by. -/
def directoryKeys (d : Drs) : List String := d.directory.flatMap Template.keys

/-- The keys that the file name shows: outside of sections, or in a section all of whose keys have
values. -/
def renderedKeys (d : Drs) (fields : Attributes) : List String :=
  (rendered fields d.fileName.pieces).filterMap Item.key?

theorem filterMap_directoryItems (d : Drs) :
    d.directoryItems.filterMap Item.key? = d.directoryKeys := by
  rw [directoryItems, List.filterMap_flatMap]
  rfl

/-! ### The text of a path -/

theorem reads_of_renderTemplate {part : Part} {fields : Attributes} {t : Template} {s : String}
    (h : t.render part fields = .ok s) (hf : Fits part fields (keptItems t.pieces)) :
    Reads (t.pieces.map (part, ·)) s.toList (captured part fields (rendered fields t.pieces)) := by
  obtain ⟨cs, hcs, h⟩ := Except.bind_eq_ok.mp h
  obtain rfl := Except.pure_eq_ok.mp h
  rw [String.toList_ofList]
  exact reads_of_renderPieces hcs hf

theorem reads_directoryPattern {fields : Attributes} : ∀ {ts : List Template}
    {names : List String},
    List.Forall₂ (fun t s => Template.render .directory fields t = .ok s) ts names →
    (∀ t ∈ ts, ∀ p ∈ t.pieces, p.isOptional = false) →
    (∀ t ∈ ts, Fits .directory fields (keptItems t.pieces)) →
      Reads (directoryPattern ts) (names.flatMap fun s => s.toList ++ ['/'])
        (captured .directory fields (ts.flatMap fun t => keptItems t.pieces))
  | [], [], .nil, _, _ => .nil
  | t :: ts, s :: names, .cons hs h, ho, hf => by
    have ih := reads_directoryPattern h (fun u hu => ho u (List.mem_cons_of_mem _ hu))
      fun u hu => hf u (List.mem_cons_of_mem _ hu)
    have hr := reads_of_renderTemplate hs (hf t (List.mem_cons_self ..))
    rw [rendered_eq_keptItems (ho t (List.mem_cons_self ..))] at hr
    have hslash : ReadsItems .directory (Piece.item (.literal ['/'])).items ['/'] [] :=
      .literal ['/'] .nil
    rw [List.flatMap_cons, List.flatMap_cons, captured_append, List.append_assoc]
    exact hr.append (.taken .directory (.item (.literal ['/'])) hslash ih)

theorem buildPath_eq_ok {d : Drs} {fields : Attributes} {spec : PathSpec}
    (h : d.buildPath fields = .ok spec) :
    ∃ names,
      List.Forall₂ (fun t s => Template.render .directory fields t = .ok s) d.directory names ∧
      d.fileName.render .fileName fields = .ok spec.fileName ∧
      spec.directory = names.foldl (fun (path : Path) s => path.join ⟨s⟩) ⟨""⟩ := by
  obtain ⟨names, hnames, h⟩ := Except.bind_eq_ok.mp h
  obtain ⟨name, hname, h⟩ := Except.bind_eq_ok.mp h
  obtain rfl := Except.pure_eq_ok.mp h
  exact ⟨names, Except.mapM_eq_ok.mp hnames, hname, rfl⟩

/-- The directories of a path, with a slash after each, and the name. -/
theorem PathSpec.toList_path {spec : PathSpec} {names : List String} (hnil : names ≠ [])
    (hnames : ∀ s ∈ names, Path.IsName s) (hslash : '/' ∉ spec.fileName.toList)
    (hdir : spec.directory = names.foldl (fun (path : Path) s => path.join ⟨s⟩) ⟨""⟩) :
    spec.path.text.toList =
      (names.flatMap fun s => s.toList ++ ['/']) ++ spec.fileName.toList := by
  obtain ⟨hopen, htext⟩ := Path.foldl_join_empty hnil hnames
  rw [← hdir] at hopen htext
  rw [path, Path.join_of_not_isOpen (Path.not_isAbsolute_mk hslash) hopen, ← htext]
  simp

/-- What the path of a file says, read by the templates. -/
theorem reads_pathPattern {directory fileName : String} {d : Drs}
    (hd : ofTemplates? directory fileName = .ok d) (hs : d.WellSeparated) {fields : Attributes}
    (hf : ∀ key ∈ d.directoryKeys, ∀ value, fields.get? key = some value → '/' ∉ value.toList)
    {spec : PathSpec} (hb : d.buildPath fields = .ok spec) :
    spec.path.isAbsolute = false ∧ Reads d.pathPattern spec.path.text.toList
      (captured .directory fields d.directoryItems ++
        captured .fileName fields (rendered fields d.fileName.pieces)) := by
  obtain ⟨hne, ho, hchars⟩ := ofTemplates?_eq_ok hd
  obtain ⟨names, hnames, hname, hdir⟩ := buildPath_eq_ok hb
  have hfits : ∀ t ∈ d.directory, Fits .directory fields (keptItems t.pieces) :=
    fun t ht _ key hkey => hf key (List.mem_flatMap.mpr ⟨t, ht, hkey⟩)
  have hisName : ∀ s ∈ names, Path.IsName s := by
    intro s hsm
    obtain ⟨i, hi, rfl⟩ := List.mem_iff_getElem.mp hsm
    have hi' : i < d.directory.length := by rw [hnames.length_eq]; exact hi
    have ht := List.getElem_mem hi'
    have hr := reads_of_renderTemplate (hnames.get hi' hi) (hfits _ ht)
    refine ⟨fun he => ?_, (hs.isSegment ho _ ht).notMem_slash hr⟩
    refine Template.ne_nil_of_reads (hchars _ (List.mem_cons_of_mem _ ht)) (hs.nonempty _ ht)
      (ho _ ht) hr ?_
    exact String.toList_eq_nil_iff.mpr he
  have hnil : names ≠ [] := by
    rintro rfl
    exact hne (List.eq_nil_of_length_eq_zero hnames.length_eq)
  have hfile := reads_of_renderTemplate hname (fun h => by cases h)
  have hpath := spec.toList_path hnil hisName (hs.notMem_slash hfile) hdir
  refine ⟨?_, ?_⟩
  · -- the path starts with the first directory, which does not start with a slash
    obtain ⟨s, names, rfl⟩ := List.exists_cons_of_ne_nil hnil
    have hs := hisName s (List.mem_cons_self ..)
    have hne : s.toList ≠ [] := fun he => hs.1 (String.toList_eq_nil_iff.mp he)
    obtain ⟨c, cs, hcs⟩ := List.exists_cons_of_ne_nil hne
    rw [Bool.eq_false_iff, Ne, Path.isAbsolute_iff, hpath, List.flatMap_cons, hcs]
    rintro he
    refine hs.2 ?_
    rw [hcs, ← Option.some.inj he]
    exact List.mem_cons_self ..
  · rw [hpath]
    exact (reads_directoryPattern hnames ho hfits).append hfile

/-! ### The values in captured texts -/

theorem fieldValue?_of_captured {part : Part} {fields : Attributes} {is : List Item}
    (h : ∀ cap ∈ captured part fields is, cap.text ≠ []) {key : String}
    (hk : key ∈ is.filterMap Item.key?) : ∃ value, fields.get? key = some value ∧
      (fieldValue? fields key).getD "" = value := by
  obtain ⟨i, hi, hik⟩ := List.mem_filterMap.mp hk
  have hcap := h ⟨part, key, part.shown ((fieldValue? fields key).getD "")⟩
    (List.mem_filterMap.mpr ⟨i, hi, by rw [hik]; rfl⟩)
  cases hv : fieldValue? fields key with
  | none =>
    rw [hv] at hcap
    cases part <;> exact absurd rfl hcap
  | some value => exact ⟨value, (fieldValue?_eq_some.mp hv).1, rfl⟩

theorem get?_foldl_directory (fields : Attributes) (key : String) : ∀ (is : List Item)
    (acc : Attributes), ((captured .directory fields is).foldl addCapture acc).get? key =
      if key ∈ is.filterMap Item.key? then some ((fieldValue? fields key).getD "")
      else acc.get? key
  | [], acc => rfl
  | .literal text :: is, acc => get?_foldl_directory fields key is acc
  | .key name :: is, acc => by
    have hcap : captured .directory fields (.key name :: is) =
        ⟨.directory, name, ((fieldValue? fields name).getD "").toList⟩ ::
          captured .directory fields is := rfl
    rw [hcap, List.foldl_cons, get?_foldl_directory fields key is, addCapture, Dict.get?_insert,
      String.ofList_toList, List.filterMap_cons_some (Item.key?_key name)]
    by_cases h : key = name
    · simp [h]
    · simp [h]

theorem get?_foldl_fileName (fields : Attributes) (key : String) : ∀ (is : List Item)
    (acc : Attributes), ((captured .fileName fields is).foldl addCapture acc).get? key =
      (acc.get? key).or (if key ∈ is.filterMap Item.key? then
        some (applyKnownReplacements ((fieldValue? fields key).getD "")) else none)
  | [], acc => by simp [captured]
  | .literal text :: is, acc => get?_foldl_fileName fields key is acc
  | .key name :: is, acc => by
    have hcap : captured .fileName fields (.key name :: is) =
        ⟨.fileName, name, ((fieldValue? fields name).getD "").toList.map replaceChar⟩ ::
          captured .fileName fields is := rfl
    rw [hcap, List.foldl_cons, get?_foldl_fileName fields key is,
      List.filterMap_cons_some (Item.key?_key name), addCapture]
    simp only
    by_cases hname : acc.contains name = true
    · rw [if_pos hname]
      obtain ⟨value, hvalue⟩ := (acc.contains_iff name).mp hname
      by_cases h : key = name
      · subst h
        simp [hvalue]
      · simp [h]
    · rw [if_neg hname, Dict.get?_insert]
      by_cases h : key = name
      · subst h
        have hnone : acc.get? key = none := by
          simpa [Dict.contains] using hname
        simp [hnone, applyKnownReplacements]
      · simp [h]

/-! ### There and back -/

/-- What a backslash counts as. -/
abbrev asSlash (c : Char) : Char := if c = '\\' then '/' else c

theorem map_asSlash {cs : List Char} (h : '\\' ∉ cs) : cs.map asSlash = cs := by
  refine (List.map_congr_left fun c hc => ?_).trans (List.map_id cs)
  refine if_neg ?_
  rintro rfl
  exact h hc

theorem AtStart.map_asSlash {before : List Char} (h : AtStart before) :
    AtStart (before.map asSlash) := by
  rcases h with rfl | h
  · exact .inl rfl
  · exact .inr (by rw [List.getLast?_map, h]; rfl)

/-- The path of a file, below any root, gives back the values it was built from. -/
theorem exists_parsePath_buildPath {directory fileName : String} {d : Drs}
    (hd : ofTemplates? directory fileName = .ok d) (hs : d.WellSeparated) {fields : Attributes}
    (hf : ∀ key ∈ d.directoryKeys, ∀ value, fields.get? key = some value →
      '/' ∉ value.toList ∧ '\\' ∉ value.toList)
    {spec : PathSpec} (hb : d.buildPath fields = .ok spec) (root : Path) :
    ∃ parsed, d.parsePath (root.join spec.path) = .ok parsed ∧ ∀ key, parsed.get? key =
      if key ∈ d.directoryKeys then fields.get? key
      else if key ∈ d.renderedKeys fields then (fields.get? key).map applyKnownReplacements
      else none := by
  obtain ⟨hrel, hr⟩ :=
    reads_pathPattern hd hs (fun key hk value hv => (hf key hk value hv).1) hb
  obtain ⟨before, hbefore, htext⟩ := Path.exists_join hrel root
  have hcaps := hr.captures
  have hnoBackslash : '\\' ∉ spec.path.text.toList := by
    refine hs.notMem_backslash hr fun cap hcap hm => ?_
    -- directories show values as they are, names only characters that are no backslash
    rcases List.mem_append.mp hcap with hcap' | hcap'
    · obtain ⟨i, hi, hcap''⟩ := List.mem_filterMap.mp hcap'
      obtain ⟨key, hik, rfl⟩ := Option.map_eq_some_iff.mp hcap''
      have hkey : key ∈ d.directoryItems.filterMap Item.key? := List.mem_filterMap.mpr ⟨i, hi, hik⟩
      obtain ⟨value, hv, hget⟩ := fieldValue?_of_captured
        (fun c hc => (hcaps c (List.mem_append_left _ hc)).1) hkey
      rw [filterMap_directoryItems] at hkey
      simp only [Part.shown, hget] at hm
      exact (hf key hkey value hv).2 hm
    · obtain ⟨i, hi, hcap''⟩ := List.mem_filterMap.mp hcap'
      obtain ⟨key, hik, rfl⟩ := Option.map_eq_some_iff.mp hcap''
      have hchar : isFileNameChar '\\' = true := (hcaps _ hcap).2 _ hm
      exact absurd hchar (by decide)
  have hfind := hs.findEnd_eq_some (ofTemplates?_eq_ok hd).2.1
    (AtStart.map_asSlash hbefore) hr
  rw [← map_asSlash hnoBackslash, ← List.map_append, ← htext] at hfind
  refine ⟨_, by rw [parsePath, hfind], fun key => ?_⟩
  rw [List.foldl_append, get?_foldl_fileName, get?_foldl_directory, filterMap_directoryItems]
  -- a value from a directory is taken up first, and stays
  by_cases hdir : key ∈ d.directoryKeys
  · obtain ⟨value, hv, hget⟩ := fieldValue?_of_captured
      (fun c hc => (hcaps c (List.mem_append_left _ hc)).1)
      (by rwa [filterMap_directoryItems] : key ∈ d.directoryItems.filterMap Item.key?)
    rw [if_pos hdir, if_pos hdir, hget, hv]
    rfl
  · rw [if_neg hdir, if_neg hdir, Dict.get?_empty, Option.none_or]
    by_cases hfile : key ∈ d.renderedKeys fields
    · obtain ⟨value, hv, hget⟩ := fieldValue?_of_captured
        (fun c hc => (hcaps c (List.mem_append_right _ hc)).1) hfile
      rw [if_pos hfile, hv, ← hget]
      exact if_pos hfile
    · rw [if_neg hfile]
      exact if_neg hfile

/-- Templates with a key in both parts and a section. -/
def sampleDrs : Drs :=
  ⟨[⟨"<source>", [.item (.key "source")]⟩,
    ⟨"v<version>", [.item (.literal ['v']), .item (.key "version")]⟩],
    ⟨"<name>_<source>[_<period>].nc", [.item (.key "name"), .item (.literal ['_']),
      .item (.key "source"), .optional [.literal ['_'], .key "period"],
      .item (.literal ['.', 'n', 'c'])]⟩⟩

def sampleFields : Attributes :=
  Dict.ofList [("name", "tas"), ("period", "1850.2000"), ("source", "a_b"), ("version", "1")]

/-- The source is read from the directory as it is, the period from the name as it stands there. -/
theorem parsePath_buildPath_sample :
    ofTemplates? "<source>/v<version>" "<name>_<source>[_<period>].nc" = .ok sampleDrs ∧
      sampleDrs.WellSeparated ∧
      ∃ parsed, sampleDrs.parsePath ⟨"/data/a_b/v1/tas_a-b_1850-2000.nc"⟩ = .ok parsed ∧
        parsed.get? "source" = some "a_b" ∧ parsed.get? "period" = some "1850-2000" := by
  have hd : ofTemplates? "<source>/v<version>" "<name>_<source>[_<period>].nc" =
      .ok sampleDrs := by rfl
  have hs : sampleDrs.WellSeparated :=
    ⟨by decide, by decide, by decide, by decide, by decide, by decide, by decide⟩
  have hf : ∀ key ∈ sampleDrs.directoryKeys, ∀ value, sampleFields.get? key = some value →
      '/' ∉ value.toList ∧ '\\' ∉ value.toList := by
    have hkeys : sampleDrs.directoryKeys = ["source", "version"] := by decide
    rw [hkeys]
    decide +kernel
  have hb : sampleDrs.buildPath sampleFields =
      .ok ⟨⟨"a_b/v1"⟩, "tas_a-b_1850-2000.nc"⟩ := by rfl
  obtain ⟨parsed, hparsed, hget⟩ := exists_parsePath_buildPath hd hs hf hb ⟨"/data"⟩
  refine ⟨hd, hs, parsed, hparsed, (hget "source").trans ?_, (hget "period").trans ?_⟩
  · decide +kernel
  · decide +kernel

end ForcingData.Drs
