import ForcingData.Proofs.Drs.Ending
import ForcingData.Proofs.Drs.Language

/-! # Paths that are read are built again

The values read from a path, where each key shows one of them at all its places (`Consistent`),
are shown again where they were read (`renderPieces_of_reads`). A section that the path leaves out
is filled in up to its first key without a value, so that the path is built again exactly if the
values before can stand in a file name (`rebuilt_iff`). -/

namespace ForcingData.Drs

variable {part : Part} {fields : Attributes}

/-! ### Values where they were read -/

/-- The text is what the value of the key shows there. -/
def Shows (fields : Attributes) (cap : Capture) : Prop :=
  ∃ value, fieldValue? fields cap.key = some value ∧ cap.text = cap.part.shown value

theorem Part.render_of_allows {key value : String} (hne : part.shown value ≠ [])
    (hv : ∀ c ∈ part.shown value, part.allows c = true) :
    part.render key value = .ok (part.shown value) := by
  cases part with
  | directory => rfl
  | fileName =>
    refine if_pos ?_
    simp only [Bool.and_eq_true, decide_eq_true_eq, List.all_eq_true]
    exact ⟨hne, hv⟩

theorem renderSection_of_reads {is : List Item} {cs : List Char} {caps : List Capture}
    (h : ReadsItems part is cs caps) (hs : ∀ cap ∈ caps, Shows fields cap) :
    renderSection part fields is = .ok (some cs) := by
  induction h with
  | nil => rfl
  | literal text _ ih =>
    rw [renderSection, ih hs]
    rfl
  | @key name v hne hv items cs caps _ ih =>
    obtain ⟨⟨value, hvalue, htext⟩, hrest⟩ := List.forall_mem_cons.mp hs
    obtain rfl : v = part.shown value := htext
    simp only [renderSection, hvalue, Part.render_of_allows hne hv, ih hrest]
    rfl

theorem all_hasValue_of_reads {is : List Item} {cs : List Char} {caps : List Capture}
    (h : ReadsItems part is cs caps) (hs : ∀ cap ∈ caps, Shows fields cap) :
    is.all (Item.hasValue fields) = true := by
  induction h with
  | nil => rfl
  | literal text _ ih => simpa [Item.hasValue] using ih hs
  | key name _ _ _ ih =>
    obtain ⟨⟨value, hvalue, _⟩, hrest⟩ := List.forall_mem_cons.mp hs
    simpa [Item.hasValue, hvalue] using ih hrest

theorem Item.render_of_reads {i : Item} {cs : List Char} {caps : List Capture}
    (h : ReadsItems part [i] cs caps) (hs : ∀ cap ∈ caps, Shows fields cap) :
    i.render part fields = .ok cs := by
  cases h with
  | literal text h =>
    cases h
    rw [List.append_nil, Item.render]
  | @key name v hne hv _ cs caps h =>
    cases h
    obtain ⟨value, hvalue, htext⟩ := hs _ (List.mem_singleton_self _)
    obtain rfl : v = part.shown value := htext
    simp only [Item.render, hvalue, List.append_nil]
    exact Part.render_of_allows hne hv

/-- What is read is filled in, where the sections that are not there are left out. -/
theorem renderPieces_of_reads : ∀ {pieces : List Piece} {cs : List Char} {caps : List Capture},
    ReadsItems part (rendered fields pieces) cs caps → (∀ cap ∈ caps, Shows fields cap) →
    (∀ items, .optional items ∈ pieces → items.all (Item.hasValue fields) = false →
      renderSection part fields items = .ok none) →
    renderPieces part fields pieces = .ok cs
  | [], _, _, .nil, _, _ => rfl
  | p :: pieces, cs, caps, h, hs, hdropped => by
    obtain ⟨a, b, c, c', rfl, rfl, ha, hb⟩ := h.split
    have hrest := renderPieces_of_reads hb (fun cap hcap => hs cap (List.mem_append_right _ hcap))
      fun items hi => hdropped items (List.mem_cons_of_mem _ hi)
    have hfirst : p.render part fields = .ok a := by
      have hs : ∀ cap ∈ c, Shows fields cap := fun cap hcap => hs cap (List.mem_append_left _ hcap)
      cases p with
      | item i => exact Item.render_of_reads ha hs
      | optional items =>
        -- a section is there exactly if all its keys have values
        cases hall : items.all (Item.hasValue fields) with
        | true =>
          have hitems : ReadsItems part items a c := by
            simpa [Piece.isOptional, Piece.items, hall] using ha
          rw [Piece.render, renderSection_of_reads hitems hs]
          rfl
        | false =>
          have hnil : ReadsItems part [] a c := by
            simpa [Piece.isOptional, Piece.items, hall] using ha
          cases hnil
          rw [Piece.render, hdropped items (List.mem_cons_self ..) hall]
          rfl
    rw [renderPieces, hfirst, hrest]
    rfl

/-! ### Sections that are left out -/

/-- The keys of a section up to the first one without a value. -/
def visitedKeys (fields : Attributes) (items : List Item) : List String :=
  (items.takeWhile (Item.hasValue fields)).filterMap Item.key?

/-- The value can stand in a file name. -/
def FitsName (value : String) : Prop :=
  (applyKnownReplacements value).toList.all isFileNameChar = true

instance (value : String) : Decidable (FitsName value) := inferInstanceAs (Decidable (_ = true))

theorem Part.render_fileName_isOk (key : String) {value : String} (hne : value ≠ "") :
    (∃ cs, Part.fileName.render key value = .ok cs) ↔ FitsName value := by
  have hnil : value.toList.map replaceChar ≠ [] := by simpa using hne
  rw [FitsName, applyKnownReplacements, String.toList_ofList, List.all_eq_true]
  constructor
  · rintro ⟨cs, hcs⟩
    obtain ⟨rfl, _, hall⟩ := Part.render_eq_ok hcs hne fun h => by cases h
    exact hall
  · exact fun hall => ⟨_, Part.render_of_allows hnil hall⟩

/-- Only the values before the first one that is missing matter. -/
theorem renderSection_isOk : ∀ {is : List Item},
    (∃ cs?, renderSection .fileName fields is = .ok cs?) ↔
      ∀ key ∈ visitedKeys fields is, ∀ value, fieldValue? fields key = some value → FitsName value
  | [] => ⟨fun _ _ hkey => absurd hkey List.not_mem_nil, fun _ => ⟨_, rfl⟩⟩
  | .literal text :: is => by
    have hvisited : visitedKeys fields (.literal text :: is) = visitedKeys fields is := rfl
    rw [hvisited, ← renderSection_isOk]
    constructor
    · rintro ⟨_, h⟩
      obtain ⟨rest?, hrest, _⟩ := Except.bind_eq_ok.mp h
      exact ⟨rest?, hrest⟩
    · rintro ⟨rest?, hrest⟩
      rw [renderSection, hrest]
      exact ⟨_, rfl⟩
  | .key name :: is => by
    -- behind a key without a value nothing is visited
    cases hvalue : fieldValue? fields name with
    | none =>
      have hvisited : visitedKeys fields (.key name :: is) = [] := by
        simp [visitedKeys, Item.hasValue, hvalue]
      simp [hvisited, renderSection, hvalue]
    | some value =>
      have hvisited : visitedKeys fields (.key name :: is) = name :: visitedKeys fields is := by
        simp [visitedKeys, Item.hasValue, hvalue]
      rw [hvisited, List.forall_mem_cons, ← renderSection_isOk, hvalue]
      simp only [Option.some.injEq, forall_eq']
      rw [← Part.render_fileName_isOk name (fieldValue?_eq_some.mp hvalue).2]
      simp only [renderSection, hvalue]
      constructor
      · rintro ⟨_, h⟩
        obtain ⟨cs, hcs, h⟩ := Except.bind_eq_ok.mp h
        obtain ⟨rest?, hrest, _⟩ := Except.bind_eq_ok.mp h
        exact ⟨⟨cs, hcs⟩, rest?, hrest⟩
      · rintro ⟨⟨cs, hcs⟩, rest?, hrest⟩
        rw [hcs, hrest]
        exact ⟨_, rfl⟩

theorem renderSection_eq_none {is : List Item} (hall : is.all (Item.hasValue fields) = false)
    (h : ∃ cs?, renderSection .fileName fields is = .ok cs?) :
    renderSection .fileName fields is = .ok none := by
  obtain ⟨cs?, hcs⟩ := h
  have hr := reads_of_renderSection hcs nofun
  cases cs? with
  | none => exact hcs
  | some cs => exact absurd (hall.symm.trans hr.1) Bool.false_ne_true

theorem renderSection_isOk_of_renderPieces : ∀ {pieces : List Piece} {cs : List Char},
    renderPieces part fields pieces = .ok cs → ∀ items, .optional items ∈ pieces →
      ∃ cs?, renderSection part fields items = .ok cs?
  | p :: pieces, cs, h, items, hi => by
    obtain ⟨a, ha, h⟩ := Except.bind_eq_ok.mp h
    obtain ⟨b, hb, _⟩ := Except.bind_eq_ok.mp h
    rcases List.mem_cons.mp hi with rfl | hi
    · obtain ⟨cs?, hcs, _⟩ := Except.bind_eq_ok.mp ha
      exact ⟨cs?, hcs⟩
    · exact renderSection_isOk_of_renderPieces hb items hi

/-! ### Values of a path -/

theorem Reads.part_eq {p : Pattern} {cs : List Char} {caps : List Capture} (h : Reads p cs caps)
    (hp : ∀ q ∈ p, q.1 = part) : ∀ cap ∈ caps, cap.part = part := by
  induction h with
  | nil => exact fun _ hcap => absurd hcap List.not_mem_nil
  | @taken _ piece ps a b c c' hi _ ih =>
    obtain ⟨rfl, hp⟩ := List.forall_mem_cons.mp hp
    rintro cap hcap
    rcases List.mem_append.mp hcap with hcap | hcap
    · exact hi.part_eq cap hcap
    · exact ih hp cap hcap
  | dropped _ items _ ih => exact ih fun q hq => hp q (List.mem_cons_of_mem _ hq)

theorem part_directoryPattern : ∀ {ts : List Template}, ∀ q ∈ directoryPattern ts, q.1 = .directory
  | t :: ts, q, hq => by
    rw [directoryPattern, List.mem_append, List.mem_cons] at hq
    rcases hq with hq | rfl | hq
    · obtain ⟨_, _, rfl⟩ := List.mem_map.mp hq
      rfl
    · rfl
    · exact part_directoryPattern q hq

theorem part_fileNamePattern {d : Drs} : ∀ q ∈ d.fileNamePattern, q.1 = .fileName := fun q hq => by
  obtain ⟨_, _, rfl⟩ := List.mem_map.mp hq
  rfl

/-- With all values of a key alike, it does not matter which one counts. -/
theorem get?_foldl_addCapture_directory {key : String} {text : List Char} :
    ∀ {caps : List Capture} {acc : Attributes}, (∀ cap ∈ caps, cap.part = .directory) →
      (∀ cap ∈ caps, cap.key = key → cap.text = text) →
      ((∃ cap ∈ caps, cap.key = key) ∨ acc.get? key = some (String.ofList text)) →
      (caps.foldl addCapture acc).get? key = some (String.ofList text)
  | [], _, _, _, h => h.resolve_left (by simp)
  | cap :: caps, acc, hpart, htext, h => by
    obtain ⟨hcap, hpart⟩ := List.forall_mem_cons.mp hpart
    obtain ⟨hfirst, htext⟩ := List.forall_mem_cons.mp htext
    rw [List.foldl_cons]
    refine get?_foldl_addCapture_directory hpart htext ?_
    by_cases hkey : cap.key = key
    · right
      unfold addCapture
      rw [hcap, hfirst hkey, hkey]
      exact (Dict.get?_insert ..).trans (if_pos rfl)
    · rw [get?_addCapture_of_ne hkey]
      exact h.imp_left fun hmem => ((List.exists_mem_cons_iff ..).mp hmem).resolve_left hkey

theorem get?_foldl_addCapture_fileName {key : String} : ∀ {caps : List Capture} {acc : Attributes}
    {value : String}, (∀ cap ∈ caps, cap.part = .fileName) → acc.get? key = some value →
      (caps.foldl addCapture acc).get? key = some value
  | [], _, _, _, h => h
  | cap :: caps, acc, value, hpart, h => by
    obtain ⟨hcap, hpart⟩ := List.forall_mem_cons.mp hpart
    rw [List.foldl_cons]
    refine get?_foldl_addCapture_fileName hpart ?_
    by_cases hkey : cap.key = key
    · have hcontains : acc.contains cap.key = true :=
        (acc.contains_iff _).mpr ⟨value, hkey ▸ h⟩
      unfold addCapture
      rwa [hcap, hcontains]
    · rwa [get?_addCapture_of_ne hkey]

theorem exists_get?_foldl_addCapture {key : String} : ∀ {caps : List Capture} {acc : Attributes},
    ((∃ cap ∈ caps, cap.key = key) ∨ acc.contains key = true) →
      ∃ value, (caps.foldl addCapture acc).get? key = some value
  | [], acc, h => (acc.contains_iff key).mp (h.resolve_left (by simp))
  | cap :: caps, acc, h => by
    rw [List.foldl_cons]
    refine exists_get?_foldl_addCapture ?_
    by_cases hkey : cap.key = key
    · right
      rw [← hkey]
      unfold addCapture
      split
      · simp [Dict.contains, Dict.get?_insert]
      · split_ifs with hcontains
        · exact hcontains
        · simp [Dict.contains, Dict.get?_insert]
    · rw [Dict.contains, get?_addCapture_of_ne hkey]
      exact h.imp_left fun hmem => ((List.exists_mem_cons_iff ..).mp hmem).resolve_left hkey

theorem parsePath_eq_ok {d : Drs} {p : Path} : d.parsePath p = .ok fields ↔
    ∃ caps, findEnd d.pathPattern (withSlashes p) = some caps ∧
      caps.foldl addCapture ∅ = fields := by
  unfold parsePath withSlashes
  split <;> simp_all

/-- The texts that the placeholders take in a path. -/
def occurrences (d : Drs) (p : Path) : List Capture :=
  (findEnd d.pathPattern (withSlashes p)).getD []

/-- Every key shows its value wherever it stands in the path, and the section is there if all its
keys have values. -/
structure Consistent (d : Drs) (fields : Attributes) (p : Path) : Prop where
  directory : ∀ cap ∈ d.occurrences p, ∀ cap' ∈ d.occurrences p, cap.part = .directory →
    cap'.part = .directory → cap.key = cap'.key → cap.text = cap'.text
  fileName : ∀ cap ∈ d.occurrences p, cap.part = .fileName → ∀ value,
    fields.get? cap.key = some value → cap.text = (applyKnownReplacements value).toList
  whole : ∀ items, .optional items ∈ d.fileName.pieces →
    items.all (Item.hasValue fields) = true →
    ((d.occurrences p).filter (·.part = .fileName)).map Capture.key = d.fileName.keys

/-- What the templates read in a path, the directories and the name. -/
structure Cut (d : Drs) (fields : Attributes) (p : Path) (directory name : List Char)
    (caps caps' : List Capture) : Prop where
  occurrences : d.occurrences p = caps ++ caps'
  fields : (caps ++ caps').foldl addCapture ∅ = fields
  directory : Reads (directoryPattern d.directory) directory caps
  name : Reads d.fileNamePattern name caps'

theorem exists_cut {d : Drs} {p : Path} (h : d.parsePath p = .ok fields) :
    ∃ before directory name caps caps', withSlashes p = before ++ (directory ++ name) ∧
      AtStart before ∧ d.Cut fields p directory name caps caps' := by
  obtain ⟨caps, hcaps, hfields⟩ := parsePath_eq_ok.mp h
  obtain ⟨before, rest, htext, hbefore, hr⟩ := findEnd_sound hcaps
  obtain ⟨a, b, c, c', rfl, rfl, ha, hb⟩ := hr.split
  refine ⟨before, a, b, c, c', htext, hbefore, ?_, hfields, ha, hb⟩
  rw [occurrences, hcaps]
  rfl

namespace Cut
variable {d : Drs} {p : Path} {directory name : List Char} {caps caps' : List Capture}
  (h : d.Cut fields p directory name caps caps')
include h

theorem part_directory : ∀ cap ∈ caps, cap.part = .directory :=
  h.directory.part_eq part_directoryPattern

theorem part_fileName : ∀ cap ∈ caps', cap.part = .fileName := h.name.part_eq part_fileNamePattern

theorem filter_occurrences : (d.occurrences p).filter (·.part = .fileName) = caps' := by
  rw [h.occurrences, List.filter_append]
  have hdirectory : caps.filter (·.part = .fileName) = [] :=
    List.filter_eq_nil_iff.mpr fun cap hcap => by simp [h.part_directory cap hcap]
  have hname : caps'.filter (·.part = .fileName) = caps' :=
    List.filter_eq_self.mpr fun cap hcap => by simp [h.part_fileName cap hcap]
  rw [hdirectory, hname, List.nil_append]

theorem shows (hc : d.Consistent fields p) : ∀ cap ∈ caps ++ caps', Shows fields cap := by
  intro cap hcap
  rcases List.mem_append.mp hcap with hmem | hmem
  · have hpart := h.part_directory cap hmem
    have hsame : ∀ other ∈ caps, other.key = cap.key → other.text = cap.text :=
      fun other hother => hc.directory other (h.occurrences ▸ List.mem_append_left _ hother) cap
        (h.occurrences ▸ hcap) (h.part_directory other hother) hpart
    have hget : fields.get? cap.key = some (String.ofList cap.text) := by
      rw [← h.fields, List.foldl_append]
      exact get?_foldl_addCapture_fileName h.part_fileName
        (get?_foldl_addCapture_directory h.part_directory hsame (.inl ⟨cap, hmem, rfl⟩))
    have hne : String.ofList cap.text ≠ "" := by simpa using (h.directory.captures cap hmem).1
    refine ⟨_, fieldValue?_eq_some.mpr ⟨hget, hne⟩, ?_⟩
    rw [hpart, Part.shown, String.toList_ofList]
  · have hpart := h.part_fileName cap hmem
    obtain ⟨value, hvalue⟩ : ∃ value, fields.get? cap.key = some value := by
      rw [← h.fields]
      exact exists_get?_foldl_addCapture (.inl ⟨cap, hcap, rfl⟩)
    have htext := hc.fileName cap (h.occurrences ▸ hcap) hpart value hvalue
    have hne : value ≠ "" := by
      rintro rfl
      exact (h.name.captures cap hmem).1 htext
    refine ⟨value, fieldValue?_eq_some.mpr ⟨hvalue, hne⟩, ?_⟩
    rw [htext, hpart, applyKnownReplacements, String.toList_ofList, Part.shown]

/-- The name is read by the items that are filled in. -/
theorem readsItems_rendered (hs : d.WellSeparated)
    (hkeyed : ∀ items, .optional items ∈ d.fileName.pieces → items.any Item.isKey = true)
    (hc : d.Consistent fields p) :
    ReadsItems .fileName (rendered fields d.fileName.pieces) name caps' := by
  have hshows : ∀ cap ∈ caps', Shows fields cap := fun cap hcap =>
    h.shows hc cap (List.mem_append_right _ hcap)
  obtain ⟨is, hchosen, hr⟩ := h.name.chosen
  by_cases hsection : ∃ items, .optional items ∈ d.fileName.pieces
  · obtain ⟨items, hi⟩ := hsection
    obtain ⟨ps, qs, hpieces, hps, hqs⟩ := exists_only_section hs.one_section hi
    have hkept : keptItems d.fileName.pieces = keptItems ps ++ (items ++ keptItems qs) := by
      simp [hpieces, keptItems, Piece.items]
    have hdropped : droppedItems d.fileName.pieces = keptItems ps ++ keptItems qs := by
      rw [← droppedItems_eq_keptItems hps, ← droppedItems_eq_keptItems hqs]
      simp [hpieces, droppedItems, Piece.isOptional]
    have hrendered : rendered fields d.fileName.pieces = keptItems ps ++
        ((if items.all (Item.hasValue fields) then items else []) ++ keptItems qs) := by
      have hbefore : rendered fields ps = keptItems ps := rendered_eq_keptItems hps
      have hafter : rendered fields qs = keptItems qs := rendered_eq_keptItems hqs
      rw [hpieces, rendered_append, rendered_optional, hbefore, hafter]
    have hchoice := hchosen.eq_kept_or_dropped hs.one_section
    -- the only section is read exactly where it is written: its keys tell whether it was there
    cases hall : items.all (Item.hasValue fields) with
    | true =>
      rw [hrendered, hall, if_pos rfl, ← hkept]
      rcases hchoice with rfl | rfl
      · exact hr
      · -- the section has a key, so it would show in the captured ones
        have hkeys := hc.whole items hi hall
        rw [h.filter_occurrences, hr.map_key, hdropped, Template.keys, ← keptItems, hkept] at hkeys
        have hlength := congrArg List.length hkeys
        simp only [List.filterMap_append, List.length_append] at hlength
        have hnil : items.filterMap Item.key? = [] := List.eq_nil_of_length_eq_zero (by omega)
        obtain ⟨i, hmem, hkey⟩ := List.any_eq_true.mp (hkeyed items hi)
        cases i with
        | literal text => cases hkey
        | key name => cases List.filterMap_eq_nil_iff.mp hnil _ hmem
    | false =>
      rw [hrendered, hall, if_neg Bool.false_ne_true, List.nil_append, ← hdropped]
      rcases hchoice with rfl | rfl
      · have hvalues := all_hasValue_of_reads hr hshows
        rw [hkept, List.all_append, List.all_append, hall] at hvalues
        simp at hvalues
      · exact hr
  · have hnone : ∀ q ∈ d.fileName.pieces, q.isOptional = false := fun q hq => by
      cases q with
      | item i => rfl
      | optional items => exact absurd ⟨items, hq⟩ hsection
    rw [rendered_eq_keptItems hnone]
    rwa [hchosen.eq_keptItems hnone] at hr

end Cut

/-! ### Building again -/

/-- Directories that are read are named again. -/
theorem exists_names_of_reads {d : Drs} {directory fileName : String}
    (hd : ofTemplates? directory fileName = .ok d) (hs : d.WellSeparated) :
    ∀ {ts : List Template} {cs : List Char} {caps : List Capture}, ts ⊆ d.directory →
      Reads (directoryPattern ts) cs caps → (∀ cap ∈ caps, Shows fields cap) →
      ∃ names, List.Forall₂ (fun t s => Template.render .directory fields t = .ok s) ts names ∧
        (∀ s ∈ names, Path.IsName s) ∧ cs = names.flatMap fun s => s.toList ++ ['/']
  | [], _, _, _, .nil, _ => ⟨[], .nil, nofun, rfl⟩
  | t :: ts, cs, caps, hts, hr, hshows => by
    obtain ⟨hne, ho, hchars⟩ := ofTemplates?_eq_ok hd
    obtain ⟨ht, hts⟩ := List.cons_subset.mp hts
    obtain ⟨a, b, c, c', rfl, rfl, ha, hb⟩ := hr.directory_cons
    obtain ⟨names, hnames, hisName, rfl⟩ := exists_names_of_reads hd hs hts hb fun cap hcap =>
      hshows cap (List.mem_append_right _ hcap)
    have hread : ReadsItems .directory (rendered fields t.pieces) a c := by
      rw [rendered_eq_keptItems (ho t ht)]
      exact ha.of_no_section (ho t ht)
    have hrender : t.render .directory fields = .ok (String.ofList a) := by
      rw [Template.render, renderPieces_of_reads hread
        (fun cap hcap => hshows cap (List.mem_append_left _ hcap))
        fun items hi => absurd (ho t ht _ hi) (by simp [Piece.isOptional])]
      rfl
    -- a segment is not empty and has no slash
    have hname : Path.IsName (String.ofList a) := by
      refine ⟨fun he => ?_, ?_⟩
      · refine Template.ne_nil_of_reads (hchars t (List.mem_cons_of_mem _ ht)) (hs.nonempty t ht)
          (ho t ht) ha ?_
        simpa using he
      · rw [String.toList_ofList]
        exact (hs.isSegment ho t ht).notMem_slash ha
    exact ⟨String.ofList a :: names, .cons hrender hnames,
      List.forall_mem_cons.mpr ⟨hname, hisName⟩, by simp⟩

theorem buildPath_of_render {d : Drs} {names : List String} {name : String}
    (hnames : List.Forall₂ (fun t s => Template.render .directory fields t = .ok s) d.directory
      names) (hname : d.fileName.render .fileName fields = .ok name) :
    d.buildPath fields =
      .ok ⟨names.foldl (fun (path : Path) s => path.join ⟨s⟩) ⟨""⟩, name⟩ :=
  Except.bind_eq_ok.mpr ⟨names, Except.mapM_eq_ok.mpr hnames,
    Except.bind_eq_ok.mpr ⟨name, hname, rfl⟩⟩

/-- In every section, the values before the first one that is missing can stand in a file name. -/
def SectionsFit (d : Drs) (fields : Attributes) : Prop :=
  ∀ items, .optional items ∈ d.fileName.pieces → ∀ key ∈ visitedKeys fields items, ∀ value,
    fieldValue? fields key = some value → FitsName value

theorem sectionsFit_of_buildPath {d : Drs} {spec : PathSpec} (h : d.buildPath fields = .ok spec) :
    d.SectionsFit fields := fun items hi => by
  obtain ⟨_, _, hname, _⟩ := buildPath_eq_ok h
  obtain ⟨cs, hcs, _⟩ := Except.bind_eq_ok.mp hname
  exact renderSection_isOk.mp (renderSection_isOk_of_renderPieces hcs items hi)

/-- The path that the values of a path are built into is this path, or its end. -/
theorem rebuilt_iff {directory fileName : String} {d : Drs}
    (hd : ofTemplates? directory fileName = .ok d) (hs : d.WellSeparated) {p : Path}
    (hp : '\\' ∉ p.text.toList) (h : d.parsePath p = .ok fields) (hc : d.Consistent fields p) :
    (∃ spec, d.buildPath fields = .ok spec ∧
      (p = spec.path ∨ ('/' :: spec.path.text.toList) <:+ p.text.toList)) ↔
    d.SectionsFit fields := by
  refine ⟨fun ⟨spec, hspec, _⟩ => sectionsFit_of_buildPath hspec, fun hfit => ?_⟩
  obtain ⟨hne, ho, _⟩ := ofTemplates?_eq_ok hd
  have hkeyed : ∀ items, .optional items ∈ d.fileName.pieces → items.any Item.isKey = true :=
    fun items hi => ((Template.parse?_eq_ok (templates_of_ofTemplates? hd).2).2.2 _ hi).2
  obtain ⟨before, cs, name, caps, caps', htext, hbefore, hcut⟩ := exists_cut h
  rw [withSlashes, map_asSlash hp] at htext
  obtain ⟨names, hnames, hisName, rfl⟩ := exists_names_of_reads hd hs (List.Subset.refl _)
    hcut.directory fun cap hcap => hcut.shows hc cap (List.mem_append_left _ hcap)
  have hrender : d.fileName.render .fileName fields = .ok (String.ofList name) := by
    rw [Template.render, renderPieces_of_reads (hcut.readsItems_rendered hs hkeyed hc)
      (fun cap hcap => hcut.shows hc cap (List.mem_append_right _ hcap))
      fun items hi hall => renderSection_eq_none hall (renderSection_isOk.mpr (hfit items hi))]
    rfl
  have hnil : names ≠ [] := by
    rintro rfl
    exact hne (List.eq_nil_of_length_eq_zero hnames.length_eq)
  refine ⟨_, buildPath_of_render hnames hrender, ?_⟩
  generalize hspec : PathSpec.mk _ (String.ofList name) = spec
  have hpath : spec.path.text.toList = (names.flatMap fun s => s.toList ++ ['/']) ++ name := by
    subst hspec
    rw [PathSpec.toList_path hnil hisName _ rfl, String.toList_ofList]
    rw [String.toList_ofList]
    exact hs.notMem_slash hcut.name
  rw [← hpath] at htext
  -- the reading starts with the path, or behind a slash in it
  rcases atStart_iff.mp hbefore with rfl | ⟨b, rfl⟩
  · left
    rw [List.nil_append, String.toList_inj] at htext
    cases p
    exact congrArg Path.mk htext
  · right
    exact ⟨b, by rw [htext]; simp⟩

/-- Templates with a key in the directory and in the section. -/
def sharedDrs : Drs :=
  ⟨[⟨"<source>", [.item (.key "source")]⟩],
    ⟨"<name>[_<source>_<period>].nc", [.item (.key "name"),
      .optional [.literal ['_'], .key "source", .literal ['_'], .key "period"],
      .item (.literal ['.', 'n', 'c'])]⟩⟩

theorem eq_of_section_sharedDrs {items : List Item}
    (h : .optional items ∈ sharedDrs.fileName.pieces) :
    items = [.literal ['_'], .key "source", .literal ['_'], .key "period"] := by
  simpa [sharedDrs] using h

/-- A point in the directory is no hindrance. A blank is, even where the section is not there. -/
theorem rebuilt_iff_sample :
    (∃ fields spec, sharedDrs.parsePath ⟨"/data/a.b/tas_a-b_1850.nc"⟩ = .ok fields ∧
      sharedDrs.buildPath fields = .ok spec ∧
      (Path.mk "/data/a.b/tas_a-b_1850.nc" = spec.path ∨
        ('/' :: spec.path.text.toList) <:+ "/data/a.b/tas_a-b_1850.nc".toList)) ∧
    ∃ fields, sharedDrs.parsePath ⟨"a b/tas.nc"⟩ = .ok fields ∧
      sharedDrs.Consistent fields ⟨"a b/tas.nc"⟩ ∧
      ¬∃ spec, sharedDrs.buildPath fields = .ok spec ∧
        (Path.mk "a b/tas.nc" = spec.path ∨
          ('/' :: spec.path.text.toList) <:+ "a b/tas.nc".toList) := by
  have hd : ofTemplates? "<source>" "<name>[_<source>_<period>].nc" = .ok sharedDrs := by rfl
  have hs : sharedDrs.WellSeparated :=
    ⟨by decide, by decide, by decide, by decide, by decide, by decide, by decide⟩
  constructor
  · let fields : Attributes :=
      Dict.ofList [("name", "tas"), ("period", "1850"), ("source", "a.b")]
    have hparse : sharedDrs.parsePath ⟨"/data/a.b/tas_a-b_1850.nc"⟩ = .ok fields := by
      decide
    have hc : sharedDrs.Consistent fields ⟨"/data/a.b/tas_a-b_1850.nc"⟩ := by
      refine ⟨by decide, by decide, fun items hi => ?_⟩
      rw [eq_of_section_sharedDrs hi]
      decide
    have hfit : sharedDrs.SectionsFit fields := fun items hi key hkey value hv => by
      have hvisited : visitedKeys fields items = ["source", "period"] := by
        rw [eq_of_section_sharedDrs hi]
        decide
      rw [hvisited, List.mem_pair] at hkey
      have hsource : fieldValue? fields "source" = some "a.b" := by decide
      have hperiod : fieldValue? fields "period" = some "1850" := by decide
      rcases hkey with rfl | rfl
      · rw [← Option.some.inj (hsource.symm.trans hv)]
        decide
      · rw [← Option.some.inj (hperiod.symm.trans hv)]
        decide
    obtain ⟨spec, hspec, hpath⟩ := (rebuilt_iff hd hs (by decide) hparse hc).mpr hfit
    exact ⟨fields, spec, hparse, hspec, hpath⟩
  · let fields : Attributes := Dict.ofList [("name", "tas"), ("source", "a b")]
    have hparse : sharedDrs.parsePath ⟨"a b/tas.nc"⟩ = .ok fields := by decide
    have hc : sharedDrs.Consistent fields ⟨"a b/tas.nc"⟩ := by
      refine ⟨by decide, by decide, fun items hi => ?_⟩
      rw [eq_of_section_sharedDrs hi]
      decide
    refine ⟨fields, hparse, hc, fun hbuilt => ?_⟩
    have hfit := (rebuilt_iff hd hs (by decide) hparse hc).mp hbuilt _
      (List.mem_cons_of_mem _ (List.mem_cons_self ..)) "source" (by decide) "a b"
      (by decide)
    exact absurd hfit (by decide)

end ForcingData.Drs
