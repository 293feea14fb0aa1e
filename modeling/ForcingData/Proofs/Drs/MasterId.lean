import ForcingData.Proofs.Drs.Characters

/-! # Names of datasets

The name of a dataset is made of the directories that do not depend on the version
(`datasetSegments`), wherever the others stand between them. It can be told if all their keys have
values, it is the same for all versions, and where every directory shows one value at most and no
dots are about, it tells datasets with different values apart (`masterId_identifies`). -/

namespace ForcingData.Drs

variable {part : Part} {d : Drs} {f g fields : Attributes}

/-- The directories that do not depend on the version. -/
def datasetSegments (d : Drs) : List Template :=
  d.directory.filter fun t => !t.usesKey versionKey

/-- The keys that a dataset is named by. -/
def datasetKeys (d : Drs) : List String := d.datasetSegments.flatMap Template.keys

theorem version_notMem_datasetKeys (d : Drs) : versionKey ∉ d.datasetKeys := by
  intro h
  obtain ⟨t, ht, hkey⟩ := List.mem_flatMap.mp h
  have huses := (List.mem_filter.mp ht).2
  simp [Template.usesKey, hkey] at huses

/-! ### Names that are filled in -/

/-- What the item stands for in the name of a directory. -/
def Item.filled (fields : Attributes) : Item → List Char
  | .literal text => text
  | .key name => ((fieldValue? fields name).getD "").toList

theorem Item.eq_filled_of_render {i : Item} {cs : List Char}
    (h : i.render .directory fields = .ok cs) : cs = i.filled fields := by
  cases i with
  | literal text => exact (Except.ok.inj h).symm
  | key name =>
    rw [Item.render] at h
    rw [Item.filled]
    cases hvalue : fieldValue? fields name with
    | none =>
      rw [hvalue] at h
      cases h
    | some value =>
      rw [hvalue] at h
      exact (Except.ok.inj h).symm

theorem eq_filled_of_renderPieces : ∀ {pieces : List Piece} {cs : List Char},
    (∀ p ∈ pieces, p.isOptional = false) → renderPieces .directory fields pieces = .ok cs →
      cs = (keptItems pieces).flatMap (Item.filled fields)
  | [], _, _, h => (Except.ok.inj h).symm
  | p :: pieces, _, ho, h => by
    have ⟨hp, hrest⟩ := List.forall_mem_cons.mp ho
    obtain ⟨cs, hcs, h⟩ := Except.bind_eq_ok.mp h
    obtain ⟨others, hothers, h⟩ := Except.bind_eq_ok.mp h
    rw [← Except.pure_eq_ok.mp h, eq_filled_of_renderPieces hrest hothers]
    cases p with
    | item i => rw [i.eq_filled_of_render hcs]; rfl
    | optional items => cases hp

theorem Template.toList_of_render {t : Template} {s : String}
    (ho : ∀ p ∈ t.pieces, p.isOptional = false) (h : t.render .directory fields = .ok s) :
    s.toList = (keptItems t.pieces).flatMap (Item.filled fields) := by
  obtain ⟨cs, hcs, h⟩ := Except.bind_eq_ok.mp h
  rw [← Except.pure_eq_ok.mp h, String.toList_ofList]
  exact eq_filled_of_renderPieces ho hcs

/-- A name that shows one value at most tells this value. -/
theorem eq_of_filled_eq : ∀ {items : List Item}, (items.filterMap Item.key?).length ≤ 1 →
    items.flatMap (Item.filled f) = items.flatMap (Item.filled g) →
    ∀ key ∈ items.filterMap Item.key?,
      (fieldValue? f key).getD "" = (fieldValue? g key).getD ""
  | [], _, _, _, h => absurd h List.not_mem_nil
  | .literal text :: items, hone, heq, key, hkey => by
    rw [List.filterMap_cons_none (Item.key?_literal text)] at hone hkey
    exact eq_of_filled_eq hone (List.append_cancel_left heq) key hkey
  | .key name :: items, hone, heq, key, hkey => by
    rw [List.filterMap_cons_some (Item.key?_key name)] at hone hkey
    rw [List.length_cons] at hone
    have hrest : items.filterMap Item.key? = [] := List.eq_nil_of_length_eq_zero (by omega)
    rw [hrest, List.mem_singleton] at hkey
    -- what follows the value is plain text, the same in both names
    have hplain : items.flatMap (Item.filled f) = items.flatMap (Item.filled g) := by
      refine List.flatMap_congr fun i hi => ?_
      cases i with
      | literal text => rfl
      | key other =>
        have hother := List.filterMap_eq_nil_iff.mp hrest _ hi
        cases hother
    rw [List.flatMap_cons, List.flatMap_cons, hplain] at heq
    rw [hkey]
    exact String.toList_inj.mp (List.append_cancel_right heq)

theorem notMem_filled {t : Template} {c : Char} (hliterals : c ∉ t.literals)
    (hvalues : ∀ key ∈ t.keys, c ∉ ((fieldValue? fields key).getD "").toList) :
    c ∉ (keptItems t.pieces).flatMap (Item.filled fields) := by
  intro hc
  obtain ⟨i, hi, hci⟩ := List.mem_flatMap.mp hc
  cases i with
  | literal text => exact hliterals (List.mem_flatMap.mpr ⟨_, hi, hci⟩)
  | key name => exact hvalues name (List.mem_filterMap.mpr ⟨_, hi, rfl⟩) hci

/-! ### The same values -/

section
variable {t : Template}

theorem fieldValue?_congr {key : String} (h : f.get? key = g.get? key) :
    fieldValue? f key = fieldValue? g key := by
  rw [fieldValue?, fieldValue?, h]

theorem Item.render_congr {i : Item}
    (h : ∀ key, i.key? = some key → fieldValue? f key = fieldValue? g key) :
    i.render part f = i.render part g := by
  cases i with
  | literal text => rfl
  | key name => rw [Item.render, Item.render, h name rfl]

theorem renderSection_congr : ∀ {items : List Item},
    (∀ key ∈ items.filterMap Item.key?, fieldValue? f key = fieldValue? g key) →
      renderSection part f items = renderSection part g items
  | [], _ => rfl
  | .literal text :: items, h => by
    have hrest : ∀ key ∈ items.filterMap Item.key?, fieldValue? f key = fieldValue? g key := h
    rw [renderSection, renderSection, renderSection_congr hrest]
  | .key name :: items, h => by
    obtain ⟨hname, hrest⟩ := List.forall_mem_cons.mp h
    rw [renderSection, renderSection, hname, renderSection_congr hrest]

theorem renderPieces_congr : ∀ {pieces : List Piece},
    (∀ key ∈ (keptItems pieces).filterMap Item.key?, fieldValue? f key = fieldValue? g key) →
      renderPieces part f pieces = renderPieces part g pieces
  | [], _ => rfl
  | p :: pieces, h => by
    have hkeys : (keptItems (p :: pieces)).filterMap Item.key? =
        p.items.filterMap Item.key? ++ (keptItems pieces).filterMap Item.key? :=
      List.filterMap_append
    rw [hkeys, List.forall_mem_append] at h
    have hfirst : p.render part f = p.render part g := by
      cases p with
      | item i =>
        exact Item.render_congr fun key hkey =>
          h.1 key (List.mem_filterMap.mpr ⟨i, List.mem_singleton_self i, hkey⟩)
      | optional items =>
        have hsection : renderSection part f items = renderSection part g items :=
          renderSection_congr h.1
        rw [Piece.render, Piece.render, hsection]
    rw [renderPieces, renderPieces, hfirst, renderPieces_congr h.2]

theorem Template.render_congr (h : ∀ key ∈ t.keys, fieldValue? f key = fieldValue? g key) :
    t.render part f = t.render part g := by
  rw [Template.render, Template.render, renderPieces_congr h]

end

/-! ### Names of datasets -/

theorem mapM_congr {α β ε : Type} {x y : α → Except ε β} : ∀ {l : List α},
    (∀ a ∈ l, x a = y a) → l.mapM x = l.mapM y
  | [], _ => rfl
  | a :: l, h => by
    obtain ⟨ha, hl⟩ := List.forall_mem_cons.mp h
    rw [List.mapM_cons, List.mapM_cons, ha, mapM_congr hl]

theorem masterId_eq_ok {id : String} : d.masterId fields = .ok id ↔ ∃ names,
    List.Forall₂ (fun t s => Template.render .directory fields t = .ok s) d.datasetSegments names ∧
      id = ".".intercalate names := by
  rw [masterId, Except.bind_eq_ok]
  refine exists_congr fun names => and_congr Except.mapM_eq_ok ?_
  rw [Except.pure_eq_ok, eq_comm]

theorem masterId_isOk (ho : ∀ t ∈ d.directory, ∀ p ∈ t.pieces, p.isOptional = false) :
    (∃ id, d.masterId fields = .ok id) ↔
      ∀ key ∈ d.datasetKeys, (fieldValue? fields key).isSome = true := by
  constructor
  · rintro ⟨id, hid⟩ key hkey
    obtain ⟨names, hnames, -⟩ := masterId_eq_ok.mp hid
    obtain ⟨t, ht, hkey⟩ := List.mem_flatMap.mp hkey
    obtain ⟨i, hi, rfl⟩ := List.mem_iff_getElem.mp ht
    have hname := hnames.get hi (hnames.length_eq ▸ hi)
    exact (Template.render_directory_isOk (ho _ (List.mem_filter.mp ht).1)).mp ⟨_, hname⟩ key hkey
  · intro h
    have hall : ∀ t ∈ d.datasetSegments, ∃ s, t.render .directory fields = .ok s := fun t ht =>
      (Template.render_directory_isOk (ho t (List.mem_filter.mp ht).1)).mpr fun key hkey =>
        h key (List.mem_flatMap.mpr ⟨t, ht, hkey⟩)
    obtain ⟨names, hnames⟩ := Except.exists_mapM_eq_ok hall
    exact ⟨_, masterId_eq_ok.mpr ⟨names, Except.mapM_eq_ok.mp hnames, rfl⟩⟩

theorem masterId_congr (h : ∀ key ∈ d.datasetKeys, fieldValue? f key = fieldValue? g key) :
    d.masterId f = d.masterId g := by
  have hsame : d.datasetSegments.mapM (Template.render .directory f) =
      d.datasetSegments.mapM (Template.render .directory g) := by
    refine mapM_congr fun t ht => Template.render_congr fun key hkey => ?_
    exact h key (List.mem_flatMap.mpr ⟨t, ht, hkey⟩)
  rw [masterId, masterId, ← datasetSegments, hsame]

theorem intercalate_dot_inj {names names' : List String} (hlength : names.length = names'.length)
    (h : ∀ s ∈ names, '.' ∉ s.toList) (h' : ∀ s ∈ names', '.' ∉ s.toList)
    (heq : ".".intercalate names = ".".intercalate names') : names = names' := by
  have hsplit : ∀ l : List String, l ≠ [] → (∀ s ∈ l, '.' ∉ s.toList) →
      (".".intercalate l).toList.splitOn '.' = l.map String.toList := by
    intro l hl hdots
    rw [String.toList_intercalate]
    exact List.splitOn_intercalate '.' (List.forall_mem_map.mpr hdots) (by simpa using hl)
  by_cases hnil : names = []
  · subst hnil
    exact (List.eq_nil_of_length_eq_zero hlength.symm).symm
  · have hnil' : names' ≠ [] := by
      rintro rfl
      exact hnil (List.eq_nil_of_length_eq_zero hlength)
    have hmap := hsplit names hnil h
    rw [heq, hsplit names' hnil' h'] at hmap
    exact List.map_injective_iff.mpr (fun _ _ => String.toList_inj.mp) hmap.symm

/-- No value that a dataset is named by has a dot. -/
def DotFree (d : Drs) (fields : Attributes) : Prop :=
  ∀ key ∈ d.datasetKeys, ∀ value ∈ fields.get? key, '.' ∉ value.toList

instance (d : Drs) (fields : Attributes) : Decidable (d.DotFree fields) :=
  inferInstanceAs (Decidable (∀ key ∈ d.datasetKeys, ∀ value ∈ fields.get? key, '.' ∉ value.toList))

/-- Every directory shows one value at most, and there are no dots between values. -/
def IsPlain (d : Drs) : Prop :=
  ∀ t ∈ d.datasetSegments, t.keys.length ≤ 1 ∧ '.' ∉ t.literals

instance (d : Drs) : Decidable d.IsPlain :=
  inferInstanceAs (Decidable (∀ t ∈ d.datasetSegments, t.keys.length ≤ 1 ∧ '.' ∉ t.literals))

theorem DotFree.notMem (h : d.DotFree fields) {key : String} (hkey : key ∈ d.datasetKeys) :
    '.' ∉ ((fieldValue? fields key).getD "").toList := by
  cases hvalue : fieldValue? fields key with
  | none => exact List.not_mem_nil
  | some value => exact h key hkey value (fieldValue?_eq_some.mp hvalue).1

theorem DotFree.notMem_name (h : d.DotFree fields) (hp : d.IsPlain)
    (ho : ∀ t ∈ d.directory, ∀ p ∈ t.pieces, p.isOptional = false) {t : Template}
    (ht : t ∈ d.datasetSegments) {name : String} (hname : t.render .directory fields = .ok name) :
    '.' ∉ name.toList := by
  rw [Template.toList_of_render (ho t (List.mem_filter.mp ht).1) hname]
  exact notMem_filled (hp t ht).2 fun key hkey =>
    h.notMem (List.mem_flatMap.mpr ⟨t, ht, hkey⟩)

/-- Datasets with the same name have the same values. -/
theorem eq_of_masterId_eq (ho : ∀ t ∈ d.directory, ∀ p ∈ t.pieces, p.isOptional = false)
    (hp : d.IsPlain) (hf : d.DotFree f) (hg : d.DotFree g) {id : String}
    (hid : d.masterId f = .ok id) (hid' : d.masterId g = .ok id) :
    ∀ key ∈ d.datasetKeys, (fieldValue? f key).getD "" = (fieldValue? g key).getD "" := by
  obtain ⟨names, hnames, hjoin⟩ := masterId_eq_ok.mp hid
  obtain ⟨names', hnames', hjoin'⟩ := masterId_eq_ok.mp hid'
  have hdots {fields : Attributes} {names : List String} (hfields : d.DotFree fields)
      (hnames : List.Forall₂ (fun t s => Template.render .directory fields t = .ok s)
        d.datasetSegments names) : ∀ s ∈ names, '.' ∉ s.toList := by
    intro s hs
    obtain ⟨i, hi, rfl⟩ := List.mem_iff_getElem.mp hs
    have hi' : i < d.datasetSegments.length := hnames.length_eq ▸ hi
    exact hfields.notMem_name hp ho (List.getElem_mem hi') (hnames.get hi' hi)
  have hsame : names = names' :=
    intercalate_dot_inj (hnames.length_eq.symm.trans hnames'.length_eq) (hdots hf hnames)
      (hdots hg hnames') (hjoin.symm.trans hjoin')
  subst hsame
  intro key hkey
  obtain ⟨t, ht, hkey⟩ := List.mem_flatMap.mp hkey
  obtain ⟨i, hi, rfl⟩ := List.mem_iff_getElem.mp ht
  have hi' : i < names.length := hnames.length_eq ▸ hi
  have hsections := ho _ (List.mem_filter.mp ht).1
  have hname := Template.toList_of_render hsections (hnames.get hi hi')
  have hname' := Template.toList_of_render hsections (hnames'.get hi hi')
  exact eq_of_filled_eq (hp _ ht).1 (hname.symm.trans hname') key hkey

/-- There is a name for a dataset if and only if all its keys have values; it is the same for all
versions, and tells datasets with different values apart. -/
theorem masterId_identifies {directory fileName : String}
    (hd : ofTemplates? directory fileName = .ok d) :
    (∀ f, (∃ id, d.masterId f = .ok id) ↔
      ∀ key ∈ d.datasetKeys, ∃ value, f.get? key = some value ∧ value ≠ "") ∧
    (∀ f g, (∀ key, key ≠ versionKey → f.get? key = g.get? key) →
      d.masterId f = d.masterId g) ∧
    (d.IsPlain → ∀ f g, d.DotFree f → d.DotFree g → (∃ id, d.masterId f = .ok id) →
      (∃ id, d.masterId g = .ok id) →
      (d.masterId f = d.masterId g ↔ ∀ key ∈ d.datasetKeys, f.get? key = g.get? key)) := by
  obtain ⟨-, ho, -⟩ := ofTemplates?_eq_ok hd
  have hvalues (fields : Attributes) : (∃ id, d.masterId fields = .ok id) ↔
      ∀ key ∈ d.datasetKeys, ∃ value, fields.get? key = some value ∧ value ≠ "" := by
    rw [masterId_isOk ho]
    refine forall₂_congr fun key _ => ?_
    rw [Option.isSome_iff_exists]
    exact exists_congr fun value => fieldValue?_eq_some
  refine ⟨hvalues, fun f g h => ?_, fun hp f g hf hg hidf hidg => ⟨fun heq => ?_, fun h => ?_⟩⟩
  · refine masterId_congr fun key hkey => fieldValue?_congr (h key ?_)
    rintro rfl
    exact d.version_notMem_datasetKeys hkey
  · obtain ⟨id, hid⟩ := hidf
    -- the same name shows the same values, as none of them has a dot in it
    have hall := eq_of_masterId_eq ho hp hf hg hid (heq ▸ hid)
    intro key hkey
    obtain ⟨value, hvalue⟩ := (hvalues f).mp ⟨id, hid⟩ key hkey
    obtain ⟨value', hvalue'⟩ := (hvalues g).mp hidg key hkey
    have hsame := hall key hkey
    rw [fieldValue?_eq_some.mpr hvalue, fieldValue?_eq_some.mpr hvalue'] at hsame
    rw [hvalue.1, hvalue'.1]
    exact congrArg some hsame
  · exact masterId_congr fun key hkey => fieldValue?_congr (h key hkey)

/-- Templates with the version between the source and the name of a variable. -/
def betweenDrs : Drs :=
  ⟨[⟨"<source>", [.item (.key "source")]⟩,
    ⟨"v<version>", [.item (.literal ['v']), .item (.key "version")]⟩,
    ⟨"in_<name>", [.item (.literal ['i', 'n', '_']), .item (.key "name")]⟩],
    ⟨"<name>.nc", [.item (.key "name"), .item (.literal ['.', 'n', 'c'])]⟩⟩

theorem masterId_identifies_sample :
    let unversioned : Attributes := Dict.ofList [("name", "tas"), ("source", "a/b")]
    let versioned := unversioned.insert versionKey "1.0"
    let other := versioned.insert "name" "pr"
    betweenDrs.masterId versioned = .ok "a/b.in_tas" ∧
      betweenDrs.masterId versioned = betweenDrs.masterId unversioned ∧
      betweenDrs.masterId versioned ≠ betweenDrs.masterId other := by
  intro unversioned versioned other
  have hd : ofTemplates? "<source>/v<version>/in_<name>/" "<name>.nc" = .ok betweenDrs := by rfl
  obtain ⟨hok, hversion, htell⟩ := masterId_identifies hd
  have hid : betweenDrs.masterId versioned = .ok "a/b.in_tas" := by decide
  have hother : ∃ id, betweenDrs.masterId other = .ok id := (hok other).mpr (by decide)
  refine ⟨hid, hversion _ _ fun key hkey => ?_, fun heq => ?_⟩
  · rw [Dict.get?_insert, if_neg hkey]
  · have hsame := (htell (by decide) versioned other (by decide) (by decide) ⟨_, hid⟩ hother).mp heq
    exact absurd (hsame "name" (by decide)) (by decide)

end ForcingData.Drs
