import ForcingData.Proofs.Drs.Rebuilding
import Mathlib.Data.Multiset.Defs

/-! # When a path can be built

A path that is built shows exactly the sections all of whose keys have values
(`readsItems_of_renderPieces`, `renderSection_eq_none_iff`). It can be built if the values it
shows are there and fit (`Fillable`) and if, besides, the values that are met in a section before it
turns out to be left out can stand in a file name (`LeftOutFit`). The first condition knows no order
of the placeholders (`Rearranged.fillable`), the second one does, inside of sections
(`buildable_iff`). -/

namespace ForcingData.Drs

variable {part : Part} {fields : Attributes}

/-! ### What stands in the name -/

/-- What the item stands for in a file name. -/
def Item.shown (fields : Attributes) : Item → List Char
  | .literal text => text
  | .key name => Part.fileName.shown ((fieldValue? fields name).getD "")

theorem ReadsItems.eq_shown : ∀ {is : List Item} {cs : List Char},
    ReadsItems .fileName is cs (captured .fileName fields is) → cs = is.flatMap (Item.shown fields)
  | [], _, .nil => rfl
  | .literal text :: is, _, .literal _ h => by
    rw [h.eq_shown, List.flatMap_cons, Item.shown]
  | .key name :: is, cs, h => by
    have hcaptured : captured .fileName fields (.key name :: is) =
        ⟨.fileName, name, (Item.key name).shown fields⟩ :: captured .fileName fields is := rfl
    rw [hcaptured] at h
    cases h with
    | key _ _ _ h => rw [h.eq_shown, List.flatMap_cons]

theorem readsItems_fileName {d : Drs} {spec : PathSpec} (h : d.buildPath fields = .ok spec) :
    ReadsItems .fileName (rendered fields d.fileName.pieces) spec.fileName.toList
      (captured .fileName fields (rendered fields d.fileName.pieces)) := by
  obtain ⟨_, _, hname, _⟩ := buildPath_eq_ok h
  obtain ⟨cs, hcs, hname⟩ := Except.bind_eq_ok.mp hname
  rw [← Except.pure_eq_ok.mp hname, String.toList_ofList]
  exact readsItems_of_renderPieces hcs nofun

/-! ### Sections -/

theorem all_hasValue_iff {items : List Item} : items.all (Item.hasValue fields) = true ↔
    ∀ key ∈ items.filterMap Item.key?, (fieldValue? fields key).isSome = true := by
  constructor
  · intro h key hkey
    obtain ⟨i, hi, hik⟩ := List.mem_filterMap.mp hkey
    have hvalue := List.all_eq_true.mp h i hi
    rwa [Item.hasValue, hik] at hvalue
  · refine fun h => List.all_eq_true.mpr fun i hi => ?_
    cases i with
    | literal text => rfl
    | key name => exact h name (List.mem_filterMap.mpr ⟨_, hi, rfl⟩)

theorem all_hasValue_eq_false_iff {items : List Item} :
    items.all (Item.hasValue fields) = false ↔
      ∃ key ∈ items.filterMap Item.key?, fieldValue? fields key = none := by
  rw [← Bool.not_eq_true, all_hasValue_iff, not_forall]
  simp only [Classical.not_imp, Option.not_isSome_iff_eq_none]

/-- A section that does not fail is left out if and only if one of its keys has no value. -/
theorem renderSection_eq_none_iff {items : List Item}
    (h : ∃ cs?, renderSection part fields items = .ok cs?) (hf : Fits part fields items) :
    renderSection part fields items = .ok none ↔
      ∃ key ∈ items.filterMap Item.key?, fieldValue? fields key = none := by
  obtain ⟨cs?, hcs⟩ := h
  have hr := reads_of_renderSection hcs hf
  rw [← all_hasValue_eq_false_iff, hcs]
  cases cs? with
  | none => exact iff_of_true rfl hr
  | some cs => exact iff_of_false nofun (by simp [hr.1])

/-- The values of the keys, as far as there are any, can stand in a file name. -/
def ValuesFit (fields : Attributes) (keys : List String) : Prop :=
  ∀ key ∈ keys, ∀ value ∈ fieldValue? fields key, FitsName value

instance (fields : Attributes) (keys : List String) : Decidable (ValuesFit fields keys) :=
  inferInstanceAs (Decidable (∀ key ∈ keys, ∀ value ∈ fieldValue? fields key, FitsName value))

/-- The keys up to the first one without a value. -/
def metKeys (fields : Attributes) (keys : List String) : List String :=
  keys.takeWhile fun key => (fieldValue? fields key).isSome

theorem visitedKeys_eq_metKeys (fields : Attributes) : ∀ items : List Item,
    visitedKeys fields items = metKeys fields (items.filterMap Item.key?)
  | [] => rfl
  | .literal text :: items => visitedKeys_eq_metKeys fields items
  | .key name :: items => by
    have ih := visitedKeys_eq_metKeys fields items
    rw [List.filterMap_cons_some (Item.key?_key name), metKeys, List.takeWhile_cons, ← metKeys,
      ← ih]
    cases hvalue : (fieldValue? fields name).isSome with
    | true => simp [visitedKeys, Item.hasValue, hvalue]
    | false => simp [visitedKeys, Item.hasValue, hvalue]

theorem metKeys_eq_self {keys : List String}
    (h : ∀ key ∈ keys, (fieldValue? fields key).isSome = true) : metKeys fields keys = keys :=
  List.takeWhile_eq_self_iff.mpr h

/-! ### What has a result -/

theorem Item.render_isOk (i : Item) : (∃ cs, i.render part fields = .ok cs) ↔
    ∀ key, i.key? = some key → ∃ value, fieldValue? fields key = some value ∧
      (part = .fileName → FitsName value) := by
  cases i with
  | literal text => exact iff_of_true ⟨text, rfl⟩ nofun
  | key name =>
    rw [Item.key?_key]
    simp only [Item.render, Option.some.injEq, forall_eq']
    cases hvalue : fieldValue? fields name with
    | none =>
      refine iff_of_false ?_ (by simp)
      rintro ⟨_, h⟩
      cases h
    | some value =>
      cases part with
      | directory => simp [Part.render]
      | fileName => simpa using Part.render_fileName_isOk name (fieldValue?_eq_some.mp hvalue).2

theorem renderPieces_isOk : ∀ {pieces : List Piece},
    (∃ cs, renderPieces part fields pieces = .ok cs) ↔
      ∀ p ∈ pieces, ∃ cs, p.render part fields = .ok cs
  | [] => iff_of_true ⟨[], rfl⟩ nofun
  | p :: pieces => by
    rw [List.forall_mem_cons, ← renderPieces_isOk, renderPieces]
    constructor
    · rintro ⟨_, h⟩
      obtain ⟨cs, hcs, h⟩ := Except.bind_eq_ok.mp h
      obtain ⟨rest, hrest, -⟩ := Except.bind_eq_ok.mp h
      exact ⟨⟨cs, hcs⟩, rest, hrest⟩
    · rintro ⟨⟨cs, hcs⟩, rest, hrest⟩
      rw [hcs, hrest]
      exact ⟨_, rfl⟩

theorem Template.render_isOk (t : Template) : (∃ s, t.render part fields = .ok s) ↔
    ∀ p ∈ t.pieces, ∃ cs, p.render part fields = .ok cs := by
  rw [← renderPieces_isOk, Template.render]
  constructor
  · rintro ⟨_, h⟩
    obtain ⟨cs, hcs, -⟩ := Except.bind_eq_ok.mp h
    exact ⟨cs, hcs⟩
  · rintro ⟨cs, hcs⟩
    rw [hcs]
    exact ⟨_, rfl⟩

/-- The keys outside of sections. -/
def Template.outsideKeys (t : Template) : List String :=
  (droppedItems t.pieces).filterMap Item.key?

/-- The keys of every section. -/
def Template.sectionKeys (t : Template) : List (List String) :=
  (t.pieces.filter Piece.isOptional).map fun p => p.items.filterMap Item.key?

theorem Template.mem_outsideKeys {t : Template} {key : String} :
    key ∈ t.outsideKeys ↔ .item (.key key) ∈ t.pieces := by
  simp only [outsideKeys, droppedItems, List.mem_filterMap, List.mem_flatMap]
  constructor
  · rintro ⟨i, ⟨p, hp, hi⟩, hik⟩
    cases p with
    | item j =>
      obtain rfl : i = j := List.mem_singleton.mp hi
      cases i with
      | literal text => cases hik
      | key name => exact Option.some.inj hik ▸ hp
    | optional items => cases hi
  · exact fun h => ⟨_, ⟨_, h, List.mem_singleton_self _⟩, rfl⟩

theorem Template.mem_sectionKeys {t : Template} {keys : List String} :
    keys ∈ t.sectionKeys ↔
      ∃ items, .optional items ∈ t.pieces ∧ items.filterMap Item.key? = keys := by
  simp only [sectionKeys, List.mem_map, List.mem_filter]
  constructor
  · rintro ⟨p, ⟨hp, ho⟩, rfl⟩
    cases p with
    | item i => cases ho
    | optional items => exact ⟨items, hp, rfl⟩
  · rintro ⟨items, hitems, rfl⟩
    exact ⟨_, ⟨hitems, rfl⟩, rfl⟩

theorem Template.render_directory_isOk {t : Template}
    (ho : ∀ p ∈ t.pieces, p.isOptional = false) :
    (∃ s, t.render .directory fields = .ok s) ↔
      ∀ key ∈ t.keys, (fieldValue? fields key).isSome = true := by
  rw [render_isOk]
  constructor
  · intro h key hkey
    obtain ⟨i, hi, hik⟩ := List.mem_filterMap.mp hkey
    obtain ⟨p, hp, hi⟩ := List.mem_flatMap.mp hi
    cases p with
    | item j =>
      obtain rfl : i = j := List.mem_singleton.mp hi
      obtain ⟨value, hvalue, -⟩ := i.render_isOk.mp (h _ hp) key hik
      exact Option.isSome_of_mem hvalue
    | optional items => cases ho _ hp
  · intro h p hp
    cases p with
    | item i =>
      refine i.render_isOk.mpr fun key hik => ?_
      obtain ⟨value, hvalue⟩ := Option.isSome_iff_exists.mp (h key (List.mem_filterMap.mpr
        ⟨i, List.mem_flatMap.mpr ⟨_, hp, List.mem_singleton_self i⟩, hik⟩))
      exact ⟨value, hvalue, nofun⟩
    | optional items => cases ho _ hp

theorem Piece.render_optional_isOk {items : List Item} :
    (∃ cs, (Piece.optional items).render .fileName fields = .ok cs) ↔
      ValuesFit fields (metKeys fields (items.filterMap Item.key?)) := by
  simp only [ValuesFit, Option.mem_def]
  rw [← visitedKeys_eq_metKeys, ← renderSection_isOk, Piece.render]
  constructor
  · rintro ⟨_, h⟩
    obtain ⟨cs?, hcs, -⟩ := Except.bind_eq_ok.mp h
    exact ⟨cs?, hcs⟩
  · rintro ⟨cs?, hcs⟩
    rw [hcs]
    exact ⟨_, rfl⟩

theorem Template.render_fileName_isOk {t : Template} :
    (∃ s, t.render .fileName fields = .ok s) ↔
      (∀ key ∈ t.outsideKeys, ∃ value ∈ fieldValue? fields key, FitsName value) ∧
        ∀ keys ∈ t.sectionKeys, ValuesFit fields (metKeys fields keys) := by
  rw [render_isOk]
  constructor
  · refine fun h => ⟨fun key hkey => ?_, fun keys hkeys => ?_⟩
    · have hitem : ∃ cs, (Item.key key).render .fileName fields = .ok cs :=
        h _ (mem_outsideKeys.mp hkey)
      obtain ⟨value, hvalue, hfits⟩ := (Item.render_isOk _).mp hitem key rfl
      exact ⟨value, hvalue, hfits rfl⟩
    · obtain ⟨items, hitems, rfl⟩ := mem_sectionKeys.mp hkeys
      exact Piece.render_optional_isOk.mp (h _ hitems)
  · rintro ⟨houtside, hsections⟩ p hp
    cases p with
    | item i =>
      refine i.render_isOk.mpr fun key hik => ?_
      cases i with
      | literal text => cases hik
      | key name =>
        obtain ⟨value, hvalue, hfits⟩ := houtside name (mem_outsideKeys.mpr hp)
        obtain rfl := Option.some.inj hik
        exact ⟨value, hvalue, fun _ => hfits⟩
    | optional items =>
      exact Piece.render_optional_isOk.mpr (hsections _ (mem_sectionKeys.mpr ⟨items, hp, rfl⟩))

/-! ### Paths -/

/-- There is a path for the values. -/
def Buildable (d : Drs) (fields : Attributes) : Prop := ∃ spec, d.buildPath fields = .ok spec

/-- All values that the path shows are there, and those that the name shows can stand in it. -/
structure Fillable (d : Drs) (fields : Attributes) : Prop where
  directory : ∀ key ∈ d.directoryKeys, (fieldValue? fields key).isSome = true
  fileName : ∀ key ∈ d.renderedKeys fields, ∃ value ∈ fieldValue? fields key, FitsName value

/-- The keys of the sections that are left out. -/
def leftOutKeys (d : Drs) (fields : Attributes) : List (List String) :=
  d.fileName.sectionKeys.filter fun keys => keys.any fun key => (fieldValue? fields key).isNone

/-- Values that are met before a section turns out to be left out can stand in a file name. -/
def LeftOutFit (d : Drs) (fields : Attributes) : Prop :=
  ∀ keys ∈ d.leftOutKeys fields, ValuesFit fields (metKeys fields keys)

instance (d : Drs) (fields : Attributes) : Decidable (d.LeftOutFit fields) :=
  inferInstanceAs
    (Decidable (∀ keys ∈ d.leftOutKeys fields, ValuesFit fields (metKeys fields keys)))

/-- All values in sections that are left out can stand in a file name. -/
def HiddenFit (d : Drs) (fields : Attributes) : Prop :=
  ∀ keys ∈ d.leftOutKeys fields, ValuesFit fields keys

instance (d : Drs) (fields : Attributes) : Decidable (d.HiddenFit fields) :=
  inferInstanceAs (Decidable (∀ keys ∈ d.leftOutKeys fields, ValuesFit fields keys))

theorem HiddenFit.leftOutFit {d : Drs} (h : d.HiddenFit fields) : d.LeftOutFit fields :=
  fun keys hkeys key hkey => h keys hkeys key ((List.takeWhile_prefix _).subset hkey)

theorem mem_leftOutKeys {d : Drs} {keys : List String} : keys ∈ d.leftOutKeys fields ↔
    keys ∈ d.fileName.sectionKeys ∧ ∃ key ∈ keys, fieldValue? fields key = none := by
  simp [leftOutKeys]

theorem mem_renderedKeys {d : Drs} {key : String} : key ∈ d.renderedKeys fields ↔
    key ∈ d.fileName.outsideKeys ∨ ∃ keys ∈ d.fileName.sectionKeys,
      (∀ key ∈ keys, (fieldValue? fields key).isSome = true) ∧ key ∈ keys := by
  simp only [renderedKeys, rendered, List.mem_filterMap, List.mem_flatMap]
  constructor
  · rintro ⟨i, ⟨p, hp, hi⟩, hik⟩
    cases p with
    | item j =>
      obtain rfl : i = j := List.mem_singleton.mp hi
      cases i with
      | literal text => cases hik
      | key name => exact .inl (Template.mem_outsideKeys.mpr (Option.some.inj hik ▸ hp))
    | optional items =>
      right
      cases hall : items.all (Item.hasValue fields) with
      | false => simp [Piece.isOptional, Piece.items, hall] at hi
      | true =>
        have hi : i ∈ items := by simpa [Piece.isOptional, Piece.items, hall] using hi
        exact ⟨_, Template.mem_sectionKeys.mpr ⟨items, hp, rfl⟩, all_hasValue_iff.mp hall,
          List.mem_filterMap.mpr ⟨i, hi, hik⟩⟩
  · rintro (h | ⟨keys, hkeys, hvalues, hkey⟩)
    · exact ⟨_, ⟨_, Template.mem_outsideKeys.mp h, List.mem_singleton_self _⟩, rfl⟩
    · obtain ⟨items, hitems, rfl⟩ := Template.mem_sectionKeys.mp hkeys
      obtain ⟨i, hi, hik⟩ := List.mem_filterMap.mp hkey
      refine ⟨i, ⟨_, hitems, ?_⟩, hik⟩
      simpa [Piece.isOptional, Piece.items, all_hasValue_iff.mpr hvalues] using hi

theorem buildable_iff_render {d : Drs} : d.Buildable fields ↔
    (∀ t ∈ d.directory, ∃ s, t.render .directory fields = .ok s) ∧
      ∃ s, d.fileName.render .fileName fields = .ok s := by
  constructor
  · rintro ⟨spec, h⟩
    obtain ⟨names, hnames, hname, -⟩ := buildPath_eq_ok h
    refine ⟨fun t ht => ?_, _, hname⟩
    obtain ⟨i, hi, rfl⟩ := List.mem_iff_getElem.mp ht
    exact ⟨_, hnames.get hi (hnames.length_eq ▸ hi)⟩
  · rintro ⟨hdirectory, name, hname⟩
    obtain ⟨names, hnames⟩ := Except.exists_mapM_eq_ok hdirectory
    exact ⟨_, buildPath_of_render (Except.mapM_eq_ok.mp hnames) hname⟩

theorem buildable_iff_fillable {directory fileName : String} {d : Drs}
    (hd : ofTemplates? directory fileName = .ok d) :
    d.Buildable fields ↔ d.Fillable fields ∧ d.LeftOutFit fields := by
  obtain ⟨-, ho, -⟩ := ofTemplates?_eq_ok hd
  rw [buildable_iff_render, Template.render_fileName_isOk]
  constructor
  · rintro ⟨hdirectory, houtside, hsections⟩
    refine ⟨⟨fun key hkey => ?_, fun key hkey => ?_⟩, fun keys hkeys =>
      hsections keys (mem_leftOutKeys.mp hkeys).1⟩
    · obtain ⟨t, ht, hkey⟩ := List.mem_flatMap.mp hkey
      exact (Template.render_directory_isOk (ho t ht)).mp (hdirectory t ht) key hkey
    · rcases mem_renderedKeys.mp hkey with hkey | ⟨keys, hkeys, hvalues, hkey⟩
      · exact houtside key hkey
      · obtain ⟨value, hvalue⟩ := Option.isSome_iff_exists.mp (hvalues key hkey)
        have hfit := hsections keys hkeys
        rw [metKeys_eq_self hvalues] at hfit
        exact ⟨value, hvalue, hfit key hkey value hvalue⟩
  · rintro ⟨hfillable, hleftOut⟩
    refine ⟨fun t ht => (Template.render_directory_isOk (ho t ht)).mpr fun key hkey =>
      hfillable.directory key (List.mem_flatMap.mpr ⟨t, ht, hkey⟩),
      fun key hkey => hfillable.fileName key (mem_renderedKeys.mpr (.inl hkey)),
      fun keys hkeys => ?_⟩
    -- a section is shown as a whole, or is left out and read up to the first key without a value
    by_cases hvalues : ∀ key ∈ keys, (fieldValue? fields key).isSome = true
    · intro key hkey value hvalue
      rw [metKeys_eq_self hvalues] at hkey
      obtain ⟨value', hvalue', hfits⟩ :=
        hfillable.fileName key (mem_renderedKeys.mpr (.inr ⟨keys, hkeys, hvalues, hkey⟩))
      exact Option.some.inj (hvalue'.symm.trans hvalue) ▸ hfits
    · refine hleftOut keys (mem_leftOutKeys.mpr ⟨hkeys, ?_⟩)
      simpa using hvalues

/-! ### Placeholders in another order -/

/-- The same placeholders in another order, in the directories, in the name outside of sections, and
in sections. -/
structure Rearranged (d d' : Drs) : Prop where
  directory : d.directoryKeys.Perm d'.directoryKeys
  outside : d.fileName.outsideKeys.Perm d'.fileName.outsideKeys
  sections : (d.fileName.sectionKeys.map Multiset.ofList).Perm
    (d'.fileName.sectionKeys.map Multiset.ofList)

namespace Rearranged
variable {d d' : Drs}

theorem symm (h : Rearranged d d') : Rearranged d' d :=
  ⟨h.directory.symm, h.outside.symm, h.sections.symm⟩

theorem exists_section (h : Rearranged d d') {keys : List String}
    (hkeys : keys ∈ d.fileName.sectionKeys) :
    ∃ keys' ∈ d'.fileName.sectionKeys, keys'.Perm keys := by
  obtain ⟨keys', hkeys', heq⟩ :=
    List.mem_map.mp (h.sections.mem_iff.mp (List.mem_map_of_mem hkeys))
  exact ⟨keys', hkeys', Multiset.coe_eq_coe.mp heq⟩

theorem mem_renderedKeys (h : Rearranged d d') {key : String} (hkey : key ∈ d.renderedKeys fields) :
    key ∈ d'.renderedKeys fields := by
  rw [Drs.mem_renderedKeys] at hkey ⊢
  rcases hkey with hkey | ⟨keys, hkeys, hvalues, hkey⟩
  · exact .inl (h.outside.mem_iff.mp hkey)
  · obtain ⟨keys', hkeys', hperm⟩ := h.exists_section hkeys
    exact .inr ⟨keys', hkeys', fun k hk => hvalues k (hperm.mem_iff.mp hk), hperm.mem_iff.mpr hkey⟩

theorem fillable (h : Rearranged d d') (hf : d.Fillable fields) : d'.Fillable fields :=
  ⟨fun key hkey => hf.directory key (h.directory.mem_iff.mpr hkey),
    fun key hkey => hf.fileName key (h.symm.mem_renderedKeys hkey)⟩

theorem hiddenFit (h : Rearranged d d') (hf : d.HiddenFit fields) : d'.HiddenFit fields := by
  intro keys hkeys
  obtain ⟨hkeys, key, hkey, hnone⟩ := mem_leftOutKeys.mp hkeys
  obtain ⟨keys', hkeys', hperm⟩ := h.symm.exists_section hkeys
  have hfit := hf keys' (mem_leftOutKeys.mpr ⟨hkeys', key, hperm.mem_iff.mpr hkey, hnone⟩)
  exact fun k hk => hfit k (hperm.mem_iff.mpr hk)

end Rearranged

/-- A path can be built if and only if the values that it shows are there and fit, and no value that
is met in a section before the first one without a value is unfit. What is built shows the sections
all of whose keys have values. The order of the placeholders matters only in a section that is left
out, and only if one of its values is unfit. -/
theorem buildable_iff {directory fileName : String} {d : Drs}
    (hd : ofTemplates? directory fileName = .ok d) (fields : Attributes) :
    (d.Buildable fields ↔ d.Fillable fields ∧ d.LeftOutFit fields) ∧
    (∀ spec, d.buildPath fields = .ok spec →
      spec.fileName.toList = (rendered fields d.fileName.pieces).flatMap (Item.shown fields) ∧
      ∀ items, .optional items ∈ d.fileName.pieces →
        (renderSection .fileName fields items = .ok none ↔
          ∃ key ∈ items.filterMap Item.key?, fieldValue? fields key = none)) ∧
    ∀ directory' fileName' d', ofTemplates? directory' fileName' = .ok d' → Rearranged d d' →
      (d.Fillable fields ↔ d'.Fillable fields) ∧
      (d.fileName.sectionKeys.Perm d'.fileName.sectionKeys ∨ d.HiddenFit fields →
        (d.Buildable fields ↔ d'.Buildable fields)) := by
  refine ⟨buildable_iff_fillable hd, fun spec hspec => ⟨?_, fun items hitems => ?_⟩,
    fun directory' fileName' d' hd' h => ⟨⟨h.fillable, h.symm.fillable⟩, fun hsections => ?_⟩⟩
  · exact (readsItems_fileName hspec).eq_shown
  · refine renderSection_eq_none_iff (renderSection_isOk.mpr ?_) nofun
    exact sectionsFit_of_buildPath hspec items hitems
  · rw [buildable_iff_fillable hd, buildable_iff_fillable hd']
    refine and_congr ⟨h.fillable, h.symm.fillable⟩ ?_
    rcases hsections with hsame | hhidden
    · have hleftOut (keys : List String) :
          keys ∈ d.leftOutKeys fields ↔ keys ∈ d'.leftOutKeys fields := by
        rw [mem_leftOutKeys, mem_leftOutKeys, hsame.mem_iff]
      exact forall_congr' fun keys => imp_congr_left (hleftOut keys)
    · exact iff_of_true hhidden.leftOutFit (h.hiddenFit hhidden).leftOutFit

/-- Templates with two keys in a section. -/
def regionDrs : Drs :=
  ⟨[⟨"<source>", [.item (.key "source")]⟩],
    ⟨"<name>[_<region>_<period>].nc", [.item (.key "name"),
      .optional [.literal ['_'], .key "region", .literal ['_'], .key "period"],
      .item (.literal ['.', 'n', 'c'])]⟩⟩

/-- The same two keys in the other order. -/
def periodDrs : Drs :=
  ⟨[⟨"<source>", [.item (.key "source")]⟩],
    ⟨"<name>[_<period>_<region>].nc", [.item (.key "name"),
      .optional [.literal ['_'], .key "period", .literal ['_'], .key "region"],
      .item (.literal ['.', 'n', 'c'])]⟩⟩

/-- Without a period the section is left out. Then a blank in the region is no hindrance if the
period comes first, but it is one if the region does. -/
theorem buildable_iff_sample :
    Rearranged regionDrs periodDrs ∧
    (let whole : Attributes :=
      Dict.ofList [("name", "tas"), ("period", "1850.2000"), ("region", "a_b"), ("source", "s 1")]
    ∃ spec, regionDrs.buildPath whole = .ok spec ∧ spec.fileName = "tas_a-b_1850-2000.nc") ∧
    (let fit : Attributes := Dict.ofList [("name", "tas"), ("region", "a_b"), ("source", "s 1")]
    regionDrs.Buildable fit ∧ periodDrs.Buildable fit) ∧
    let unfit : Attributes := Dict.ofList [("name", "tas"), ("region", "a b"), ("source", "s 1")]
    regionDrs.Fillable unfit ∧ ¬regionDrs.Buildable unfit ∧ periodDrs.Buildable unfit := by
  have hd : ofTemplates? "<source>" "<name>[_<region>_<period>].nc" = .ok regionDrs := by rfl
  have hd' : ofTemplates? "<source>" "<name>[_<period>_<region>].nc" = .ok periodDrs := by rfl
  have h : Rearranged regionDrs periodDrs := by
    refine ⟨.refl _, .refl _, .of_eq ?_⟩
    have hswap : Multiset.ofList ["region", "period"] = Multiset.ofList ["period", "region"] :=
      Multiset.coe_eq_coe.mpr (.swap ..)
    exact congrArg (fun keys => [keys]) hswap
  refine ⟨h, ?_, ?_, ?_⟩
  · intro whole
    have hbuildable : regionDrs.Buildable whole :=
      (buildable_iff hd whole).1.mpr ⟨⟨by decide, by decide⟩, by decide⟩
    obtain ⟨spec, hspec⟩ := hbuildable
    refine ⟨spec, hspec, String.toList_inj.mp ?_⟩
    rw [((buildable_iff hd whole).2.1 spec hspec).1]
    decide
  · intro fit
    have hbuildable : regionDrs.Buildable fit :=
      (buildable_iff hd fit).1.mpr ⟨⟨by decide, by decide⟩, by decide⟩
    have hhidden : regionDrs.HiddenFit fit := by decide
    have hiff := ((buildable_iff hd fit).2.2 _ _ periodDrs hd' h).2 (.inr hhidden)
    exact ⟨hbuildable, hiff.mp hbuildable⟩
  · intro unfit
    have hfillable : regionDrs.Fillable unfit := ⟨by decide, by decide⟩
    refine ⟨hfillable, fun hbuildable => ?_, ?_⟩
    · have hleftOut : ¬regionDrs.LeftOutFit unfit := by decide
      exact hleftOut ((buildable_iff hd unfit).1.mp hbuildable).2
    · exact (buildable_iff hd' unfit).1.mpr ⟨h.fillable hfillable, by decide⟩

end ForcingData.Drs
