import ForcingData.Proofs.Drs.Filling
import ForcingData.Proofs.Drs.Rebuilding
import ForcingData.Proofs.FileTree.Named
import ForcingData.Proofs.Metadata.Inferred
import ForcingData.Proofs.Metadata.Ranking

/-! # The name at the end of a path

When a path is read, what the search does with the name does not depend on the directories before
it: behind the slash that ends them the rest is read as a name alone would be (`matchAll_append`).
So where a path can be read, its name can, and the two readings have the same values for all keys
that are in no directory (`parseFileName_of_parsePath`), whichever of them the metadata are
completed from. -/

namespace ForcingData

namespace Drs

variable {part : Part} {d : Drs} {key : String}

/-! ### The search behind the directories -/

/-- Once the first pieces have taken their text, the others read the rest on their own. -/
theorem matchAll_append {q : Pattern} : ∀ {p : Pattern} {cs : List Char} {caps : List Capture},
    matchAll (p ++ q) cs = some caps →
      ∃ a b c c', cs = a ++ b ∧ caps = c ++ c' ∧ Reads p a c ∧ matchAll q b = some c'
  | [], cs, caps, h => ⟨[], cs, [], caps, rfl, rfl, .nil, h⟩
  | (part, piece) :: p, cs, caps, h => by
    have taken {items : List Item} (hitems : piece.items = items)
        (h : matchItems part (matchAll (p ++ q)) items cs = some caps) :
        ∃ a b c c', cs = a ++ b ∧ caps = c ++ c' ∧ Reads ((part, piece) :: p) a c ∧
          matchAll q b = some c' := by
      obtain ⟨x, y, k, k', rfl, rfl, hx, hy⟩ := matchItems_sound h
      obtain ⟨a, b, c, c', rfl, rfl, ha, hb⟩ := matchAll_append hy
      exact ⟨x ++ a, b, k ++ c, c', by simp, by simp, .taken part piece (hitems ▸ hx) ha, hb⟩
    cases piece with
    | item i => exact taken rfl h
    | optional items =>
      rw [List.cons_append, matchAll, Option.orElse_eq_some] at h
      rcases h with h | ⟨-, h⟩
      · exact taken rfl h
      · obtain ⟨a, b, c, c', rfl, rfl, ha, hb⟩ := matchAll_append h
        exact ⟨a, b, c, c', rfl, rfl, .dropped part items ha, hb⟩

theorem exists_matchAll_of_findEnd {p : Pattern} {cs : List Char} {caps : List Capture}
    (h : findEnd p cs = some caps) : ∃ before rest, cs = before ++ rest ∧
      matchAll p rest = some caps := by
  rw [findEnd, Option.orElse_eq_some] at h
  rcases h with h | ⟨-, h⟩
  · exact ⟨[], cs, rfl, h⟩
  · obtain ⟨before, rest, htext, -, hm⟩ := matchAfterSlash_sound h
    exact ⟨before, rest, htext, hm⟩

/-- A path that is read is one of directories, and after a slash a name that is read. -/
theorem exists_name_of_findEnd (hne : d.directory ≠ []) {cs : List Char} {caps : List Capture}
    (h : findEnd d.pathPattern cs = some caps) : ∃ before directory name c c',
      cs = before ++ '/' :: name ∧ caps = c ++ c' ∧
        Reads (directoryPattern d.directory) directory c ∧
        matchAll d.fileNamePattern name = some c' := by
  obtain ⟨before, rest, rfl, hm⟩ := exists_matchAll_of_findEnd h
  obtain ⟨a, b, c, c', rfl, rfl, ha, hb⟩ := matchAll_append hm
  obtain ⟨t, ts, hdirectory⟩ := List.exists_cons_of_ne_nil hne
  obtain ⟨front, hfront⟩ := (hdirectory ▸ ha).exists_slash
  exact ⟨before ++ front, a, b, c, c', by simp [hfront], rfl, ha, hb⟩

theorem exists_parsePath_error (hne : d.directory ≠ []) {p : Path} (h : '/' ∉ withSlashes p) :
    ∃ e, d.parsePath p = .error e := by
  cases hparse : d.parsePath p with
  | error e => exact ⟨e, rfl⟩
  | ok fields =>
    obtain ⟨caps, hfind, -⟩ := parsePath_eq_ok.mp hparse
    obtain ⟨before, _, name, _, _, htext, -⟩ := exists_name_of_findEnd hne hfind
    rw [htext] at h
    simp at h

/-! ### What a name is made of -/

theorem Chosen.sublist {pieces : List Piece} {is : List Item} (h : Chosen pieces is) :
    is.Sublist (keptItems pieces) := by
  induction h with
  | nil => exact .slnil
  | taken piece _ ih => exact (List.Sublist.refl _).append ih
  | dropped items _ ih => exact ih.trans (List.sublist_append_right _ _)

theorem Chosen.mem_of_mem_droppedItems {pieces : List Piece} {is : List Item}
    (h : Chosen pieces is) {i : Item} (hi : i ∈ droppedItems pieces) : i ∈ is := by
  induction h with
  | nil => exact hi
  | @taken piece _ _ _ ih =>
    rw [droppedItems, List.flatMap_cons, List.mem_append] at hi
    rcases hi with hi | hi
    · split at hi
      · cases hi
      · exact List.mem_append_left _ hi
    · exact List.mem_append_right _ (ih hi)
  | dropped items _ ih => exact ih hi

theorem Template.mem_text_of_literal {t : Template}
    (ht : t.pieces.flatMap Piece.chars = t.text.toList) {text : List Char}
    (hi : .literal text ∈ keptItems t.pieces) {c : Char} (hc : c ∈ text) : c ∈ t.text.toList := by
  obtain ⟨p, hp, hi⟩ := List.mem_flatMap.mp hi
  rw [← ht]
  refine List.mem_flatMap.mpr ⟨p, hp, ?_⟩
  cases p with
  | item i =>
    obtain rfl := List.mem_singleton.mp hi
    exact hc
  | optional items =>
    have hsection : c ∈ items.flatMap Item.chars := List.mem_flatMap.mpr ⟨_, hi, hc⟩
    simp only [Piece.chars, List.mem_append, List.mem_cons]
    exact .inl (.inr hsection)

section
variable {name : List Char} {caps : List Capture} (h : matchAll d.fileNamePattern name = some caps)
include h

theorem notMem_slash_of_matchAll
    (ht : d.fileName.pieces.flatMap Piece.chars = d.fileName.text.toList)
    (hslash : '/' ∉ d.fileName.text.toList) : '/' ∉ name := by
  have hr := matchAll_sound h
  obtain ⟨is, hchosen, hi⟩ := hr.chosen
  refine hi.notMem (fun text htext hc => ?_) fun cap hcap hc => ?_
  · exact hslash (Template.mem_text_of_literal ht (hchosen.mem_keptItems htext) hc)
  · have hallowed := (hi.captures cap hcap).2 _ hc
    rw [hi.part_eq cap hcap] at hallowed
    revert hallowed
    decide

theorem any_isFileNameChar_of_matchAll (hkey : d.fileName.outsideKeys ≠ []) :
    name.any isFileNameChar = true := by
  by_contra hnone
  obtain ⟨is, hchosen, hi⟩ := (matchAll_sound h).chosen
  have hkeys := hi.map_key
  rw [hi.eq_nil_of_no_char (Bool.eq_false_iff.mpr hnone)] at hkeys
  obtain ⟨key, hkey⟩ := List.exists_mem_of_ne_nil _ hkey
  obtain ⟨i, hi, hik⟩ := List.mem_filterMap.mp hkey
  have hmem : key ∈ is.filterMap Item.key? :=
    List.mem_filterMap.mpr ⟨i, hchosen.mem_of_mem_droppedItems hi, hik⟩
  rw [← hkeys] at hmem
  cases hmem

theorem nodup_keys_of_matchAll (hnodup : d.fileName.keys.Nodup) :
    (caps.map Capture.key).Nodup := by
  obtain ⟨is, hchosen, hi⟩ := (matchAll_sound h).chosen
  rw [hi.map_key]
  exact hnodup.sublist (hchosen.sublist.filterMap _)

/-- A name that is read, and shows a value, is the name of something. -/
theorem isNodeName_of_matchAll
    (ht : d.fileName.pieces.flatMap Piece.chars = d.fileName.text.toList)
    (hslash : '/' ∉ d.fileName.text.toList) (hkey : d.fileName.outsideKeys ≠ []) :
    IsNodeName (String.ofList name) := by
  have hany := any_isFileNameChar_of_matchAll h hkey
  have hne : ∀ s : String, s.toList.any isFileNameChar = false → String.ofList name ≠ s := by
    rintro s hs rfl
    rw [String.toList_ofList, hany] at hs
    cases hs
  refine ⟨⟨hne _ rfl, ?_⟩, hne _ (by decide), hne _ (by decide)⟩
  rw [String.toList_ofList]
  exact notMem_slash_of_matchAll h ht hslash

end

/-! ### Taking up values -/

theorem get?_foldl_insert_of_notMem : ∀ {caps : List Capture} {acc : Attributes},
    key ∉ caps.map Capture.key →
      (caps.foldl (fun fields c => fields.insert c.key (String.ofList c.text)) acc).get? key =
        acc.get? key
  | [], _, _ => rfl
  | cap :: caps, acc, h => by
    obtain ⟨hcap, hrest⟩ := not_or.mp (List.mem_cons.not.mp h)
    rw [List.foldl_cons, get?_foldl_insert_of_notMem hrest, Dict.get?_insert, if_neg hcap]

/-- Of a key that stands once in the name, the first value is the last one. -/
theorem get?_foldl_addCapture_eq : ∀ {caps : List Capture} {acc acc' : Attributes},
    (∀ cap ∈ caps, cap.part = .fileName) → (caps.map Capture.key).Nodup →
    acc.get? key = none → acc'.get? key = none →
      (caps.foldl (fun fields c => fields.insert c.key (String.ofList c.text)) acc').get? key =
        (caps.foldl addCapture acc).get? key
  | [], _, _, _, _, h, h' => h'.trans h.symm
  | cap :: caps, acc, acc', hpart, hnodup, h, h' => by
    obtain ⟨hcap, hpart⟩ := List.forall_mem_cons.mp hpart
    obtain ⟨hnotMem, hnodup⟩ := List.nodup_cons.mp hnodup
    rw [List.foldl_cons, List.foldl_cons]
    by_cases hkey : cap.key = key
    · have htaken : (addCapture acc cap).get? key = some (String.ofList cap.text) := by
        have hfree : acc.contains cap.key = false := by
          rw [Dict.contains, hkey, h]
          rfl
        unfold addCapture
        rw [hcap, hfree, hkey]
        exact (Dict.get?_insert ..).trans (if_pos rfl)
      rw [get?_foldl_insert_of_notMem (hkey ▸ hnotMem),
        get?_foldl_addCapture_fileName hpart htaken, Dict.get?_insert, if_pos hkey.symm]
    · refine get?_foldl_addCapture_eq hpart hnodup ?_ ?_
      · rw [get?_addCapture_of_ne hkey, h]
      · rw [Dict.get?_insert, if_neg (Ne.symm hkey), h']

theorem get?_foldl_addCapture_of_notMem {caps : List Capture} (h : ∀ cap ∈ caps, cap.key ≠ key) :
    (caps.foldl addCapture ∅).get? key = none := by
  cases hget : (caps.foldl addCapture ∅).get? key with
  | none => rfl
  | some value =>
    have hcontains := ((caps.foldl addCapture ∅).contains_iff key).mpr ⟨value, hget⟩
    rcases key_mem_of_foldl_addCapture hcontains with hempty | ⟨cap, hcap, hkey⟩
    · cases hempty
    · exact absurd hkey (h cap hcap)

end Drs

/-! ### Completing metadata -/

namespace Layers
open Drs
variable {key : String}

theorem get?_addSource_of_not_known (hkey : Metadata.isKnown key = false) (l : Layers)
    (origin : Origin) (attributes : Attributes) :
    (l.addSource origin attributes).get? key = l.get? key := by
  have hadd : ∀ (l : Layers) (k value : String), (l.add origin k value).get? key = l.get? key := by
    intro l k value
    unfold add
    split
    · rfl
    · rename_i hused
      simp only [Bool.or_eq_true, not_or, Bool.not_eq_true', Bool.not_eq_false] at hused
      have hne : key ≠ k := by
        rintro rfl
        rw [hkey] at hused
        cases hused.1
      split
      · rw [get?_set, if_neg hne]
      · split <;> rfl
  unfold addSource
  generalize attributes.toList = entries
  induction entries generalizing l with
  | nil => rfl
  | cons e entries ih => rw [List.foldl_cons, ih, hadd]

theorem ofSources_of_readPath? {m : Minimum} {ds : Dataset} {drs : Drs} {path : Path}
    {fields : Attributes} (h : readPath? drs path = some fields) :
    ofSources m ds (some path) drs = (ofSources m ds none drs).addSource .fileName fields := by
  unfold ofSources
  simp only
  rw [readPath?] at h
  cases hpath : drs.parsePath path with
  | ok read =>
    rw [hpath] at h
    obtain rfl := Option.some.inj h
    rfl
  | error e =>
    rw [hpath] at h
    cases hname : drs.parseFileName path with
    | ok read =>
      rw [hname] at h
      obtain rfl := Option.some.inj h
      rfl
    | error e =>
      rw [hname] at h
      cases h

/-- Paths that say the same about a key lead to the same value. -/
theorem get?_ofSources_congr {m : Minimum} {ds : Dataset} {drs : Drs} {path path' : Path}
    {fields fields' : Attributes} (h : readPath? drs path = some fields)
    (h' : readPath? drs path' = some fields') (hget : fields'.get? key = fields.get? key) :
    (ofSources m ds (some path') drs).get? key = (ofSources m ds (some path) drs).get? key := by
  rw [ofSources_of_readPath? h, ofSources_of_readPath? h']
  cases hkey : Metadata.isKnown key with
  | false => rw [get?_addSource_of_not_known hkey, get?_addSource_of_not_known hkey]
  | true =>
    have hvalue : fieldValue? fields' key = fieldValue? fields key := by
      rw [fieldValue?, fieldValue?, hget]
    have hholds := holds_ofSources m ds none drs
    rw [(hholds.addSource (.fileName, fields)).value key hkey,
      (hholds.addSource (.fileName, fields')).value key hkey, first?_append, first?_append,
      first?_singleton, first?_singleton, hvalue]

end Layers

namespace Drs

/-- A path that is read has a name that is read, and both say the same about every key that no
directory shows. The name without the directories is no path, so that it is read as a name; the
values that metadata are completed with are the same. -/
theorem parseFileName_of_parsePath {directory fileName : String} {d : Drs}
    (hd : ofTemplates? directory fileName = .ok d) (hslash : '/' ∉ d.fileNameTemplate.toList)
    (hnodup : d.fileName.keys.Nodup) (houtside : d.fileName.outsideKeys ≠ []) {p : Path}
    (hbackslash : '\\' ∉ p.text.toList) {fields : Attributes} (h : d.parsePath p = .ok fields) :
    ∃ name names, p.fileName? = some name ∧ d.parseFileName p = .ok names ∧
      (∀ key, key ∉ d.directoryKeys → names.get? key = fields.get? key) ∧
      (∃ e, d.parsePath ⟨name⟩ = .error e) ∧ d.parseFileName ⟨name⟩ = .ok names ∧
      ∀ (m : Minimum) (ds : Dataset) (key : String), key ∉ d.directoryKeys →
        (Layers.ofSources m ds (some ⟨name⟩) d).get? key =
          (Layers.ofSources m ds (some p) d).get? key := by
  obtain ⟨hne, ho, htemplates⟩ := ofTemplates?_eq_ok hd
  have ht := htemplates d.fileName (List.mem_cons_self ..)
  obtain ⟨caps, hfind, hfields⟩ := parsePath_eq_ok.mp h
  obtain ⟨before, front, name, c, c', htext, rfl, hfront, hname⟩ := exists_name_of_findEnd hne hfind
  rw [withSlashes, map_asSlash hbackslash] at htext
  have hnode := isNodeName_of_matchAll hname ht hslash houtside
  have hnoSlash := notMem_slash_of_matchAll hname ht hslash
  have hlast : p.fileName? = some (String.ofList name) := by
    have hpart := Path.Part.ofPiece_name hnode.isName hnode.not_here hnode.not_up
    rw [String.toList_ofList] at hpart
    rw [Path.fileName?, Path.getLast?_parts_of_slash htext hnoSlash hpart]
  obtain ⟨names, hnames⟩ : ∃ names : Attributes, names =
      c'.foldl (fun fields c => fields.insert c.key (String.ofList c.text)) ∅ := ⟨_, rfl⟩
  -- the name at the end of the path and the name alone are the same text to read
  have hread {q : Path} (hq : q.fileName? = some (String.ofList name)) :
      d.parseFileName q = .ok names := by
    rw [parseFileName, hq, Option.getD_some, String.toList_ofList, hname, hnames]
  have halone := hread (Path.fileName?_mk hnode.isName hnode.not_here hnode.not_up)
  obtain ⟨e, herror⟩ : ∃ e, d.parsePath ⟨String.ofList name⟩ = .error e := by
    refine exists_parsePath_error hne ?_
    have hnoBackslash : '\\' ∉ name := by
      intro hmem
      rw [htext] at hbackslash
      simp [hmem] at hbackslash
    rwa [withSlashes, String.toList_ofList, map_asSlash hnoBackslash]
  have hagree : ∀ key, key ∉ d.directoryKeys → names.get? key = fields.get? key := by
    intro key hkey
    have hdirectory : ∀ cap ∈ c, cap.key ≠ key := by
      rintro cap hcap rfl
      exact hkey (hfront.key_mem_directory ho cap hcap)
    rw [hnames, ← hfields, List.foldl_append]
    exact get?_foldl_addCapture_eq ((matchAll_sound hname).part_eq part_fileNamePattern)
      (nodup_keys_of_matchAll hname hnodup) (get?_foldl_addCapture_of_notMem hdirectory) rfl
  refine ⟨_, names, hlast, hread hlast, hagree, ⟨e, herror⟩, halone, fun m ds key hkey => ?_⟩
  refine Layers.get?_ofSources_congr ?_ ?_ (hagree key hkey)
  · rw [Layers.readPath?, h]
    rfl
  · rw [Layers.readPath?, herror, halone]
    rfl

/-- A name that can be read in more than one way. -/
def numberedDrs : Drs :=
  ⟨[⟨"<source>", [.item (.key "source")]⟩],
    ⟨"<name><number>[_<region>].nc", [.item (.key "name"), .item (.key "number"),
      .optional [.literal ['_'], .key "region"], .item (.literal ['.', 'n', 'c'])]⟩⟩

theorem parseFileName_of_parsePath_sample :
    let p : Path := ⟨"/pool/a_b/tas12_gn.nc"⟩
    ∃ fields names, numberedDrs.parsePath p = .ok fields ∧ numberedDrs.parseFileName p = .ok names ∧
      names.get? "name" = some "tas1" ∧ names.get? "number" = some "2" ∧
      names.get? "region" = some "gn" := by
  intro p
  have hd : ofTemplates? "<source>" "<name><number>[_<region>].nc" = .ok numberedDrs := by rfl
  let fields : Attributes :=
    Dict.ofList [("name", "tas1"), ("number", "2"), ("region", "gn"), ("source", "a_b")]
  have hfields : numberedDrs.parsePath p = .ok fields := by decide
  obtain ⟨_, names, -, hnames, hagree, -⟩ :=
    parseFileName_of_parsePath hd (by decide) (by decide) (by decide) (by decide) hfields
  refine ⟨fields, names, hfields, hnames, ?_, ?_, ?_⟩
  · rw [hagree "name" (by decide)]
    decide
  · rw [hagree "number" (by decide)]
    decide
  · rw [hagree "region" (by decide)]
    decide

end Drs
end ForcingData
