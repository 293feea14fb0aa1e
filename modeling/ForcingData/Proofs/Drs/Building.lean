import ForcingData.Proofs.Drs.Separated
import ForcingData.Proofs.Drs.Template
import ForcingData.Proofs.Dict

/-! # What is built can be read

Filling in a template gives a text that reads as the items that are there, with the values that were
put in (`readsItems_of_renderPieces`); which sections are there is `rendered`. So the template reads
the text (`reads_of_renderPieces`). -/

namespace ForcingData.Drs

/-- How a value stands in a name. -/
def Part.shown (part : Part) (value : String) : List Char :=
  match part with
  | .directory => value.toList
  | .fileName => value.toList.map replaceChar

/-- What the placeholders among the items show. -/
def captured (part : Part) (fields : Attributes) (is : List Item) : List Capture :=
  is.filterMap fun i =>
    i.key?.map fun key => ⟨part, key, part.shown ((fieldValue? fields key).getD "")⟩

/-- Is there a value, where one is needed? -/
def Item.hasValue (fields : Attributes) (i : Item) : Bool :=
  i.key?.all fun key => (fieldValue? fields key).isSome

/-- The items that are filled in: a section is left out unless all its keys have values. -/
def rendered (fields : Attributes) (pieces : List Piece) : List Item :=
  pieces.flatMap fun p =>
    if p.isOptional && !p.items.all (Item.hasValue fields) then [] else p.items

/-- The values can stand where they are put. -/
def Fits (part : Part) (fields : Attributes) (is : List Item) : Prop :=
  part = .directory → ∀ key ∈ is.filterMap Item.key?, ∀ value, fields.get? key = some value →
    '/' ∉ value.toList

theorem fieldValue?_eq_some {fields : Attributes} {key value : String} :
    fieldValue? fields key = some value ↔ fields.get? key = some value ∧ value ≠ "" := by
  rw [fieldValue?, Option.filter_eq_some_iff]
  simp

theorem captured_append (part : Part) (fields : Attributes) (is js : List Item) :
    captured part fields (is ++ js) = captured part fields is ++ captured part fields js :=
  List.filterMap_append

/-! ### Texts -/

/-- Allowed characters, and at least one. -/
theorem Part.render_eq_ok {part : Part} {key value : String} {cs : List Char}
    (h : part.render key value = .ok cs) (hne : value ≠ "")
    (hv : part = .directory → '/' ∉ value.toList) :
    cs = part.shown value ∧ cs ≠ [] ∧ ∀ c ∈ cs, part.allows c = true := by
  cases part with
  | directory =>
    obtain rfl := Except.ok.inj h
    refine ⟨rfl, by simpa using hne, fun c hc => ?_⟩
    have : c ≠ '/' := by
      rintro rfl
      exact hv rfl hc
    simpa [Part.allows] using this
  | fileName =>
    simp only [Part.render, Bool.and_eq_true, decide_eq_true_eq, List.all_eq_true] at h
    split_ifs at h with hcs
    obtain rfl := Except.ok.inj h
    exact ⟨rfl, hcs.1, hcs.2⟩

theorem reads_of_key {part : Part} {fields : Attributes} {key value : String} {cs : List Char}
    (hk : fieldValue? fields key = some value) (h : part.render key value = .ok cs)
    (hf : Fits part fields [.key key]) {is : List Item} {rest : List Char}
    (hr : ReadsItems part is rest (captured part fields is)) :
    ReadsItems part (.key key :: is) (cs ++ rest) (captured part fields (.key key :: is)) := by
  obtain ⟨hget, hne⟩ := fieldValue?_eq_some.mp hk
  obtain ⟨hcs, hnil, hall⟩ := Part.render_eq_ok h hne fun hd => hf hd key (by simp) value hget
  have : captured part fields (.key key :: is) = ⟨part, key, cs⟩ :: captured part fields is := by
    simp [captured, hk, hcs]
  rw [this]
  exact .key key hnil hall hr

theorem Fits.mono {part : Part} {fields : Attributes} {is js : List Item}
    (hf : Fits part fields js) (hs : ∀ i ∈ is, i ∈ js) : Fits part fields is := by
  intro hd key hkey
  obtain ⟨i, hi, hik⟩ := List.mem_filterMap.mp hkey
  exact hf hd key (List.mem_filterMap.mpr ⟨i, hs i hi, hik⟩)

theorem reads_of_render {part : Part} {fields : Attributes} {i : Item} {cs : List Char}
    (h : i.render part fields = .ok cs) (hf : Fits part fields [i]) :
    ReadsItems part [i] cs (captured part fields [i]) := by
  cases i with
  | literal text =>
    obtain rfl := Except.ok.inj h
    have hnil : ReadsItems part [] [] [] := .nil
    have hliteral := hnil.literal text
    rwa [List.append_nil] at hliteral
  | key name =>
    simp only [Item.render] at h
    split at h
    · rename_i value hk
      simpa using reads_of_key hk h hf .nil
    · cases h

/-- A section is filled in exactly if all its keys have values. -/
theorem reads_of_renderSection {part : Part} {fields : Attributes} : ∀ {is : List Item}
    {cs? : Option (List Char)}, renderSection part fields is = .ok cs? → Fits part fields is →
      match cs? with
      | some cs => is.all (Item.hasValue fields) = true ∧
          ReadsItems part is cs (captured part fields is)
      | none => is.all (Item.hasValue fields) = false
  | [], cs?, h, _ => by
    obtain rfl := Except.ok.inj h
    exact ⟨rfl, .nil⟩
  | .literal text :: is, cs?, h, hf => by
    obtain ⟨rest?, hrest, h⟩ := Except.bind_eq_ok.mp h
    obtain rfl := Except.pure_eq_ok.mp h
    have ih := reads_of_renderSection hrest (hf.mono fun i hi => List.mem_cons_of_mem _ hi)
    cases rest? with
    | none => simpa [Item.hasValue] using ih
    | some rest => exact ⟨by simpa [Item.hasValue] using ih.1, ih.2.literal text⟩
  -- the first key without a value ends the section
  | .key name :: is, cs?, h, hf => by
    simp only [renderSection] at h
    split at h
    · rename_i hk
      obtain rfl := Except.ok.inj h
      simp [Item.hasValue, hk]
    · rename_i value hk
      obtain ⟨cs, hcs, h⟩ := Except.bind_eq_ok.mp h
      obtain ⟨rest?, hrest, h⟩ := Except.bind_eq_ok.mp h
      obtain rfl := Except.pure_eq_ok.mp h
      have ih := reads_of_renderSection hrest (hf.mono fun i hi => List.mem_cons_of_mem _ hi)
      cases rest? with
      | none => simpa [Item.hasValue, hk] using ih
      | some rest =>
        refine ⟨by simpa [Item.hasValue, hk] using ih.1, ?_⟩
        exact reads_of_key hk hcs (hf.mono (by simp)) ih.2

theorem rendered_append (fields : Attributes) (ps qs : List Piece) :
    rendered fields (ps ++ qs) = rendered fields ps ++ rendered fields qs :=
  List.flatMap_append

theorem rendered_optional (fields : Attributes) (items : List Item) (ps : List Piece) :
    rendered fields (.optional items :: ps) =
      (if items.all (Item.hasValue fields) then items else []) ++ rendered fields ps := by
  rw [rendered, List.flatMap_cons, ← rendered, Piece.isOptional, Piece.items]
  cases items.all (Item.hasValue fields) <;> rfl

theorem chosen_rendered (fields : Attributes) : ∀ pieces : List Piece,
    Chosen pieces (rendered fields pieces)
  | [] => .nil
  | .item i :: pieces => (chosen_rendered fields pieces).taken (.item i)
  | .optional items :: pieces => by
    have ih := chosen_rendered fields pieces
    rw [rendered_optional]
    split_ifs
    · exact ih.taken (.optional items)
    · exact ih.dropped items

theorem Piece.readsItems_of_render {part : Part} {fields : Attributes} {p : Piece}
    {cs : List Char} (h : p.render part fields = .ok cs) (hf : Fits part fields p.items) :
    ReadsItems part (rendered fields [p]) cs (captured part fields (rendered fields [p])) := by
  cases p with
  | item i =>
    have hrendered : rendered fields [.item i] = [i] := rfl
    rw [hrendered]
    exact reads_of_render h hf
  | optional items =>
    obtain ⟨cs?, hcs?, h⟩ := Except.bind_eq_ok.mp h
    obtain rfl := Except.pure_eq_ok.mp h
    have hs := reads_of_renderSection hcs? hf
    rw [rendered_optional]
    cases cs? with
    | none =>
      rw [if_neg (Bool.eq_false_iff.mp hs)]
      exact .nil
    | some cs =>
      rw [if_pos hs.1]
      simpa [rendered] using hs.2

/-- What is filled in reads as the items that are there. -/
theorem readsItems_of_renderPieces {part : Part} {fields : Attributes} :
    ∀ {pieces : List Piece} {cs : List Char}, renderPieces part fields pieces = .ok cs →
      Fits part fields (keptItems pieces) →
      ReadsItems part (rendered fields pieces) cs (captured part fields (rendered fields pieces))
  | [], cs, h, _ => by
    obtain rfl := Except.ok.inj h
    exact .nil
  | p :: pieces, _, h, hf => by
    obtain ⟨cs, hcs, h⟩ := Except.bind_eq_ok.mp h
    obtain ⟨rest, hrest, h⟩ := Except.bind_eq_ok.mp h
    obtain rfl := Except.pure_eq_ok.mp h
    have hfirst := p.readsItems_of_render hcs (hf.mono fun i hi => List.mem_append_left _ hi)
    have hothers := readsItems_of_renderPieces hrest
      (hf.mono fun i hi => List.mem_append_right _ hi)
    have happend := rendered_append fields [p] pieces
    rw [List.singleton_append] at happend
    rw [happend, captured_append]
    exact hfirst.append hothers

theorem reads_of_renderPieces {part : Part} {fields : Attributes} {pieces : List Piece}
    {cs : List Char} (h : renderPieces part fields pieces = .ok cs)
    (hf : Fits part fields (keptItems pieces)) :
    Reads (pieces.map (part, ·)) cs (captured part fields (rendered fields pieces)) :=
  (chosen_rendered fields pieces).reads (readsItems_of_renderPieces h hf)

theorem rendered_eq_keptItems {fields : Attributes} {pieces : List Piece}
    (h : ∀ p ∈ pieces, p.isOptional = false) : rendered fields pieces = keptItems pieces := by
  refine List.flatMap_congr fun p hp => ?_
  simp [h p hp]

/-- A directory name is never empty. -/
theorem Template.ne_nil_of_reads {t : Template} {cs : List Char}
    (ht : t.pieces.flatMap Piece.chars = t.text.toList) (hne : t.text ≠ "")
    (ho : ∀ p ∈ t.pieces, p.isOptional = false) {caps : List Capture}
    (hr : Reads (t.pieces.map (.directory, ·)) cs caps) : cs ≠ [] := by
  have hi := hr.of_no_section ho
  have key_or {is : List Item} {caps : List Capture}
      (h : ReadsItems .directory is [] caps) : is.filterMap Item.key? = [] := by
    generalize hcs : ([] : List Char) = cs at h
    induction h with
    | nil => rfl
    | literal text _ ih =>
      obtain ⟨-, rfl⟩ := List.append_eq_nil_iff.mp hcs.symm
      simpa using ih rfl
    | key name hv => exact absurd (List.append_eq_nil_iff.mp hcs.symm).1 hv
  rintro rfl
  obtain ⟨hchars, -⟩ := hi.eq_of_no_key (key_or hi)
  have hpieces : t.pieces.flatMap Piece.chars = (keptItems t.pieces).flatMap Item.chars := by
    rw [keptItems, List.flatMap_assoc]
    refine List.flatMap_congr fun p hp => ?_
    cases p with
    | item i => simp [Piece.chars, Piece.items]
    | optional items => exact absurd (ho _ hp) (by simp [Piece.isOptional])
  rw [hpieces, ← hchars] at ht
  exact hne (String.toList_eq_nil_iff.mp ht.symm)

end ForcingData.Drs
