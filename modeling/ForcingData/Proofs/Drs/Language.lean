import ForcingData.Proofs.Drs.Grammar
import ForcingData.Proofs.Drs.Separated

/-! # The paths that templates stand for

`Expands` says of the text of a template which texts it stands for, and `Language` of a pair of
templates which paths: plain text stands for itself, a section may be left out, and every
placeholder is some value. Pieces that are well formed have the readings that their text has
expansions (`expands_iff_reads`), so a path is parsed if and only if it is in the language or ends,
after a slash, in a path that is (`parsed_iff_language`). -/

namespace ForcingData.Drs

/-- The texts that the text of a template stands for. -/
inductive Expands (part : Part) : List Char → List Char → Prop
  | nil : Expands part [] []
  | char {c : Char} (hc : c ∉ ['<', '[']) {raw cs : List Char} (h : Expands part raw cs) :
      Expands part (c :: raw) (c :: cs)
  | placeholder {key value : List Char} (hk : IsKey key) (hne : value ≠ [])
      (hv : ∀ c ∈ value, part.allows c = true) {raw cs : List Char} (h : Expands part raw cs) :
      Expands part ('<' :: key ++ '>' :: raw) (value ++ cs)
  | kept {inner a : List Char} (hi : IsSection true inner) (ha : Expands part inner a)
      {raw cs : List Char} (h : Expands part raw cs) :
      Expands part ('[' :: inner ++ ']' :: raw) (a ++ cs)
  | dropped {inner : List Char} (hi : IsSection true inner) {raw cs : List Char}
      (h : Expands part raw cs) : Expands part ('[' :: inner ++ ']' :: raw) cs

/-- The paths that a pair of templates stands for. -/
def Language (directory fileName : String) (cs : List Char) : Prop :=
  ∃ names last,
    List.Forall₂ (fun segment name => Expands .directory segment.toList name)
      (Text.splitAt '/' (trimSlashes directory)) names ∧
    Expands .fileName fileName.toList last ∧ cs = Path.joinPieces (names ++ [last])

/-- The text of a path, in which a backslash is as good as a slash. -/
def withSlashes (p : Path) : List Char := p.text.toList.map fun c => if c = '\\' then '/' else c

variable {part : Part} {raw cs : List Char}

/-! ### Expansions taken apart -/

namespace Expands

theorem of_char {c : Char} (hc : c ∉ ['<', '[']) (h : Expands part (c :: raw) cs) :
    ∃ cs', cs = c :: cs' ∧ Expands part raw cs' := by
  generalize hwhole : c :: raw = whole at h
  cases h with
  | nil => cases hwhole
  | char _ h =>
    obtain ⟨rfl, rfl⟩ := List.cons.inj hwhole
    exact ⟨_, rfl, h⟩
  | placeholder => simp [(List.cons.inj hwhole).1] at hc
  | kept => simp [(List.cons.inj hwhole).1] at hc
  | dropped => simp [(List.cons.inj hwhole).1] at hc

theorem of_text : ∀ {text cs : List Char}, (∀ c ∈ text, c ∉ ['<', '[']) →
    Expands part (text ++ raw) cs → ∃ cs', cs = text ++ cs' ∧ Expands part raw cs'
  | [], cs, _, h => ⟨cs, rfl, h⟩
  | c :: text, cs, ht, h => by
    obtain ⟨cs₁, rfl, h₁⟩ := of_char (ht c (List.mem_cons_self ..)) h
    obtain ⟨cs₂, rfl, h₂⟩ := of_text (fun x hx => ht x (List.mem_cons_of_mem _ hx)) h₁
    exact ⟨cs₂, rfl, h₂⟩

theorem of_placeholder {key : List Char} (hk : '>' ∉ key)
    (h : Expands part ('<' :: key ++ '>' :: raw) cs) :
    ∃ value cs', cs = value ++ cs' ∧ value ≠ [] ∧ (∀ c ∈ value, part.allows c = true) ∧
      Expands part raw cs' := by
  generalize hwhole : '<' :: key ++ '>' :: raw = whole at h
  cases h with
  | nil => cases hwhole
  | char hc => simp [← (List.cons.inj hwhole).1] at hc
  | placeholder hk' hne hv h =>
    obtain ⟨rfl, rfl⟩ := first_unique hk hk'.2 (List.cons.inj hwhole).2
    exact ⟨_, _, rfl, hne, hv, h⟩
  | kept => cases (List.cons.inj hwhole).1
  | dropped => cases (List.cons.inj hwhole).1

end Expands

/-- A section ends where it ends, however the text goes on. -/
theorem IsSection.unique {keyed keyed' : Bool} {inner inner' rest rest' : List Char}
    (h : IsSection keyed inner) (h' : IsSection keyed' inner')
    (heq : inner ++ ']' :: rest = inner' ++ ']' :: rest') : inner = inner' ∧ rest = rest' := by
  induction h generalizing keyed' inner' with
  | nil =>
    cases h' with
    | nil => exact ⟨rfl, (List.cons.inj heq).2⟩
    | char hc => simp [← (List.cons.inj heq).1] at hc
    | placeholder => cases (List.cons.inj heq).1
  | char hc _ ih =>
    cases h' with
    | nil => simp [(List.cons.inj heq).1] at hc
    | char _ h' =>
      obtain ⟨rfl, htail⟩ := List.cons.inj heq
      obtain ⟨rfl, hrest⟩ := ih h' htail
      exact ⟨rfl, hrest⟩
    | placeholder => simp [(List.cons.inj heq).1] at hc
  | @placeholder key hk _ cs _ ih =>
    cases h' with
    | nil => cases (List.cons.inj heq).1
    | char hc => simp [← (List.cons.inj heq).1] at hc
    | @placeholder key' hk' _ cs' h' =>
      have hkeys : key ++ '>' :: (cs ++ ']' :: rest) = key' ++ '>' :: (cs' ++ ']' :: rest') := by
        simpa using heq
      obtain ⟨rfl, htail⟩ := first_unique hk.2 hk'.2 hkeys
      obtain ⟨rfl, hrest⟩ := ih h' htail
      exact ⟨rfl, hrest⟩

theorem Expands.of_optional {inner : List Char} (hi : IsSection true inner)
    (h : Expands part ('[' :: inner ++ ']' :: raw) cs) :
    (∃ a b, cs = a ++ b ∧ Expands part inner a ∧ Expands part raw b) ∨ Expands part raw cs := by
  generalize hwhole : '[' :: inner ++ ']' :: raw = whole at h
  cases h with
  | nil => cases hwhole
  | char hc => simp [← (List.cons.inj hwhole).1] at hc
  | placeholder => cases (List.cons.inj hwhole).1
  | kept hi' ha h =>
    obtain ⟨rfl, rfl⟩ := hi.unique hi' (List.cons.inj hwhole).2
    exact .inl ⟨_, _, rfl, ha, h⟩
  | dropped hi' h =>
    obtain ⟨rfl, rfl⟩ := hi.unique hi' (List.cons.inj hwhole).2
    exact .inr h

/-! ### Well formed pieces -/

theorem IsSection.text {keyed : Bool} {cs : List Char} (h : IsSection keyed cs) :
    ∀ {text : List Char}, (∀ c ∈ text, c ∉ ['<', '[', ']']) → IsSection keyed (text ++ cs)
  | [], _ => h
  | c :: _, ht => .char (ht c (List.mem_cons_self ..))
      (h.text fun x hx => ht x (List.mem_cons_of_mem _ hx))

theorem isSection_of_fitsAt : ∀ {items : List Item}, (∀ i ∈ items, i.FitsAt (some true)) →
    IsSection (items.any Item.isKey) (items.flatMap Item.chars)
  | [], _ => .nil
  | i :: items, h => by
    have ih := isSection_of_fitsAt fun j hj => h j (List.mem_cons_of_mem _ hj)
    have hi := h i (List.mem_cons_self ..)
    cases i with
    | literal text => exact ih.text hi.2
    | key name => simpa [Item.chars, Item.isKey] using IsSection.placeholder hi ih

theorem Item.FitsAt.outside {place : Place} {i : Item} (h : i.FitsAt place) : i.FitsAt none := by
  cases i with
  | key name => exact h
  | literal text =>
    refine ⟨h.1, fun c hc hmem => h.2 c hc ?_⟩
    cases place with
    | none => exact hmem
    | some _ => exact List.mem_append_left [']'] hmem

/-! ### Readings and expansions -/

theorem Expands.text (h : Expands part raw cs) :
    ∀ {text : List Char}, (∀ c ∈ text, c ∉ ['<', '[']) → Expands part (text ++ raw) (text ++ cs)
  | [], _ => h
  | c :: _, ht => .char (ht c (List.mem_cons_self ..))
      (h.text fun x hx => ht x (List.mem_cons_of_mem _ hx))

theorem ReadsItems.expands {items : List Item} {a : List Char} {caps : List Capture}
    (hr : ReadsItems part items a caps) (hf : ∀ i ∈ items, i.FitsAt none)
    (h : Expands part raw cs) : Expands part (items.flatMap Item.chars ++ raw) (a ++ cs) := by
  induction hr with
  | nil => exact h
  | literal text _ ih =>
    have ht := (hf _ (List.mem_cons_self ..)).2
    have := (ih fun i hi => hf i (List.mem_cons_of_mem _ hi)).text ht
    simpa [Item.chars] using this
  | key name hne hv _ ih =>
    have hk : IsKey name.toList := hf _ (List.mem_cons_self ..)
    have := Expands.placeholder hk hne hv (ih fun i hi => hf i (List.mem_cons_of_mem _ hi))
    simpa [Item.chars] using this

theorem Expands.readsItems : ∀ {items : List Item}, (∀ i ∈ items, i.FitsAt none) →
    ∀ {cs : List Char}, Expands part (items.flatMap Item.chars ++ raw) cs →
      ∃ a b caps, cs = a ++ b ∧ ReadsItems part items a caps ∧ Expands part raw b
  | [], _, cs, h => ⟨[], cs, [], rfl, .nil, h⟩
  | i :: items, hf, cs, h => by
    have hi := hf i (List.mem_cons_self ..)
    have hfit : ∀ j ∈ items, j.FitsAt none := fun j hj => hf j (List.mem_cons_of_mem _ hj)
    cases i with
    | literal text =>
      rw [List.flatMap_cons, Item.chars, List.append_assoc] at h
      obtain ⟨cs', rfl, hrest⟩ := of_text hi.2 h
      obtain ⟨a, b, caps, rfl, hr, hb⟩ := readsItems hfit hrest
      exact ⟨text ++ a, b, caps, by simp, hr.literal text, hb⟩
    | key name =>
      have h : Expands part ('<' :: name.toList ++ '>' :: (items.flatMap Item.chars ++ raw))
          cs := by simpa [Item.chars] using h
      obtain ⟨value, cs', rfl, hne, hv, hrest⟩ := of_placeholder hi.2 h
      obtain ⟨a, b, caps, rfl, hr, hb⟩ := readsItems hfit hrest
      exact ⟨value ++ a, b, _, by simp, .key name hne hv hr, hb⟩

theorem Reads.expands : ∀ {pieces : List Piece} {cs : List Char} {caps : List Capture},
    Reads (pieces.map (part, ·)) cs caps → (∀ p ∈ pieces, p.IsWellFormed) →
      Expands part (pieces.flatMap Piece.chars) cs
  | [], _, _, .nil, _ => .nil
  | p :: ps, _, _, .taken _ _ hi h, hw => by
    have hp := hw p (List.mem_cons_self ..)
    have ih := h.expands fun q hq => hw q (List.mem_cons_of_mem _ hq)
    cases p with
    | item i =>
      have hitem := hi.expands (List.forall_mem_singleton.mpr hp) ih
      simpa [Piece.chars, Piece.items] using hitem
    | optional items =>
      have hinner := hi.expands (fun i hi => (hp.1 i hi).outside) .nil
      have hsection := isSection_of_fitsAt hp.1
      rw [hp.2] at hsection
      simp only [Piece.items, List.append_nil] at hinner
      simpa [Piece.chars] using Expands.kept hsection hinner ih
  | .optional items :: ps, _, _, .dropped _ _ h, hw => by
    have hp := hw _ (List.mem_cons_self ..)
    have hsection := isSection_of_fitsAt hp.1
    rw [hp.2] at hsection
    have ih := h.expands fun q hq => hw q (List.mem_cons_of_mem _ hq)
    simpa [Piece.chars] using Expands.dropped hsection ih

theorem Expands.reads : ∀ {pieces : List Piece}, (∀ p ∈ pieces, p.IsWellFormed) →
    ∀ {cs : List Char}, Expands part (pieces.flatMap Piece.chars) cs →
      ∃ caps, Reads (pieces.map (part, ·)) cs caps
  | [], _, _, .nil => ⟨[], .nil⟩
  | p :: ps, hw, cs, h => by
    have hp := hw p (List.mem_cons_self ..)
    have ih {cs : List Char} (h : Expands part (ps.flatMap Piece.chars) cs) :=
      h.reads fun q hq => hw q (List.mem_cons_of_mem _ hq)
    cases p with
    | item i =>
      obtain ⟨a, b, caps, rfl, hr, hb⟩ :=
        @readsItems part _ [i] (List.forall_mem_singleton.mpr hp) _ (by simpa [Piece.chars] using h)
      obtain ⟨caps', hrest⟩ := ih hb
      exact ⟨_, .taken part (.item i) hr hrest⟩
    | optional items =>
      have hsection := isSection_of_fitsAt hp.1
      rw [hp.2] at hsection
      rcases of_optional hsection (by simpa [Piece.chars] using h) with ⟨a, b, rfl, ha, hb⟩ | hb
      · rw [← List.append_nil (items.flatMap Item.chars)] at ha
        obtain ⟨a, b', caps, rfl, hr, hnil⟩ := readsItems (fun i hi => (hp.1 i hi).outside) ha
        cases hnil
        obtain ⟨caps', hrest⟩ := ih hb
        rw [List.append_nil]
        exact ⟨_, .taken part (.optional items) hr hrest⟩
      · obtain ⟨caps, hrest⟩ := ih hb
        exact ⟨_, .dropped part items hrest⟩

theorem expands_iff_reads {text : String} {t : Template} (h : Template.parse? text = .ok t) :
    Expands part text.toList cs ↔ ∃ caps, Reads (t.pieces.map (part, ·)) cs caps := by
  obtain ⟨-, hchars, hw⟩ := Template.parse?_eq_ok h
  rw [← hchars]
  exact ⟨fun h => h.reads hw, fun ⟨_, hr⟩ => hr.expands hw⟩

/-! ### Paths -/

theorem templates_of_ofTemplates? {directory fileName : String} {d : Drs}
    (h : ofTemplates? directory fileName = .ok d) :
    List.Forall₂ (fun segment t => Template.parse? segment = .ok t)
      (Text.splitAt '/' (trimSlashes directory)) d.directory ∧
    Template.parse? fileName = .ok d.fileName := by
  obtain ⟨segments, hd, h⟩ := Except.bind_eq_ok.mp h
  split at h
  · cases h
  · obtain ⟨t, ht, h⟩ := Except.bind_eq_ok.mp h
    obtain rfl := Except.pure_eq_ok.mp h
    exact ⟨Except.mapM_eq_ok.mp hd, ht⟩

theorem joinPieces_concat (last : List Char) : ∀ names : List (List Char),
    Path.joinPieces (names ++ [last]) = names.flatMap (· ++ ['/']) ++ last
  | [] => rfl
  | [name] => by simp [Path.joinPieces]
  | name :: name' :: names => by
    have ih := joinPieces_concat last (name' :: names)
    rw [List.cons_append] at ih
    simp [Path.joinPieces, ih]

theorem exists_reads_directory_iff {segments : List String} {ts : List Template}
    (h : List.Forall₂ (fun segment t => Template.parse? segment = .ok t) segments ts) :
    ∀ {cs : List Char}, (∃ caps, Reads (directoryPattern ts) cs caps) ↔
      ∃ names, List.Forall₂ (fun segment name => Expands .directory segment.toList name)
        segments names ∧ cs = names.flatMap (· ++ ['/']) := by
  induction h with
  | nil =>
    refine fun {cs} => ⟨fun ⟨_, hr⟩ => ?_, fun ⟨names, hn, hcs⟩ => ?_⟩
    · cases hr
      exact ⟨[], .nil, rfl⟩
    · cases hn
      exact ⟨[], hcs ▸ .nil⟩
  | @cons segment t segments ts ht _ ih =>
    refine fun {cs} => ⟨fun ⟨caps, hr⟩ => ?_, fun ⟨names, hn, hcs⟩ => ?_⟩
    · obtain ⟨a, b, c, c', rfl, -, ha, hb⟩ := hr.directory_cons
      obtain ⟨names, hn, rfl⟩ := ih.mp ⟨c', hb⟩
      exact ⟨a :: names, .cons ((expands_iff_reads ht).mpr ⟨c, ha⟩) hn, by simp⟩
    · cases hn with
      | @cons _ name _ names hname hn =>
        obtain ⟨c, ha⟩ := (expands_iff_reads ht).mp hname
        obtain ⟨c', hb⟩ := ih.mpr ⟨names, hn, rfl⟩
        have hslash : ReadsItems .directory [.literal ['/']] (['/'] ++ []) [] := .literal _ .nil
        have := ha.append (.taken .directory (.item (.literal ['/'])) hslash hb)
        exact ⟨_, by simpa [directoryPattern, hcs] using this⟩

theorem language_iff_reads {directory fileName : String} {d : Drs}
    (h : ofTemplates? directory fileName = .ok d) :
    Language directory fileName cs ↔ ∃ caps, Reads d.pathPattern cs caps := by
  obtain ⟨hdirectory, hname⟩ := templates_of_ofTemplates? h
  constructor
  · rintro ⟨names, last, hn, hl, rfl⟩
    obtain ⟨c, ha⟩ := (exists_reads_directory_iff hdirectory).mpr ⟨names, hn, rfl⟩
    obtain ⟨c', hb⟩ := (expands_iff_reads hname).mp hl
    exact ⟨c ++ c', joinPieces_concat last names ▸ ha.append hb⟩
  · rintro ⟨caps, hr⟩
    obtain ⟨a, b, c, c', rfl, -, ha, hb⟩ := hr.split
    obtain ⟨names, hn, rfl⟩ := (exists_reads_directory_iff hdirectory).mp ⟨c, ha⟩
    exact ⟨names, b, hn, (expands_iff_reads hname).mpr ⟨c', hb⟩, (joinPieces_concat b names).symm⟩

theorem findEnd_isSome_iff {p : Pattern} :
    (findEnd p cs).isSome = true ↔ ∃ before rest, cs = before ++ rest ∧ AtStart before ∧
      ∃ caps, Reads p rest caps := by
  constructor
  · intro h
    obtain ⟨caps, hcaps⟩ := Option.isSome_iff_exists.mp h
    obtain ⟨before, rest, rfl, hb, hr⟩ := findEnd_sound hcaps
    exact ⟨before, rest, rfl, hb, caps, hr⟩
  · rintro ⟨before, rest, rfl, hb, caps, hr⟩
    exact findEnd_isSome_of_reads hb hr

theorem atStart_iff {before : List Char} :
    AtStart before ↔ before = [] ∨ ∃ b, before = b ++ ['/'] := by
  rw [AtStart, List.getLast?_eq_some_iff]

theorem parsePath_isOk_iff {d : Drs} {p : Path} :
    (∃ fields, d.parsePath p = .ok fields) ↔ (findEnd d.pathPattern (withSlashes p)).isSome := by
  unfold parsePath withSlashes
  split <;> simp_all

/-- A path is parsed if and only if it is in the language of the templates, or ends in a path of
this language after a slash. -/
theorem parsed_iff_language {directory fileName : String} {d : Drs}
    (h : ofTemplates? directory fileName = .ok d) (p : Path) :
    (∃ fields, d.parsePath p = .ok fields) ↔
      ∃ cs, Language directory fileName cs ∧
        (withSlashes p = cs ∨ ('/' :: cs) <:+ withSlashes p) := by
  rw [parsePath_isOk_iff, findEnd_isSome_iff]
  simp only [language_iff_reads h, atStart_iff]
  constructor
  · rintro ⟨before, rest, hcs, rfl | ⟨b, rfl⟩, hr⟩
    · exact ⟨rest, hr, .inl hcs⟩
    · exact ⟨rest, hr, .inr ⟨b, by rw [hcs]; simp⟩⟩
  · rintro ⟨rest, hr, hcs | ⟨b, hcs⟩⟩
    · exact ⟨[], rest, hcs, .inl rfl, hr⟩
    · exact ⟨b ++ ['/'], rest, by rw [← hcs]; simp, .inr ⟨b, rfl⟩, hr⟩

theorem parsed_iff_language_sample :
    ∃ d, ofTemplates? "<source_id>/v<version>/" "[<region>_]a.nc" = .ok d ∧
      (∃ cs, Language "<source_id>/v<version>/" "[<region>_]a.nc" cs ∧
        (withSlashes ⟨"d\\s1/v2/a.nc"⟩ = cs ∨ ('/' :: cs) <:+ withSlashes ⟨"d\\s1/v2/a.nc"⟩)) ∧
      ¬∃ cs, Language "<source_id>/v<version>/" "[<region>_]a.nc" cs ∧
        (withSlashes ⟨"s1/v2/a-nc"⟩ = cs ∨ ('/' :: cs) <:+ withSlashes ⟨"s1/v2/a-nc"⟩) := by
  have parsed := @parsed_iff_language "<source_id>/v<version>/" "[<region>_]a.nc" _ rfl
  refine ⟨_, rfl, (parsed ⟨"d\\s1/v2/a.nc"⟩).mp ⟨_, rfl⟩, fun h => ?_⟩
  exact Bool.false_ne_true (parsePath_isOk_iff.mp ((parsed ⟨"s1/v2/a-nc"⟩).mpr h))

end ForcingData.Drs
