import ForcingData.Drs.Basic
import ForcingData.Proofs.Drs.Reading
import ForcingData.Proofs.Runs
import Mathlib.Algebra.GroupWithZero.Nat
import Mathlib.Algebra.Order.BigOperators.Group.List
import Mathlib.Algebra.Order.Group.Nat

/-! # Templates that can be read in one way only

In a well separated pair of templates every value ends where the text says so: a directory name has
one placeholder at most, a placeholder in the file name is followed by a character that no value
has, and a section is betrayed by such a character of its own. A path then has at most one reading
(`WellSeparated.path_unique`): slashes divide the directories, and the characters that no value has
count the literals of the file name. -/

namespace ForcingData.Drs

/-! ### Readings, put together and taken apart -/

theorem ReadsItems.append {part : Part} {is js : List Item} {a b : List Char}
    {c c' : List Capture} (h : ReadsItems part is a c) (h' : ReadsItems part js b c') :
    ReadsItems part (is ++ js) (a ++ b) (c ++ c') := by
  induction h with
  | nil => exact h'
  | literal text _ ih => rw [List.append_assoc]; exact ih.literal text
  | key name hne hv _ ih => rw [List.append_assoc]; exact .key name hne hv ih

theorem ReadsItems.split {part : Part} {js : List Item} : ∀ {is : List Item} {cs : List Char}
    {caps : List Capture}, ReadsItems part (is ++ js) cs caps →
      ∃ a b c c', cs = a ++ b ∧ caps = c ++ c' ∧ ReadsItems part is a c ∧ ReadsItems part js b c'
  | [], cs, caps, h => ⟨[], cs, [], caps, rfl, rfl, .nil, h⟩
  | .literal text :: is, _, _, .literal _ h => by
    obtain ⟨a, b, c, c', rfl, rfl, ha, hb⟩ := h.split
    exact ⟨text ++ a, b, c, c', by simp, rfl, ha.literal text, hb⟩
  | .key name :: is, _, _, .key (v := v) _ hne hv h => by
    obtain ⟨a, b, c, c', rfl, rfl, ha, hb⟩ := h.split
    exact ⟨v ++ a, b, ⟨part, name, v⟩ :: c, c', by simp, rfl, .key name hne hv ha, hb⟩

theorem Reads.append {p q : Pattern} {a b : List Char} {c c' : List Capture} (h : Reads p a c)
    (h' : Reads q b c') : Reads (p ++ q) (a ++ b) (c ++ c') := by
  induction h with
  | nil => exact h'
  | taken part piece hi _ ih =>
    rw [List.append_assoc, List.append_assoc]
    exact .taken part piece hi ih
  | dropped part items _ ih => exact .dropped part items ih

theorem Reads.split {q : Pattern} : ∀ {p : Pattern} {cs : List Char} {caps : List Capture},
    Reads (p ++ q) cs caps →
      ∃ a b c c', cs = a ++ b ∧ caps = c ++ c' ∧ Reads p a c ∧ Reads q b c'
  | [], cs, caps, h => ⟨[], cs, [], caps, rfl, rfl, .nil, h⟩
  | (_, _) :: p, _, _, .taken (a := x) (c := y) part piece hi h => by
    obtain ⟨a, b, c, c', rfl, rfl, ha, hb⟩ := h.split
    exact ⟨x ++ a, b, y ++ c, c', by simp, by simp, .taken part piece hi ha, hb⟩
  | (_, .optional _) :: p, _, _, .dropped part items h => by
    obtain ⟨a, b, c, c', rfl, rfl, ha, hb⟩ := h.split
    exact ⟨a, b, c, c', rfl, rfl, .dropped part items ha, hb⟩

/-- The items that are left of the pieces, some sections being dropped. -/
inductive Chosen : List Piece → List Item → Prop
  | nil : Chosen [] []
  | taken (piece : Piece) {ps : List Piece} {is : List Item} (h : Chosen ps is) :
      Chosen (piece :: ps) (piece.items ++ is)
  | dropped (items : List Item) {ps : List Piece} {is : List Item} (h : Chosen ps is) :
      Chosen (.optional items :: ps) is

theorem Reads.chosen {part : Part} : ∀ {pieces : List Piece} {cs : List Char}
    {caps : List Capture}, Reads (pieces.map (part, ·)) cs caps →
      ∃ is, Chosen pieces is ∧ ReadsItems part is cs caps
  | [], _, _, .nil => ⟨[], .nil, .nil⟩
  | _ :: ps, _, _, .taken _ piece hi h => by
    obtain ⟨is, hc, hr⟩ := h.chosen
    exact ⟨piece.items ++ is, hc.taken piece, hi.append hr⟩
  | .optional _ :: ps, _, _, .dropped _ items h => by
    obtain ⟨is, hc, hr⟩ := h.chosen
    exact ⟨is, hc.dropped items, hr⟩

theorem Chosen.reads {part : Part} {pieces : List Piece} {is : List Item} (h : Chosen pieces is) :
    ∀ {cs : List Char} {caps : List Capture}, ReadsItems part is cs caps →
      Reads (pieces.map (part, ·)) cs caps := by
  induction h with
  | nil =>
    intro cs caps hr
    cases hr
    exact .nil
  | taken piece _ ih =>
    intro cs caps hr
    obtain ⟨a, b, c, c', rfl, rfl, ha, hb⟩ := hr.split
    exact .taken part piece ha (ih hb)
  | dropped items _ ih => exact fun hr => .dropped part items (ih hr)

/-! ### One reading of items -/

@[simp] theorem Item.key?_literal (text : List Char) : (Item.literal text).key? = none := rfl
@[simp] theorem Item.key?_key (name : String) : (Item.key name).key? = some name := rfl

/-- What the item stands for has no slash of either kind. -/
def Item.isSlashless : Item → Bool
  | .literal text => !text.contains '/' && !text.contains '\\'
  | .key _ => true

/-- How many characters of the item no value in a file name has. -/
def Item.marks : Item → Nat
  | .literal text => text.countP (!isFileNameChar ·)
  | .key _ => 0

/-- The item begins with a character that no value in a file name has. -/
def Item.isStop : Item → Bool
  | .literal (c :: _) => !isFileNameChar c
  | _ => false

/-- Every placeholder is the last item, or comes before a stop. -/
def isStopped : List Item → Bool
  | [] => true
  | .literal _ :: items => isStopped items
  | .key _ :: items => items.head?.all Item.isStop && isStopped items

theorem ReadsItems.captures {part : Part} {is : List Item} {cs : List Char}
    {caps : List Capture} (h : ReadsItems part is cs caps) :
    ∀ cap ∈ caps, cap.text ≠ [] ∧ ∀ c ∈ cap.text, cap.part.allows c = true := by
  induction h with
  | nil => exact fun _ hm => absurd hm List.not_mem_nil
  | literal text _ ih => exact ih
  | key name hne hv _ ih =>
    intro cap hcap
    rcases List.mem_cons.mp hcap with rfl | hcap
    · exact ⟨hne, hv⟩
    · exact ih cap hcap

theorem ReadsItems.notMem {part : Part} {is : List Item} {cs : List Char} {caps : List Capture}
    (h : ReadsItems part is cs caps) {x : Char} (hl : ∀ text, .literal text ∈ is → x ∉ text)
    (hc : ∀ cap ∈ caps, x ∉ cap.text) : x ∉ cs := by
  induction h with
  | nil => exact List.not_mem_nil
  | literal text _ ih =>
    rw [List.mem_append, not_or]
    exact ⟨hl text (List.mem_cons_self ..),
      ih (fun t ht => hl t (List.mem_cons_of_mem _ ht)) hc⟩
  | key name _ _ _ ih =>
    rw [List.mem_append, not_or]
    exact ⟨hc _ (List.mem_cons_self ..), ih (fun t ht => hl t (List.mem_cons_of_mem _ ht))
      fun cap hcap => hc cap (List.mem_cons_of_mem _ hcap)⟩

theorem Item.notMem_of_isSlashless {text : List Char}
    (h : (Item.literal text).isSlashless = true) : '/' ∉ text ∧ '\\' ∉ text := by
  simpa [Item.isSlashless] using h

theorem ReadsItems.notMem_slash {part : Part} {is : List Item} {cs : List Char}
    {caps : List Capture} (h : ReadsItems part is cs caps) (hs : ∀ i ∈ is, i.isSlashless = true) :
    '/' ∉ cs := by
  refine h.notMem (fun text ht => (Item.notMem_of_isSlashless (hs _ ht)).1) fun cap hcap hm => ?_
  have := (h.captures cap hcap).2 _ hm
  revert this
  cases cap.part <;> decide

theorem ReadsItems.eq_of_no_key {part : Part} {is : List Item} {cs : List Char}
    {caps : List Capture} (h : ReadsItems part is cs caps) (hk : is.filterMap Item.key? = []) :
    cs = is.flatMap Item.chars ∧ caps = [] := by
  induction h with
  | nil => exact ⟨rfl, rfl⟩
  | literal text _ ih =>
    obtain ⟨rfl, rfl⟩ := ih (by simpa using hk)
    exact ⟨by simp [Item.chars], rfl⟩
  | key name => simp at hk

theorem ReadsItems.unique_of_one_key {part : Part} {is : List Item} {cs : List Char}
    {c c' : List Capture} (hk : (is.filterMap Item.key?).length ≤ 1)
    (h : ReadsItems part is cs c) (h' : ReadsItems part is cs c') : c = c' := by
  induction h generalizing c' with
  | nil => cases h'; rfl
  | literal text _ ih =>
    generalize ht : text ++ _ = whole at h'
    cases h' with
    | literal _ h' =>
      rw [List.append_cancel_left ht] at ih
      exact ih (by rwa [List.filterMap_cons_none (Item.key?_literal text)] at hk) h'
  | @key name v _ _ items cs _ h _ =>
    generalize ht : v ++ cs = whole at h'
    cases h' with
    | key _ _ _ h' =>
      have hk : items.filterMap Item.key? = [] := by
        rw [List.filterMap_cons_some (Item.key?_key name), List.length_cons] at hk
        exact List.eq_nil_of_length_eq_zero (by omega)
      obtain ⟨rfl, rfl⟩ := h.eq_of_no_key hk
      obtain ⟨rfl, rfl⟩ := h'.eq_of_no_key hk
      rw [List.append_cancel_right ht]

theorem ReadsItems.head?_of_isStop {part : Part} {is : List Item} {cs : List Char}
    {caps : List Capture} (h : ReadsItems part is cs caps) (hs : is.head?.all Item.isStop = true) :
    cs.head?.all (!isFileNameChar ·) = true := by
  cases h with
  | nil => rfl
  | literal text =>
    cases text with
    | nil => simp [Item.isStop] at hs
    | cons c text => simpa [Item.isStop] using hs
  | key => simp [Item.isStop] at hs

theorem ReadsItems.unique_of_isStopped {is : List Item} {cs : List Char} {c c' : List Capture}
    (hs : isStopped is = true) (h : ReadsItems .fileName is cs c)
    (h' : ReadsItems .fileName is cs c') : c = c' := by
  induction h generalizing c' with
  | nil => cases h'; rfl
  | literal text _ ih =>
    generalize ht : text ++ _ = whole at h'
    cases h' with
    | literal _ h' =>
      rw [List.append_cancel_left ht] at ih
      exact ih hs h'
  | @key name v _ hv items cs _ h ih =>
    generalize ht : v ++ cs = whole at h'
    cases h' with
    | key _ _ hv' h' =>
      simp only [isStopped, Bool.and_eq_true] at hs
      obtain ⟨rfl, rfl⟩ := run_unique hv hv' (h.head?_of_isStop hs.1) (h'.head?_of_isStop hs.1) ht
      rw [ih hs.2 h']

theorem ReadsItems.countP_marks {is : List Item} {cs : List Char} {caps : List Capture}
    (h : ReadsItems .fileName is cs caps) :
    cs.countP (!isFileNameChar ·) = (is.map Item.marks).sum := by
  induction h with
  | nil => rfl
  | literal text _ ih => simp [Item.marks, ih]
  | @key name v _ hv _ _ _ _ ih =>
    have hz : v.countP (!isFileNameChar ·) = 0 :=
      List.countP_eq_zero.mpr fun c hc => by simpa [Part.allows] using hv c hc
    simp [Item.marks, ih, hz]

/-! ### Characters of a reading -/

theorem Reads.captures {p : Pattern} {cs : List Char} {caps : List Capture}
    (h : Reads p cs caps) :
    ∀ cap ∈ caps, cap.text ≠ [] ∧ ∀ c ∈ cap.text, cap.part.allows c = true := by
  induction h with
  | nil => exact fun _ hm => absurd hm List.not_mem_nil
  | taken part piece hi _ ih =>
    intro cap hcap
    rcases List.mem_append.mp hcap with hcap | hcap
    · exact hi.captures cap hcap
    · exact ih cap hcap
  | dropped _ _ _ ih => exact ih

theorem Reads.notMem {p : Pattern} {cs : List Char} {caps : List Capture} (h : Reads p cs caps)
    {x : Char} (hl : ∀ q ∈ p, ∀ text, .literal text ∈ q.2.items → x ∉ text)
    (hc : ∀ cap ∈ caps, x ∉ cap.text) : x ∉ cs := by
  induction h with
  | nil => exact List.not_mem_nil
  | taken part piece hi _ ih =>
    rw [List.mem_append, not_or]
    exact ⟨hi.notMem (hl _ (List.mem_cons_self ..))
        fun cap hcap => hc cap (List.mem_append_left _ hcap),
      ih (fun q hq => hl q (List.mem_cons_of_mem _ hq))
        fun cap hcap => hc cap (List.mem_append_right _ hcap)⟩
  | dropped _ _ _ ih => exact ih (fun q hq => hl q (List.mem_cons_of_mem _ hq)) hc

/-! ### One reading of a file name -/

/-- All items of the pieces. -/
def keptItems (pieces : List Piece) : List Item := pieces.flatMap Piece.items

/-- The items outside of sections. -/
def droppedItems (pieces : List Piece) : List Item :=
  pieces.flatMap fun p => if p.isOptional then [] else p.items

theorem droppedItems_eq_keptItems {pieces : List Piece}
    (h : ∀ p ∈ pieces, p.isOptional = false) : droppedItems pieces = keptItems pieces := by
  refine List.flatMap_congr fun p hp => ?_
  simp [h p hp]

theorem Chosen.mem_keptItems {pieces : List Piece} {is : List Item} (hc : Chosen pieces is)
    {i : Item} (hi : i ∈ is) : i ∈ keptItems pieces := by
  induction hc with
  | nil => exact hi
  | taken piece _ ih =>
    rcases List.mem_append.mp hi with hi | hi
    · exact List.mem_append_left _ hi
    · exact List.mem_append_right _ (ih hi)
  | dropped items _ ih => exact List.mem_append_right _ (ih hi)

theorem Chosen.eq_keptItems {pieces : List Piece} {is : List Item} (hc : Chosen pieces is)
    (h : ∀ p ∈ pieces, p.isOptional = false) : is = keptItems pieces := by
  induction hc with
  | nil => rfl
  | taken piece _ ih =>
    rw [ih fun p hp => h p (List.mem_cons_of_mem _ hp)]
    rfl
  | dropped items => exact absurd (h _ (List.mem_cons_self ..)) (by simp [Piece.isOptional])

/-- With one section at most there are two choices. -/
theorem Chosen.eq_kept_or_dropped {pieces : List Piece} {is : List Item} (hc : Chosen pieces is)
    (h : pieces.countP Piece.isOptional ≤ 1) :
    is = keptItems pieces ∨ is = droppedItems pieces := by
  have none_left {items : List Item} {ps : List Piece}
      (hle : (Piece.optional items :: ps).countP Piece.isOptional ≤ 1) :
      ∀ p ∈ ps, p.isOptional = false := by
    rw [List.countP_cons_of_pos (by rfl)] at hle
    simpa using List.countP_eq_zero.mp (Nat.le_zero.mp (Nat.le_of_succ_le_succ hle))
  induction hc with
  | nil => exact .inl rfl
  | @taken piece ps is hc ih =>
    cases piece with
    | item i =>
      rcases ih (by simpa [Piece.isOptional] using h) with rfl | rfl
      · exact .inl rfl
      · exact .inr rfl
    | optional items =>
      rw [hc.eq_keptItems (none_left h)]
      exact .inl rfl
  | dropped items hc ih =>
    rw [hc.eq_keptItems (none_left h), ← droppedItems_eq_keptItems (none_left h)]
    exact .inr rfl

/-- Where there is one section at most, there is none before or after it. -/
theorem exists_only_section {pieces : List Piece} (h : pieces.countP Piece.isOptional ≤ 1)
    {items : List Item} (hp : .optional items ∈ pieces) : ∃ ps qs,
      pieces = ps ++ .optional items :: qs ∧ (∀ p ∈ ps, p.isOptional = false) ∧
        ∀ p ∈ qs, p.isOptional = false := by
  obtain ⟨ps, qs, rfl⟩ := List.append_of_mem hp
  rw [List.countP_append, List.countP_cons_of_pos (by rfl)] at h
  have hps : ps.countP Piece.isOptional = 0 := by omega
  have hqs : qs.countP Piece.isOptional = 0 := by omega
  exact ⟨ps, qs, rfl, by simpa using List.countP_eq_zero.mp hps,
    by simpa using List.countP_eq_zero.mp hqs⟩

/-- A section with marks makes itself known. -/
theorem marks_droppedItems_lt {pieces : List Piece}
    (hm : ∀ p ∈ pieces, p.isOptional = true → 0 < (p.items.map Item.marks).sum)
    {p : Piece} (hp : p ∈ pieces) (ho : p.isOptional = true) :
    ((droppedItems pieces).map Item.marks).sum < ((keptItems pieces).map Item.marks).sum := by
  have le (ps : List Piece) :
      ((droppedItems ps).map Item.marks).sum ≤ ((keptItems ps).map Item.marks).sum := by
    induction ps with
    | nil => exact Nat.le_refl _
    | cons q ps ih =>
      simp only [droppedItems, keptItems, List.flatMap_cons, List.map_append,
        List.sum_append] at ih ⊢
      split <;> simp <;> omega
  obtain ⟨before, after, rfl⟩ := List.append_of_mem hp
  have hlt := hm p hp ho
  have hb := le before
  have ha := le after
  simp only [droppedItems, keptItems, List.flatMap_append, List.flatMap_cons, List.map_append,
    List.sum_append, ho, if_true] at hb ha ⊢
  simp only [List.map_nil, List.sum_nil]
  omega

/-! ### One reading of directories -/

theorem Reads.of_no_section {part : Part} {pieces : List Piece} {cs : List Char}
    {caps : List Capture} (h : Reads (pieces.map (part, ·)) cs caps)
    (ho : ∀ p ∈ pieces, p.isOptional = false) : ReadsItems part (keptItems pieces) cs caps := by
  obtain ⟨is, hc, hr⟩ := h.chosen
  rwa [hc.eq_keptItems ho] at hr

theorem Reads.directory_cons {t : Template} {ts : List Template} {cs : List Char}
    {caps : List Capture} (h : Reads (directoryPattern (t :: ts)) cs caps) :
    ∃ a b c c', cs = a ++ '/' :: b ∧ caps = c ++ c' ∧
      Reads (t.pieces.map (.directory, ·)) a c ∧ Reads (directoryPattern ts) b c' := by
  obtain ⟨a, x, c, y, rfl, rfl, ha, hx⟩ := h.split
  cases hx with
  | taken _ _ hslash hb =>
    cases hslash with
    | literal text hnil =>
      cases hnil
      exact ⟨a, _, c, _, by simp, by simp, ha, hb⟩

theorem mem_directoryPattern : ∀ {ts : List Template} {q : Part × Piece},
    q ∈ directoryPattern ts →
      (∃ t ∈ ts, q.2 ∈ t.pieces) ∨ q.2 = .item (.literal ['/'])
  | t :: ts, q, h => by
    rw [directoryPattern, List.mem_append, List.mem_cons] at h
    rcases h with h | rfl | h
    · obtain ⟨p, hp, rfl⟩ := List.mem_map.mp h
      exact .inl ⟨t, List.mem_cons_self .., hp⟩
    · exact .inr rfl
    · exact (mem_directoryPattern h).imp_left fun ⟨u, hu, hq⟩ =>
        ⟨u, List.mem_cons_of_mem _ hu, hq⟩

/-- A directory name that holds no slash, and one value at most. -/
structure Template.IsSegment (t : Template) : Prop where
  no_section : ∀ p ∈ t.pieces, p.isOptional = false
  slashless : ∀ i ∈ keptItems t.pieces, i.isSlashless = true
  one_key : t.keys.length ≤ 1

theorem Template.IsSegment.notMem_slash {t : Template} (ht : t.IsSegment) {cs : List Char}
    {caps : List Capture} (h : Reads (t.pieces.map (.directory, ·)) cs caps) : '/' ∉ cs :=
  (h.of_no_section ht.no_section).notMem_slash ht.slashless

theorem Template.IsSegment.unique {t : Template} (ht : t.IsSegment) {cs : List Char}
    {c c' : List Capture} (h : Reads (t.pieces.map (.directory, ·)) cs c)
    (h' : Reads (t.pieces.map (.directory, ·)) cs c') : c = c' :=
  (h.of_no_section ht.no_section).unique_of_one_key ht.one_key (h'.of_no_section ht.no_section)

theorem Reads.count_slash {ts : List Template} (hts : ∀ t ∈ ts, t.IsSegment) {cs : List Char}
    {caps : List Capture} (h : Reads (directoryPattern ts) cs caps) :
    cs.count '/' = ts.length := by
  induction ts generalizing cs caps with
  | nil => cases h; rfl
  | cons t ts ih =>
    obtain ⟨a, b, c, c', rfl, rfl, ha, hb⟩ := h.directory_cons
    have hz := List.count_eq_zero.mpr ((hts t (List.mem_cons_self ..)).notMem_slash ha)
    rw [List.count_append, List.count_cons_self, hz,
      ih (fun u hu => hts u (List.mem_cons_of_mem _ hu)) hb, List.length_cons]
    omega

theorem Reads.directory_unique {ts : List Template} (hts : ∀ t ∈ ts, t.IsSegment)
    {cs cs' rest rest' : List Char} {c c' : List Capture} (h : Reads (directoryPattern ts) cs c)
    (h' : Reads (directoryPattern ts) cs' c') (heq : cs ++ rest = cs' ++ rest') :
    c = c' ∧ rest = rest' := by
  induction ts generalizing cs cs' c c' with
  | nil => cases h; cases h'; exact ⟨rfl, heq⟩
  | cons t ts ih =>
    have ht := hts t (List.mem_cons_self ..)
    obtain ⟨a, b, c₁, c₂, rfl, rfl, ha, hb⟩ := h.directory_cons
    obtain ⟨a', b', c₁', c₂', rfl, rfl, ha', hb'⟩ := h'.directory_cons
    simp only [List.append_assoc, List.cons_append] at heq
    obtain ⟨rfl, htail⟩ := first_unique (ht.notMem_slash ha) (ht.notMem_slash ha') heq
    obtain ⟨rfl, hrest⟩ := ih (fun u hu => hts u (List.mem_cons_of_mem _ hu)) hb hb' htail
    exact ⟨by rw [ht.unique ha ha'], hrest⟩

/-- Every value in a path of these templates has its end where the text says so. -/
structure WellSeparated (d : Drs) : Prop where
  slashless : ∀ t ∈ d.fileName :: d.directory, ∀ i ∈ keptItems t.pieces, i.isSlashless = true
  nonempty : ∀ t ∈ d.directory, t.text ≠ ""
  one_key : ∀ t ∈ d.directory, t.keys.length ≤ 1
  one_section : d.fileName.pieces.countP Piece.isOptional ≤ 1
  section_marked : ∀ p ∈ d.fileName.pieces, p.isOptional = true → ∃ i ∈ p.items, 0 < i.marks
  kept : isStopped (keptItems d.fileName.pieces) = true
  dropped : isStopped (droppedItems d.fileName.pieces) = true

namespace WellSeparated
variable {d : Drs}

theorem fileName_slashless (h : d.WellSeparated) {is : List Item}
    (hc : Chosen d.fileName.pieces is) : ∀ i ∈ is, i.isSlashless = true :=
  fun i hi => h.slashless _ (List.mem_cons_self ..) i (hc.mem_keptItems hi)

theorem notMem_slash (h : d.WellSeparated) {cs : List Char} {caps : List Capture}
    (hr : Reads d.fileNamePattern cs caps) : '/' ∉ cs := by
  obtain ⟨is, hc, hi⟩ := hr.chosen
  exact hi.notMem_slash (h.fileName_slashless hc)

theorem notMem_backslash (h : d.WellSeparated) {cs : List Char} {caps : List Capture}
    (hr : Reads d.pathPattern cs caps) (hc : ∀ cap ∈ caps, '\\' ∉ cap.text) : '\\' ∉ cs := by
  have literal {t : Template} (ht : t ∈ d.fileName :: d.directory) {p : Piece}
      (hp : p ∈ t.pieces) {text : List Char} (hi : .literal text ∈ p.items) : '\\' ∉ text :=
    (Item.notMem_of_isSlashless
      (h.slashless t ht _ (List.mem_flatMap.mpr ⟨p, hp, hi⟩))).2
  refine hr.notMem (fun q hq text hi => ?_) hc
  rcases List.mem_append.mp hq with hq | hq
  · rcases mem_directoryPattern hq with ⟨t, ht, hp⟩ | hslash
    · exact literal (List.mem_cons_of_mem _ ht) hp hi
    · rw [hslash] at hi
      obtain rfl : text = ['/'] := by simpa [Piece.items] using hi
      decide
  · obtain ⟨p, hp, rfl⟩ := List.mem_map.mp hq
    exact literal (List.mem_cons_self ..) hp hi

theorem fileName_unique (h : d.WellSeparated) {cs : List Char} {c c' : List Capture}
    (hr : Reads d.fileNamePattern cs c) (hr' : Reads d.fileNamePattern cs c') : c = c' := by
  obtain ⟨is, hc, hi⟩ := hr.chosen
  obtain ⟨is', hc', hi'⟩ := hr'.chosen
  -- both readings have as many marks as the text, so they agree on the section
  have hmarks : (is.map Item.marks).sum = (is'.map Item.marks).sum := by
    rw [← hi.countP_marks, hi'.countP_marks]
  have same : keptItems d.fileName.pieces = droppedItems d.fileName.pieces ∨
      ((droppedItems d.fileName.pieces).map Item.marks).sum <
        ((keptItems d.fileName.pieces).map Item.marks).sum := by
    by_cases ho : ∃ p ∈ d.fileName.pieces, p.isOptional = true
    · obtain ⟨p, hp, ho⟩ := ho
      refine .inr (marks_droppedItems_lt (fun q hq hqo => ?_) hp ho)
      obtain ⟨i, hi, hpos⟩ := h.section_marked q hq hqo
      exact Nat.lt_of_lt_of_le hpos (List.le_sum_of_mem (List.mem_map_of_mem hi))
    · refine .inl (droppedItems_eq_keptItems fun p hp => ?_).symm
      simpa using fun hpo => ho ⟨p, hp, hpo⟩
  have heq : is = is' := by
    rcases hc.eq_kept_or_dropped h.one_section with rfl | rfl <;>
      rcases hc'.eq_kept_or_dropped h.one_section with rfl | rfl
    · rfl
    · exact same.resolve_right (by omega)
    · exact (same.resolve_right (by omega)).symm
    · rfl
  subst heq
  rcases hc.eq_kept_or_dropped h.one_section with rfl | rfl
  · exact hi.unique_of_isStopped h.kept hi'
  · exact hi.unique_of_isStopped h.dropped hi'

theorem isSegment (h : d.WellSeparated)
    (ho : ∀ t ∈ d.directory, ∀ p ∈ t.pieces, p.isOptional = false) :
    ∀ t ∈ d.directory, t.IsSegment := fun t ht =>
  ⟨ho t ht, h.slashless t (List.mem_cons_of_mem _ ht), h.one_key t ht⟩

/-- However a path is cut, at most one of its ends can be read, and only in one way. -/
theorem path_unique (h : d.WellSeparated)
    (ho : ∀ t ∈ d.directory, ∀ p ∈ t.pieces, p.isOptional = false)
    {before before' cs cs' : List Char} (hb : AtStart before) (hb' : AtStart before')
    {c c' : List Capture} (hr : Reads d.pathPattern cs c) (hr' : Reads d.pathPattern cs' c')
    (heq : before ++ cs = before' ++ cs') : c = c' := by
  have hts := h.isSegment ho
  have count {cs : List Char} {c : List Capture} (hr : Reads d.pathPattern cs c) :
      cs.count '/' = d.directory.length := by
    obtain ⟨a, b, c, c', rfl, rfl, ha, hb⟩ := hr.split
    rw [List.count_append, ha.count_slash hts, List.count_eq_zero.mpr (h.notMem_slash hb)]
    rfl
  -- the shorter of two ends would have a slash less
  have longer {x y z : List Char} (hx : AtStart (x ++ y)) (hc : (y ++ z).count '/' = z.count '/') :
      y = [] := by
    by_contra hne
    rcases hx with hx | hx
    · exact hne (List.append_eq_nil_iff.mp hx).2
    · rw [List.getLast?_append_of_ne_nil _ hne] at hx
      have := List.count_pos_iff.mpr (List.mem_of_getLast? hx)
      rw [List.count_append] at hc
      omega
  have hcs : cs = cs' := by
    rcases List.append_eq_append_iff.mp heq with ⟨y, rfl, rfl⟩ | ⟨y, rfl, rfl⟩
    · rw [longer hb' ((count hr).trans (count hr').symm)]
      rfl
    · rw [longer hb ((count hr').trans (count hr).symm)]
      rfl
  subst hcs
  obtain ⟨a, b, c₁, c₂, rfl, rfl, ha, hf⟩ := hr.split
  obtain ⟨a', b', c₁', c₂', heq, rfl, ha', hf'⟩ := hr'.split
  obtain ⟨rfl, rfl⟩ := ha.directory_unique hts ha' heq
  rw [h.fileName_unique hf hf']

/-- The one reading there is is the one that is found. -/
theorem findEnd_eq_some (h : d.WellSeparated)
    (ho : ∀ t ∈ d.directory, ∀ p ∈ t.pieces, p.isOptional = false) {before cs : List Char}
    (hb : AtStart before) {caps : List Capture} (hr : Reads d.pathPattern cs caps) :
    findEnd d.pathPattern (before ++ cs) = some caps := by
  obtain ⟨found, hfound⟩ := Option.isSome_iff_exists.mp (findEnd_isSome_of_reads hb hr)
  obtain ⟨before', cs', heq, hb', hr'⟩ := findEnd_sound hfound
  rw [hfound, h.path_unique ho hb hb' hr hr' heq]

end WellSeparated
end ForcingData.Drs
