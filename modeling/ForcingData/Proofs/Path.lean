import ForcingData.Path
import Mathlib.Data.List.Basic

/-! # Joining paths

A relative path is put after a slash, and there is one slash only where the paths meet. -/

namespace ForcingData.Path
open Text

theorem isAbsolute_iff {p : Path} : p.isAbsolute = true ↔ p.text.toList.head? = some '/' := by
  simp [isAbsolute]

/-- Does a path that is joined to this one follow without a slash being put between? -/
def IsOpen (p : Path) : Prop := p.text = "" ∨ p.text.toList.getLast? = some '/'

theorem join_of_isOpen {p q : Path} (hq : q.isAbsolute = false) (hp : p.IsOpen) :
    (p.join q).text.toList = p.text.toList ++ q.text.toList := by
  have hc : (p.text = "" || p.text.toList.getLast? = some '/') = true := by
    simpa [IsOpen] using hp
  rw [join, if_neg (by simp [hq]), if_pos hc, String.toList_append]

theorem join_of_not_isOpen {p q : Path} (hq : q.isAbsolute = false) (hp : ¬p.IsOpen) :
    (p.join q).text.toList = p.text.toList ++ '/' :: q.text.toList := by
  have hc : ¬(p.text = "" || p.text.toList.getLast? = some '/') = true := by
    simpa [IsOpen] using hp
  rw [join, if_neg (by simp [hq]), if_neg hc, String.toList_append, String.toList_append]
  simp

theorem exists_join {q : Path} (hq : q.isAbsolute = false) (p : Path) :
    ∃ before, (before = [] ∨ before.getLast? = some '/') ∧
      (p.join q).text.toList = before ++ q.text.toList := by
  by_cases hp : p.IsOpen
  · refine ⟨p.text.toList, ?_, join_of_isOpen hq hp⟩
    exact hp.imp (fun h => by rw [h]; rfl) id
  · exact ⟨p.text.toList ++ ['/'], .inr (by simp), by simp [join_of_not_isOpen hq hp]⟩

/-- The name of a file or directory. -/
def IsName (s : String) : Prop := s ≠ "" ∧ '/' ∉ s.toList

instance : DecidablePred IsName := fun s => inferInstanceAs (Decidable (s ≠ "" ∧ '/' ∉ s.toList))

theorem not_isAbsolute_mk {s : String} (h : '/' ∉ s.toList) : (Path.mk s).isAbsolute = false := by
  rw [Bool.eq_false_iff, Ne, isAbsolute_iff]
  exact fun he => h (List.mem_of_mem_head? he)

theorem not_isOpen_of_getLast? {p : Path} {c : Char} (h : p.text.toList.getLast? = some c)
    (hc : c ≠ '/') : ¬p.IsOpen := by
  rintro (he | he)
  · rw [he] at h; simp at h
  · rw [he] at h; exact hc (Option.some.inj h).symm

theorem IsName.not_isOpen {s : String} (h : IsName s) {p : Path} (before : List Char)
    (hp : p.text.toList = before ++ s.toList) : ¬p.IsOpen := by
  have hne : s.toList ≠ [] := fun he => h.1 (String.toList_eq_nil_iff.mp he)
  obtain ⟨c, hc⟩ := Option.isSome_iff_exists.mp (List.getLast?_isSome.mpr hne)
  refine not_isOpen_of_getLast? (c := c) ?_ ?_
  · rw [hp, List.getLast?_append_of_ne_nil _ hne, hc]
  · rintro rfl
    exact h.2 (List.mem_of_getLast? hc)

/-- Names joined one after the other, to a path that does not end in a slash. -/
theorem foldl_join : ∀ {names : List String} {p : Path}, (∀ s ∈ names, IsName s) → ¬p.IsOpen →
    ¬(names.foldl (fun (path : Path) s => path.join ⟨s⟩) p).IsOpen ∧
      (names.foldl (fun (path : Path) s => path.join ⟨s⟩) p).text.toList =
        p.text.toList ++ names.flatMap fun s => '/' :: s.toList
  | [], p, _, hp => ⟨hp, by simp⟩
  | s :: names, p, h, hp => by
    have hs := h s (List.mem_cons_self ..)
    have hj := join_of_not_isOpen (not_isAbsolute_mk hs.2) hp
    have ih := foldl_join (p := p.join ⟨s⟩) (fun t ht => h t (List.mem_cons_of_mem _ ht))
      (hs.not_isOpen (p.text.toList ++ ['/']) (by simp [hj]))
    refine ⟨ih.1, ?_⟩
    rw [List.foldl_cons, ih.2, hj]
    simp

/-- A relative path made of names, each with a slash after it. -/
theorem foldl_join_empty {names : List String} (hne : names ≠ []) (h : ∀ s ∈ names, IsName s) :
    ¬(names.foldl (fun (path : Path) s => path.join ⟨s⟩) ⟨""⟩).IsOpen ∧
      (names.foldl (fun (path : Path) s => path.join ⟨s⟩) ⟨""⟩).text.toList ++ ['/'] =
        names.flatMap fun s => s.toList ++ ['/'] := by
  obtain ⟨s, names, rfl⟩ := List.exists_cons_of_ne_nil hne
  have hs := h s (List.mem_cons_self ..)
  have hfirst : (Path.mk "").join ⟨s⟩ = ⟨s⟩ := by
    simp [join, not_isAbsolute_mk hs.2]
  rw [List.foldl_cons, hfirst]
  obtain ⟨hopen, htext⟩ := foldl_join (p := ⟨s⟩) (fun t ht => h t (List.mem_cons_of_mem _ ht))
    (hs.not_isOpen [] rfl)
  refine ⟨hopen, ?_⟩
  have shift : ∀ (first : List Char) (l : List String),
      first ++ l.flatMap (fun t => '/' :: t.toList) ++ ['/'] =
        first ++ '/' :: l.flatMap fun t => t.toList ++ ['/'] := by
    intro first l
    induction l generalizing first with
    | nil => simp
    | cons t l ih => simpa using ih (first ++ '/' :: t.toList)
  rw [htext, shift, List.flatMap_cons]
  simp

/-! ### Pieces -/

theorem splitChars_append_cons {p : Char → Bool} {c : Char} (hc : p c = true) (b : List Char) :
    ∀ a : List Char, splitChars p (a ++ c :: b) = splitChars p a ++ splitChars p b
  | [] => by
    show splitChars p (c :: b) = [] :: splitChars p b
    rw [splitChars, if_pos hc]
  | x :: a => by
    have ih := splitChars_append_cons hc b a
    rw [List.cons_append, splitChars, splitChars, ih]
    split
    · rfl
    · obtain ⟨piece, pieces, hp⟩ := List.exists_cons_of_ne_nil (splitChars_ne_nil p a)
      rw [hp]
      rfl

theorem splitChars_of_forall {p : Char → Bool} : ∀ {cs : List Char},
    (∀ c ∈ cs, p c = false) → splitChars p cs = [cs]
  | [], _ => rfl
  | c :: cs, h => by
    rw [splitChars, if_neg (by simp [h c (List.mem_cons_self ..)]),
      splitChars_of_forall fun d hd => h d (List.mem_cons_of_mem _ hd)]

/-- Pieces that are joined are cut apart again. -/
theorem splitChars_intercalate {p : Char → Bool} {sep : Char} (hsep : p sep = true) :
    ∀ {pieces : List (List Char)}, pieces ≠ [] →
      (∀ piece ∈ pieces, ∀ c ∈ piece, p c = false) →
      splitChars p ([sep].intercalate pieces) = pieces
  | [piece], _, h => by
    rw [List.intercalate_singleton, splitChars_of_forall (List.forall_mem_singleton.mp h)]
  | piece :: next :: pieces, _, h => by
    have ⟨hpiece, hnext⟩ := List.forall_mem_cons.mp h
    rw [List.intercalate_cons_cons, List.append_assoc, List.singleton_append,
      splitChars_append_cons hsep, splitChars_of_forall hpiece,
      splitChars_intercalate hsep (List.cons_ne_nil _ _) hnext, List.singleton_append]

theorem joinPieces_splitChars : ∀ cs : List Char, joinPieces (splitChars (· == '/') cs) = cs
  | [] => rfl
  | c :: cs => by
    have ih := joinPieces_splitChars cs
    obtain ⟨piece, pieces, hpieces⟩ :=
      List.exists_cons_of_ne_nil (splitChars_ne_nil (· == '/') cs)
    rw [splitChars]
    rw [hpieces] at ih ⊢
    split
    · rename_i hc
      rw [joinPieces, ih, List.nil_append, beq_iff_eq.mp hc]
      simp
    · cases pieces with
      | nil => exact congrArg (c :: ·) ih
      | cons _ _ => exact congrArg (c :: ·) ih

theorem getLast?_of_splitChars {p : Char → Bool} : ∀ {cs : List Char},
    (splitChars p cs).getLast? = some [] → cs ≠ [] → ∃ c, cs.getLast? = some c ∧ p c = true
  | [], _, hne => absurd rfl hne
  | c :: cs, h, _ => by
    obtain ⟨piece, pieces, hpieces⟩ := List.exists_cons_of_ne_nil (splitChars_ne_nil p cs)
    rw [splitChars, hpieces] at h
    have hrest (hlast : (splitChars p cs).getLast? = some []) (hcs : cs ≠ []) :
        ∃ d, (c :: cs).getLast? = some d ∧ p d = true := by
      obtain ⟨d, hd, hp⟩ := getLast?_of_splitChars hlast hcs
      exact ⟨d, by rw [List.getLast?_cons, hd, Option.getD_some], hp⟩
    split at h
    · rename_i hc
      by_cases hcs : cs = []
      · exact ⟨c, by rw [hcs]; rfl, hc⟩
      · exact hrest (by rwa [List.getLast?_cons_cons, ← hpieces] at h) hcs
    · cases pieces with
      | nil => cases h
      | cons next pieces =>
        rw [List.getLast?_cons_cons, ← List.getLast?_cons_cons, ← hpieces] at h
        refine hrest h ?_
        rintro rfl
        cases hpieces

theorem eq_false_of_mem_splitChars {p : Char → Bool} : ∀ {cs piece : List Char},
    piece ∈ splitChars p cs → ∀ c ∈ piece, p c = false
  | [], _, h => by
    obtain rfl := List.mem_singleton.mp h
    exact fun _ hc => absurd hc List.not_mem_nil
  | c :: cs, piece, h => by
    have ih : ∀ piece ∈ splitChars p cs, ∀ d ∈ piece, p d = false := fun _ =>
      eq_false_of_mem_splitChars
    obtain ⟨first, pieces, hpieces⟩ := List.exists_cons_of_ne_nil (splitChars_ne_nil p cs)
    rw [hpieces] at ih
    rw [splitChars, hpieces] at h
    split at h
    · rcases List.mem_cons.mp h with rfl | h
      · exact fun _ hd => absurd hd List.not_mem_nil
      · exact ih piece h
    · rename_i hc
      rcases List.mem_cons.mp h with rfl | h
      · exact List.forall_mem_cons.mpr ⟨Bool.eq_false_iff.mpr hc, ih first (List.mem_cons_self ..)⟩
      · exact ih piece (List.mem_cons_of_mem _ h)

theorem mem_of_mem_splitChars {p : Char → Bool} : ∀ {cs piece : List Char},
    piece ∈ splitChars p cs → ∀ c ∈ piece, c ∈ cs
  | [], _, h => by
    obtain rfl := List.mem_singleton.mp h
    exact fun _ hc => hc
  | c :: cs, piece, h => by
    have ih : ∀ piece ∈ splitChars p cs, ∀ d ∈ piece, d ∈ c :: cs :=
      fun _ hpiece d hd => List.mem_cons_of_mem c (mem_of_mem_splitChars hpiece d hd)
    obtain ⟨first, pieces, hpieces⟩ := List.exists_cons_of_ne_nil (splitChars_ne_nil p cs)
    rw [hpieces] at ih
    rw [splitChars, hpieces] at h
    split at h
    · rcases List.mem_cons.mp h with rfl | h
      · exact fun _ hd => absurd hd List.not_mem_nil
      · exact ih piece h
    · rcases List.mem_cons.mp h with rfl | h
      · exact List.forall_mem_cons.mpr ⟨List.mem_cons_self, ih first List.mem_cons_self⟩
      · exact ih piece (List.mem_cons_of_mem _ h)

theorem IsName.splitChars_eq {s : String} (h : IsName s) :
    splitChars (· == '/') s.toList = [s.toList] := by
  refine splitChars_of_forall fun c hc => ?_
  rw [beq_eq_false_iff_ne]
  rintro rfl
  exact h.2 hc

/-- A path that something can be looked up by is joined to a name by one slash. -/
theorem exists_join_name {p : Path} (hp : p.text ≠ "") {name : String} (hname : IsName name) :
    ∃ before, (p.join ⟨name⟩).text.toList = before ++ '/' :: name.toList ∧
      (p.text.toList = before ∨ p.text.toList = before ++ ['/']) := by
  have hrel := not_isAbsolute_mk hname.2
  by_cases hopen : p.IsOpen
  · rcases hopen with he | hlast
    · exact absurd he hp
    · have hsplit := List.dropLast_append_getLast? '/' hlast
      refine ⟨p.text.toList.dropLast, ?_, .inr hsplit.symm⟩
      rw [join_of_isOpen hrel (.inr hlast), ← hsplit]
      simp
  · exact ⟨p.text.toList, join_of_not_isOpen hrel hopen, .inl rfl⟩

/-! ### Parts -/

theorem Part.ofPiece_name {name : String} (hname : IsName name) (hhere : name ≠ ".")
    (hup : name ≠ "..") : Part.ofPiece name.toList = some (.name name) := by
  have hne : name.toList ≠ [] := fun he => hname.1 (String.toList_eq_nil_iff.mp he)
  have hdot : name.toList ≠ ['.'] := fun he => hhere (String.toList_inj.mp he)
  have hdots : name.toList ≠ ['.', '.'] := fun he => hup (String.toList_inj.mp he)
  simp [Part.ofPiece, hne, hdot, hdots]

/-- The parts of a relative path, its first piece apart. -/
theorem partsOfChars_relative {c : Char} (hc : c ≠ '/') {cs piece : List Char}
    {pieces : List (List Char)} (h : splitChars (· == '/') (c :: cs) = piece :: pieces) :
    partsOfChars (c :: cs) = (if piece = ['.'] then [.here] else (Part.ofPiece piece).toList) ++
      pieces.filterMap Part.ofPiece := by
  unfold partsOfChars
  split
  · rename_i heq
    exact absurd (List.cons.inj heq).1 hc
  · rw [h]
    by_cases hdot : piece = ['.']
    · subst hdot
      rfl
    · rw [if_neg hdot]
      split
      · rename_i heq
        exact absurd (List.cons.inj heq).1 hdot
      · rw [List.filterMap_cons]
        cases Part.ofPiece piece <;> rfl

theorem parts_of_no_slash {p : Path} {part : Part} (h : '/' ∉ p.text.toList)
    (hpart : Part.ofPiece p.text.toList = some part) : p.parts = [part] := by
  have hsplit : splitChars (· == '/') p.text.toList = [p.text.toList] := by
    refine splitChars_of_forall fun c hc => ?_
    rw [beq_eq_false_iff_ne]
    rintro rfl
    exact h hc
  rw [parts]
  cases hcs : p.text.toList with
  | nil => rw [hcs] at hpart; cases hpart
  | cons c cs =>
    rw [hcs] at h hsplit hpart
    have hdot : c :: cs ≠ ['.'] := by
      intro he
      rw [he] at hpart
      cases hpart
    have hc : c ≠ '/' := fun he => h (he ▸ List.mem_cons_self ..)
    rw [partsOfChars_relative hc hsplit, if_neg hdot, hpart]
    rfl

theorem partsOfChars_append_slash {before : List Char} (hne : before ≠ []) (rest : List Char) :
    partsOfChars (before ++ '/' :: rest) =
      partsOfChars before ++ (splitChars (· == '/') rest).filterMap Part.ofPiece := by
  have hsplit (cs : List Char) : splitChars (· == '/') (cs ++ '/' :: rest) =
      splitChars (· == '/') cs ++ splitChars (· == '/') rest :=
    splitChars_append_cons (by rfl) rest cs
  obtain ⟨c, cs, rfl⟩ := List.exists_cons_of_ne_nil hne
  by_cases hc : c = '/'
  · subst hc
    rw [List.cons_append, partsOfChars, partsOfChars, hsplit, List.filterMap_append]
    rfl
  · obtain ⟨piece, pieces, hpieces⟩ :=
      List.exists_cons_of_ne_nil (splitChars_ne_nil (· == '/') (c :: cs))
    have hall := hsplit (c :: cs)
    rw [hpieces, List.cons_append, List.cons_append] at hall
    rw [List.cons_append, partsOfChars_relative hc hall, partsOfChars_relative hc hpieces,
      List.filterMap_append, List.append_assoc]

/-- Behind a slash a relative path says the same, but for a dot that it starts with. -/
theorem parts_of_relative {p : Path} (hp : p.isAbsolute = false)
    (hhere : p.parts.head? ≠ some .here) :
    p.parts = (splitChars (· == '/') p.text.toList).filterMap Part.ofPiece := by
  rw [parts] at hhere ⊢
  cases htext : p.text.toList with
  | nil => rfl
  | cons c cs =>
    have hc : c ≠ '/' := by
      rintro rfl
      rw [isAbsolute, htext] at hp
      simp at hp
    obtain ⟨piece, pieces, hpieces⟩ :=
      List.exists_cons_of_ne_nil (splitChars_ne_nil (· == '/') (c :: cs))
    rw [htext, partsOfChars_relative hc hpieces] at hhere
    rw [partsOfChars_relative hc hpieces, hpieces]
    split at hhere
    · exact absurd rfl hhere
    · rw [if_neg ‹_›, List.filterMap_cons]
      cases Part.ofPiece piece <;> rfl

/-- What is joined to a path is its end, unless it starts with a dot. -/
theorem endsWith_join (p : Path) {q : Path} (hhere : q.parts.head? ≠ some .here) :
    (p.join q).endsWith q = true := by
  have hself : q.endsWith q = true := List.isSuffixOf_iff_suffix.mpr (List.suffix_refl _)
  by_cases hq : q.isAbsolute = true
  · rwa [join, if_pos hq]
  have hq := Bool.eq_false_iff.mpr hq
  obtain ⟨before, hbefore, htext⟩ := exists_join hq p
  rcases hbefore with rfl | hslash
  · have heq : p.join q = q := congrArg Path.mk (String.toList_inj.mp htext)
    rwa [heq]
  obtain ⟨front, rfl⟩ := List.getLast?_eq_some_iff.mp hslash
  rw [List.append_assoc] at htext
  refine List.isSuffixOf_iff_suffix.mpr ?_
  rw [parts_of_relative hq hhere, parts, htext]
  by_cases hfront : front = []
  · subst hfront
    exact List.suffix_cons _ _
  · exact partsOfChars_append_slash hfront _ ▸ List.suffix_append _ _

theorem parts_join {p : Path} (hp : p.text ≠ "") {name : String} (hname : IsName name)
    (hhere : name ≠ ".") (hup : name ≠ "..") :
    (p.join ⟨name⟩).parts = p.parts ++ [.name name] := by
  have hname' : (splitChars (· == '/') name.toList).filterMap Part.ofPiece = [.name name] := by
    simp [hname.splitChars_eq, Part.ofPiece_name hname hhere hup]
  obtain ⟨before, htext, hbefore⟩ := exists_join_name hp hname
  rw [parts, parts, htext]
  by_cases hne : before = []
  · subst hne
    have hslash : p.text.toList = ['/'] :=
      hbefore.resolve_left fun he => hp (String.toList_eq_nil_iff.mp he)
    rw [hslash, List.nil_append, partsOfChars, hname']
    rfl
  · rw [partsOfChars_append_slash hne, hname']
    rcases hbefore with h | h
    · rw [h]
    · rw [h, partsOfChars_append_slash hne]
      simp [splitChars, Part.ofPiece]

theorem fileName?_mk {name : String} (hname : IsName name) (hhere : name ≠ ".")
    (hup : name ≠ "..") : (Path.mk name).fileName? = some name := by
  rw [fileName?, parts_of_no_slash hname.2 (Part.ofPiece_name hname hhere hup)]
  rfl

theorem fileName?_join (p : Path) {name : String} (hname : IsName name) (hhere : name ≠ ".")
    (hup : name ≠ "..") : (p.join ⟨name⟩).fileName? = some name := by
  by_cases hp : p.text = ""
  · have hjoin : p.join ⟨name⟩ = ⟨name⟩ := by
      simp [join, not_isAbsolute_mk hname.2, hp]
    rw [hjoin, fileName?_mk hname hhere hup]
  · rw [fileName?, parts_join hp hname hhere hup, List.getLast?_concat]

theorem extension?_join (p : Path) {name : String} (hname : IsName name) (hhere : name ≠ ".")
    (hup : name ≠ "..") :
    (p.join ⟨name⟩).extension? = (extensionChars name.toList).map String.ofList := by
  rw [extension?, fileName?_join p hname hhere hup]
  rfl

/-- The parent of a name in an absolute path that ends in neither a slash nor a dot. -/
theorem parent?_join {p : Path} {rest last : List Char} (hp : p.text.toList = '/' :: rest)
    (hlast : (splitChars (· == '/') rest).getLast? = some last) (hvoid : isVoid last = false)
    {name : String} (hname : IsName name) (hhere : name ≠ ".") :
    (p.join ⟨name⟩).parent? = some p := by
  have hopen : ¬p.IsOpen := by
    rintro (he | he)
    · rw [he] at hp
      cases hp
    · rw [hp] at he
      have hnil : last = [] := by
        rcases List.eq_nil_or_concat rest with rfl | ⟨before, c, rfl⟩
        · exact (Option.some.inj hlast).symm
        · rw [List.concat_eq_append] at he hlast
          rw [← List.cons_append, List.getLast?_concat] at he
          obtain rfl := Option.some.inj he
          rw [splitChars_append_cons (by rfl), splitChars, List.getLast?_concat] at hlast
          exact (Option.some.inj hlast).symm
      rw [hnil] at hvoid
      cases hvoid
  have hnameVoid : isVoid name.toList = false := by
    have hne : name.toList ≠ [] := fun he => hname.1 (String.toList_eq_nil_iff.mp he)
    have hdot : name.toList ≠ ['.'] := fun he => hhere (String.toList_inj.mp he)
    simp [isVoid, hne, hdot]
  have htext : (p.join ⟨name⟩).text.toList = '/' :: (rest ++ '/' :: name.toList) := by
    rw [join_of_not_isOpen (not_isAbsolute_mk hname.2) hopen, hp]
    rfl
  -- nothing at the end of the parent is void, so that nothing more is dropped
  have hback : ((splitChars (· == '/') rest).reverse.dropWhile isVoid).reverse =
      splitChars (· == '/') rest := by
    obtain ⟨pieces, hpieces⟩ := List.getLast?_eq_some_iff.mp hlast
    rw [hpieces, List.reverse_append, List.reverse_singleton, List.singleton_append,
      List.dropWhile_cons_of_neg (by simp [hvoid]), List.reverse_cons, List.reverse_reverse]
  have hparent : parentChars (p.join ⟨name⟩).text.toList = some p.text.toList := by
    rw [htext, hp]
    simp only [parentChars]
    rw [splitChars_append_cons (by rfl), hname.splitChars_eq, List.reverse_append,
      List.reverse_singleton, List.singleton_append,
      List.dropWhile_cons_of_neg (by simp [hnameVoid])]
    simp only [hback, joinPieces_splitChars]
  rw [parent?, hparent, Option.map_some, String.ofList_toList]

theorem extensionChars_of_dot {cs : List Char} (hdot : '.' ∉ cs) :
    extensionChars ('.' :: cs) = none := by
  have htake : (('.' :: cs).reverse.takeWhile (· != '.')).reverse = cs := by
    rw [List.reverse_cons, List.takeWhile_append_of_pos, List.takeWhile_cons_of_neg,
      List.append_nil, List.reverse_reverse]
    · simp
    · intro c hc
      rw [bne_iff_ne]
      rintro rfl
      exact hdot (List.mem_reverse.mp hc)
  unfold extensionChars
  simp only [htake]
  rw [if_pos (Nat.le_of_eq List.length_cons)]

/-! ### Order -/

instance : Std.LawfulEqOrd Part := ⟨by
  intro a b h
  obtain ⟨hrank, hlabel⟩ := compareLex_eq_eq.mp h
  cases a <;> cases b <;> simp_all [compareOn, Part.rank, Part.label]⟩

theorem compare_eq_iff {p q : Path} : compare p q = .eq ↔ p.parts = q.parts := by
  show compare p.parts q.parts = .eq ↔ _
  exact Std.compare_eq_iff_eq

theorem pairwise_mergeSort {α : Type} (f : α → Path) (l : List α) :
    (l.mergeSort fun a b => compare (f a) (f b) != .gt).Pairwise
      fun a b => compare (f a) (f b) ≠ .gt := by
  refine (List.pairwise_mergeSort (fun a b c hab hbc => ?_) (fun a b => ?_) l).imp fun h => ?_
  · simp only [bne_iff_ne, Ne, Ordering.ne_gt_iff_isLE] at hab hbc ⊢
    exact Std.TransCmp.isLE_trans hab hbc
  · simp only [Bool.or_eq_true, bne_iff_ne]
    by_cases hgt : compare (f a) (f b) = .gt
    · exact .inr (by rw [Std.OrientedCmp.lt_of_gt hgt]; exact nofun)
    · exact .inl hgt
  · exact bne_iff_ne.mp h

theorem eq_of_perm {α : Type} (f : α → Path) {l l' : List α} (h : l.Perm l')
    (hl : l.Pairwise fun a b => compare (f a) (f b) = .lt)
    (hl' : l'.Pairwise fun a b => compare (f a) (f b) = .lt) : l = l' := by
  refine List.Perm.eq_of_pairwise (fun a b _ _ hab hba => ?_) hl hl' h
  rw [Std.OrientedCmp.gt_of_lt hab] at hba
  cases hba

/-- Sorted in two ways, the same paths are the same, spellings apart. -/
theorem map_parts_eq_of_perm {ps qs : List Path} (h : ps.Perm qs)
    (hps : ps.Pairwise fun p q => compare p q ≠ .gt)
    (hqs : qs.Pairwise fun p q => compare p q ≠ .gt) : ps.map parts = qs.map parts := by
  have hle {ps : List Path} (hps : ps.Pairwise fun p q => compare p q ≠ .gt) :
      (ps.map parts).Pairwise fun a b => compare a b ≠ .gt := List.pairwise_map.mpr hps
  refine List.Perm.eq_of_pairwise (fun a b _ _ hab hba => ?_) (hle hps) (hle hqs) (h.map _)
  cases hcompare : compare a b with
  | lt => exact absurd (Std.OrientedCmp.gt_of_lt hcompare) hba
  | eq => exact Std.compare_eq_iff_eq.mp hcompare
  | gt => exact absurd hcompare hab

end ForcingData.Path
