import ForcingData.Proofs.Path
import ForcingData.Proofs.Runs
import ForcingData.Text.Blank
import Mathlib.Data.List.DropRight

/-! # Blanks and lines

A text is what is left when the blanks around it are cut off, and these blanks
(`exists_trimChars`); nothing else is left of it (`trimChars_eq`). The lines of a text are its
pieces between line feeds, but for carriage returns at their ends and for a last piece that is empty
(`lineChars_eq`). -/

namespace ForcingData.Text

/-- Nothing but blanks. -/
def Blank (cs : List Char) : Prop := ∀ c ∈ cs, isBlank c = true

theorem Blank.nil : Blank [] := fun _ hc => absurd hc List.not_mem_nil

theorem Blank.append {a b : List Char} (ha : Blank a) (hb : Blank b) : Blank (a ++ b) :=
  fun c hc => (List.mem_append.mp hc).elim (ha c) (hb c)

theorem Blank.mono {a b : List Char} (hb : Blank b) (h : a ⊆ b) : Blank a := fun c hc => hb c (h hc)

/-! ### What is left of a text -/

/-- Nothing is left to cut at the beginning: it is the beginning of what was left first. -/
theorem dropWhile_trimChars (cs : List Char) :
    (trimChars cs).dropWhile isBlank = trimChars cs := by
  have hbegins : trimChars cs <+: cs.dropWhile isBlank := List.rdropWhile_prefix ..
  refine List.dropWhile_eq_self_iff.mpr fun hpos => ?_
  rw [hbegins.getElem hpos]
  exact List.dropWhile_get_zero_not isBlank cs (hpos.trans_le hbegins.length_le)

theorem trimChars_trimChars (cs : List Char) : trimChars (trimChars cs) = trimChars cs := by
  rw [trimChars, dropWhile_trimChars]
  exact List.rdropWhile_idempotent ..

theorem trim_trim (s : String) : trim (trim s) = trim s := by
  rw [trim, trim, String.toList_ofList, trimChars_trimChars]

/-- What neither begins nor ends with a blank. -/
def IsTrimmed (cs : List Char) : Prop :=
  (∀ c ∈ cs.head?, isBlank c = false) ∧ ∀ c ∈ cs.getLast?, isBlank c = false

theorem isTrimmed_trimChars (cs : List Char) : IsTrimmed (trimChars cs) := by
  constructor
  · intro c hc
    have hstop := List.head?_dropWhile_not isBlank (trimChars cs)
    rw [dropWhile_trimChars, Option.mem_def.mp hc] at hstop
    simpa using hstop
  · intro c hc
    have hstop := List.head?_dropWhile_not isBlank (cs.dropWhile isBlank).reverse
    rw [trimChars, List.getLast?_reverse] at hc
    rw [Option.mem_def.mp hc] at hstop
    simpa using hstop

theorem exists_trimChars (cs : List Char) :
    ∃ before after, cs = before ++ trimChars cs ++ after ∧ Blank before ∧ Blank after := by
  refine ⟨cs.takeWhile isBlank, ((cs.dropWhile isBlank).reverse.takeWhile isBlank).reverse, ?_,
    fun c hc => List.mem_takeWhile_imp hc,
    fun c hc => List.mem_takeWhile_imp (List.mem_reverse.mp hc)⟩
  rw [trimChars, List.append_assoc, ← List.reverse_append, List.takeWhile_append_dropWhile,
    List.reverse_reverse, List.takeWhile_append_dropWhile]

theorem trimChars_subset (cs : List Char) : trimChars cs ⊆ cs := by
  obtain ⟨before, after, heq, -⟩ := exists_trimChars cs
  intro c hc
  rw [heq]
  exact List.mem_append_left _ (List.mem_append_right _ hc)

theorem trimChars_eq {before cs after : List Char} (hb : Blank before) (hcs : IsTrimmed cs)
    (ha : Blank after) : trimChars (before ++ cs ++ after) = cs := by
  rcases cs.eq_nil_or_concat with rfl | ⟨front, c, rfl⟩
  · rw [List.append_nil, trimChars, List.dropWhile_eq_nil_iff.mpr (hb.append ha)]
    rfl
  · have hfirst : (before ++ front.concat c ++ after).dropWhile isBlank =
        front.concat c ++ after := by
      rw [List.append_assoc]
      refine (run_append hb fun d hd => hcs.1 d ?_).2
      rw [List.concat_eq_append] at hd ⊢
      cases front <;> simpa using hd
    have hlast : (front.concat c ++ after).reverse.dropWhile isBlank =
        (front.concat c).reverse := by
      rw [List.reverse_append]
      refine (run_append (fun d hd => ha d (List.mem_reverse.mp hd)) fun d hd => hcs.2 d ?_).2
      rwa [List.head?_reverse] at hd
    rw [trimChars, hfirst, hlast, List.reverse_reverse]

/-! ### Lines -/

theorem trimChars_dropReturn (line : List Char) : trimChars (dropReturn line) = trimChars line := by
  unfold dropReturn
  split
  · rename_i hlast
    obtain ⟨front, rfl⟩ := List.getLast?_eq_some_iff.mp hlast
    obtain ⟨before, after, heq, hb, ha⟩ := exists_trimChars front
    have hreturn : Blank (after ++ ['\r']) := ha.append (List.forall_mem_singleton.mpr (by rfl))
    have h := trimChars_eq hb (isTrimmed_trimChars front) hreturn
    rw [← List.append_assoc, ← heq] at h
    rw [List.dropLast_concat, h]
  · rfl

theorem dropReturn_subset (line : List Char) : dropReturn line ⊆ line := by
  unfold dropReturn
  split
  · exact List.dropLast_subset line
  · exact List.Subset.refl line

theorem lineChars_eq (cs : List Char) : ∃ front last, splitChars (· == '\n') cs = front ++ [last] ∧
    lineChars cs = front.map dropReturn ++ if last = [] then [] else [last] := by
  obtain ⟨front, last, heq⟩ :=
    (List.eq_nil_or_concat _).resolve_left (splitChars_ne_nil (· == '\n') cs)
  rw [List.concat_eq_append] at heq
  refine ⟨front, last, heq, ?_⟩
  rw [lineChars, heq]
  simp only [List.getLast?_concat, List.dropLast_concat]
  cases last <;> simp

theorem exists_piece {cs line : List Char} (h : line ∈ lineChars cs) :
    ∃ piece ∈ splitChars (· == '\n') cs, line ⊆ piece := by
  obtain ⟨front, last, hsplit, hlines⟩ := lineChars_eq cs
  rw [hlines, List.mem_append, List.mem_map] at h
  rw [hsplit]
  rcases h with ⟨piece, hpiece, rfl⟩ | h
  · exact ⟨piece, List.mem_append_left _ hpiece, dropReturn_subset piece⟩
  · split at h
    · cases h
    · obtain rfl := List.mem_singleton.mp h
      exact ⟨line, List.mem_append_right _ (List.mem_singleton_self line), List.Subset.refl line⟩

theorem exists_line {cs piece : List Char} (h : piece ∈ splitChars (· == '\n') cs)
    (hne : piece ≠ []) : ∃ line ∈ lineChars cs, trimChars line = trimChars piece := by
  obtain ⟨front, last, hsplit, hlines⟩ := lineChars_eq cs
  rw [hlines]
  rcases List.mem_append.mp (hsplit ▸ h) with hfront | hlast
  · exact ⟨dropReturn piece, List.mem_append_left _ (List.mem_map_of_mem hfront),
      trimChars_dropReturn piece⟩
  · obtain rfl := List.mem_singleton.mp hlast
    rw [if_neg hne]
    exact ⟨piece, List.mem_append_right _ (List.mem_singleton_self piece), rfl⟩

/-- Whatever does not see a carriage return at the end of a line, nor an empty line, sees the
pieces between line feeds. -/
theorem filterMap_lineChars {β : Type} {f : List Char → Option β} {cs : List Char}
    (hnil : f [] = none)
    (hreturn : ∀ piece ∈ splitChars (· == '\n') cs, f (dropReturn piece) = f piece) :
    (lineChars cs).filterMap f = (splitChars (· == '\n') cs).filterMap f := by
  obtain ⟨front, last, hsplit, hlines⟩ := lineChars_eq cs
  have hfront : (front.map dropReturn).filterMap f = front.filterMap f := by
    rw [List.filterMap_map]
    refine List.filterMap_congr fun piece hpiece => hreturn piece ?_
    rw [hsplit]
    exact List.mem_append_left _ hpiece
  rw [hlines, hsplit, List.filterMap_append, List.filterMap_append, hfront]
  split
  · rename_i hlast
    rw [hlast, List.filterMap_cons_none hnil]
  · rfl

theorem notMem_of_mem_lines {s line : String} (h : line ∈ lines s) : '\n' ∉ line.toList := by
  obtain ⟨cs, hcs, rfl⟩ := List.mem_map.mp h
  obtain ⟨piece, hpiece, hsubset⟩ := exists_piece hcs
  rw [String.toList_ofList]
  intro hmem
  exact absurd (Path.eq_false_of_mem_splitChars hpiece _ (hsubset hmem)) (by decide)

end ForcingData.Text
