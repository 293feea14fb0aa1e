import ForcingData.Proofs.Compliance.Counts

/-! # Reports line by line

Where no line is a label without a number, the counts in a report are those of its lines, each taken
for itself (`summaries_eq_lines`), and the whole report is read as if line after line had been
(`ofText_lines`). -/

namespace ForcingData.Compliance
open Text

/-- The number that ASCII digits say, if a machine word holds it. -/
def wordOf? (digits : List Char) : Option Nat :=
  if digits.all Char.isDigit ∧ decimalValue digits ≤ greatestCount then some (decimalValue digits)
  else none

/-- But for the blanks around it, the line is a label, blanks and digits of any script. -/
def LineCounts (line : String) (counted : Counted) (n : Nat) : Prop :=
  ∃ gap digits, (trim line).toList = counted.label.toList ++ (gap ++ digits) ∧ Blank gap ∧
    digits ≠ [] ∧ (∀ d ∈ digits, isDigit d = true) ∧ n = (wordOf? digits).getD greatestCount

/-- What the last line says that counts this. -/
def LastCounted (lines : List String) (counted : Counted) : Option Nat → Prop
  | some n => ∃ before line after, lines = before ++ line :: after ∧ LineCounts line counted n ∧
      ∀ other ∈ after, ∀ m, ¬LineCounts other counted m
  | none => ∀ line ∈ lines, ∀ m, ¬LineCounts line counted m

theorem countOf_eq (digits : List Char) : countOf digits = (wordOf? digits).getD greatestCount := by
  unfold countOf wordOf?
  by_cases hall : digits.all Char.isDigit = true
  · by_cases hle : decimalValue digits ≤ greatestCount
    · rw [if_pos hall, if_pos ⟨hall, hle⟩, Nat.min_eq_left hle, Option.getD_some]
    · rw [if_pos hall, if_neg fun h => hle h.2, Nat.min_eq_right (Nat.le_of_not_le hle),
        Option.getD_none]
  · rw [if_neg hall, if_neg fun h => hall h.1, Option.getD_none]

/-! ### One line -/

variable {counted : Counted} {n : Nat}

theorem Count.isTrimmed (c : Count) :
    IsTrimmed (c.counted.label.toList ++ (c.gap ++ c.digits)) := by
  constructor
  · intro d hd
    obtain ⟨d', hd', hblank, -⟩ := c.counted.head?_label (c.gap ++ c.digits)
    exact Option.some.inj (hd'.symm.trans hd) ▸ hblank
  · intro d hd
    rw [← List.append_assoc, List.getLast?_append_of_ne_nil _ c.digits_ne_nil] at hd
    exact isBlank_eq_false_of_isDigit (c.isDigit_digits d (List.mem_of_getLast? hd))

theorem Count.trimChars_chars (c : Count) :
    trimChars c.chars = c.counted.label.toList ++ (c.gap ++ c.digits) := by
  have h := trimChars_eq c.blank_before c.isTrimmed c.blank_after
  rw [← h, chars, tail]
  simp only [List.append_assoc]

theorem lineCounts_iff {line : String} : LineCounts line counted n ↔
    ∃ c : Count, line.toList = c.chars ∧ c.value = (counted, n) := by
  rw [LineCounts, trim, String.toList_ofList]
  constructor
  · rintro ⟨gap, digits, htrim, hgap, hne, hdigits, rfl⟩
    obtain ⟨before, after, heq, hb, ha⟩ := exists_trimChars line.toList
    refine ⟨⟨counted, before, gap, digits, after, hb, hgap, ha, hne, hdigits⟩, ?_, ?_⟩
    · rw [heq, htrim]
      simp [Count.chars, Count.tail]
    · rw [Count.value, countOf_eq]
  · rintro ⟨c, hline, hvalue⟩
    obtain ⟨rfl, rfl⟩ := Prod.mk.inj hvalue
    exact ⟨c.gap, c.digits, by rw [hline, c.trimChars_chars], c.blank_gap, c.digits_ne_nil,
      c.isDigit_digits, countOf_eq _⟩

theorem Count.notMem_before {c : Count} (h : '\n' ∉ c.chars) : '\n' ∉ c.before :=
  fun hmem => h (List.mem_append_left _ hmem)

theorem summary?_eq_some_iff_chars {line : List Char} (hn : '\n' ∉ line)
    {value : Counted × Nat} : summary? line = some value ↔
      ∃ c : Count, line = c.chars ∧ c.value = value := by
  constructor
  · intro h
    obtain ⟨c, after, rfl, -, -, hends, hvalue⟩ := Count.exists_of_summary? h
    cases after with
    | nil => exact ⟨c, List.append_nil _, hvalue⟩
    | cons d after =>
      obtain rfl := hends d rfl
      exact absurd (List.mem_append_right _ (List.mem_cons_self ..)) hn
  · rintro ⟨c, rfl, rfl⟩
    have h : summary? (c.chars ++ []) = some c.value :=
      c.summary?_chars (Count.notMem_before hn) nofun
    rwa [List.append_nil] at h

theorem summary?_line {line : String} (hn : '\n' ∉ line.toList) :
    summary? line.toList = some (counted, n) ↔ LineCounts line counted n := by
  rw [lineCounts_iff, summary?_eq_some_iff_chars hn]

theorem Counted.isTrimmed_label (counted : Counted) : IsTrimmed counted.label.toList := by
  have hfirst := counted.head?_label []
  have hlast : counted.label.toList.getLast? = some ':' := by cases counted <;> rfl
  rw [List.append_nil] at hfirst
  obtain ⟨c, hc, hblank, -⟩ := hfirst
  constructor
  · exact fun d hd => Option.some.inj (hc.symm.trans hd) ▸ hblank
  · exact fun d hd => Option.some.inj (hlast.symm.trans hd) ▸ rfl

/-- What is on other lines matters only to a label without a number. -/
theorem summary?_append_newline {line : List Char} (hn : '\n' ∉ line)
    (hlabel : ∀ counted : Counted, trimChars line ≠ counted.label.toList) (rest : List Char) :
    summary? (line ++ '\n' :: rest) = summary? line := by
  ext value
  rw [summary?_eq_some_iff_chars hn]
  constructor
  · intro h
    obtain ⟨c, after, heq, hbefore, hafter, hends, rfl⟩ := Count.exists_of_summary? h
    -- a count whose gap goes over the end of the line has nothing but its label there
    have hgap : '\n' ∉ c.gap := by
      intro hmem
      obtain ⟨first, others, hgap, hfirst⟩ := List.eq_append_cons_of_mem hmem
      have hcut : line ++ '\n' :: rest = (c.before ++ c.counted.label.toList ++ first) ++
          '\n' :: (others ++ (c.digits ++ c.after) ++ after) := by
        rw [heq, Count.chars, Count.tail, hgap]
        simp
      have hblank : Blank first := c.blank_gap.mono (hgap ▸ List.subset_append_left ..)
      obtain ⟨rfl, -⟩ := first_unique hn (by simp [hbefore, c.counted.label_notMem, hfirst]) hcut
      exact hlabel c.counted (trimChars_eq c.blank_before c.counted.isTrimmed_label hblank)
    have hchars : '\n' ∉ c.chars := by
      simp [Count.chars, Count.tail, hbefore, hgap, hafter, c.counted.label_notMem,
        notMem_of_isDigit c.isDigit_digits]
    cases after with
    | nil =>
      rw [List.append_nil] at heq
      exact absurd (heq ▸ List.mem_append_right _ (List.mem_cons_self ..)) hchars
    | cons d after =>
      obtain rfl := hends d rfl
      exact ⟨c, (first_unique hn hchars heq).1, rfl⟩
  · rintro ⟨c, rfl, rfl⟩
    exact c.summary?_chars (Count.notMem_before hn) fun d hd => (Option.some.inj hd).symm

/-! ### All lines -/

theorem forall₂_pieces : ∀ cs : List Char,
    List.Forall₂ (fun piece start => start = piece ∨ ∃ rest, start = piece ++ '\n' :: rest)
      (splitChars (· == '\n') cs) (cs :: afterLineFeeds cs)
  | [] => .cons (.inl rfl) .nil
  | c :: cs => by
    have ih := forall₂_pieces cs
    rw [splitChars, afterLineFeeds]
    by_cases hc : c = '\n'
    · subst hc
      exact .cons (.inr ⟨cs, rfl⟩) ih
    · obtain ⟨piece, pieces, hpieces⟩ :=
        List.exists_cons_of_ne_nil (splitChars_ne_nil (· == '\n') cs)
      rw [hpieces] at ih ⊢
      rw [if_neg (by simpa using hc), if_neg hc]
      cases ih with
      | cons hfirst hrest =>
        refine .cons ?_ hrest
        rcases hfirst with rfl | ⟨rest, rfl⟩
        · exact .inl rfl
        · exact .inr ⟨rest, rfl⟩

theorem filterMap_eq_of_forall₂ {α β γ : Type} {f : α → Option γ} {g : β → Option γ}
    {as : List α} {bs : List β} (h : List.Forall₂ (fun a b => f a = g b) as bs) :
    as.filterMap f = bs.filterMap g := by
  induction h with
  | nil => rfl
  | cons hfirst _ ih => rw [List.filterMap_cons, List.filterMap_cons, hfirst, ih]

theorem summary?_eq_of_trim {a b : String} (ha : '\n' ∉ a.toList) (hb : '\n' ∉ b.toList)
    (h : trim a = trim b) : summary? a.toList = summary? b.toList := by
  ext ⟨counted, n⟩
  rw [summary?_line ha, summary?_line hb, LineCounts, LineCounts, h]

theorem summary?_dropReturn {line : List Char} (hn : '\n' ∉ line) :
    summary? (dropReturn line) = summary? line := by
  have hn' : '\n' ∉ dropReturn line := fun hmem => hn (dropReturn_subset line hmem)
  rw [← String.toList_ofList (l := line)] at hn
  rw [← String.toList_ofList (l := dropReturn line)] at hn'
  have h := summary?_eq_of_trim hn' hn (by
    rw [trim, trim, String.toList_ofList, String.toList_ofList, trimChars_dropReturn])
  rwa [String.toList_ofList, String.toList_ofList] at h

/-- Where every label has its number beside it, the lines can be taken one by one. -/
theorem summaries_eq_lines {text : String}
    (h : ∀ line ∈ lines text, ∀ counted : Counted, trim line ≠ counted.label) :
    summaries text.toList = (lines text).filterMap fun line => summary? line.toList := by
  have hnewline : ∀ piece ∈ splitChars (· == '\n') text.toList, '\n' ∉ piece :=
    fun piece hpiece hmem =>
      absurd (Path.eq_false_of_mem_splitChars hpiece _ hmem) (by decide)
  have hlabel : ∀ piece ∈ splitChars (· == '\n') text.toList, ∀ counted : Counted,
      trimChars piece ≠ counted.label.toList := by
    intro piece hpiece counted htrim
    by_cases hne : piece = []
    · subst hne
      cases counted <;> exact absurd htrim (by decide)
    · obtain ⟨line, hline, heq⟩ := exists_line hpiece hne
      refine h (String.ofList line) (List.mem_map_of_mem hline) counted ?_
      rw [trim, String.toList_ofList, heq, htrim, String.ofList_toList]
  have hstarts := (List.forall₂_and_left ..).mpr ⟨fun piece hpiece =>
    (⟨hnewline piece hpiece, hlabel piece hpiece⟩ : '\n' ∉ piece ∧ ∀ counted : Counted,
      trimChars piece ≠ counted.label.toList), forall₂_pieces text.toList⟩
  have hpieces : (splitChars (· == '\n') text.toList).filterMap summary? =
      summaries text.toList := by
    refine filterMap_eq_of_forall₂ (hstarts.imp fun piece start hpiece => ?_)
    obtain ⟨⟨hn, hl⟩, rfl | ⟨rest, rfl⟩⟩ := hpiece
    · rfl
    · exact (summary?_append_newline hn hl rest).symm
  -- a return at the end of a line is one more blank
  have hlines : (lineChars text.toList).filterMap summary? =
      (splitChars (· == '\n') text.toList).filterMap summary? :=
    filterMap_lineChars (by rfl) fun piece hpiece => summary?_dropReturn (hnewline piece hpiece)
  rw [← hpieces, ← hlines, lines, List.filterMap_map]
  simp only [Function.comp_def, String.toList_ofList]

/-! ### The report -/

theorem LastCounted.concat {ls : List String} {line : String} {last? : Option Nat}
    (h : LastCounted ls counted last?) (hline : ∀ m, ¬LineCounts line counted m) :
    LastCounted (ls ++ [line]) counted last? := by
  cases last? with
  | none =>
    intro other hother
    rcases List.mem_append.mp hother with hother | hother
    · exact h other hother
    · exact List.mem_singleton.mp hother ▸ hline
  | some n =>
    obtain ⟨before, found, after, rfl, hcounts, hafter⟩ := h
    refine ⟨before, found, after ++ [line], by simp, hcounts, fun other hother => ?_⟩
    rcases List.mem_append.mp hother with hother | hother
    · exact hafter other hother
    · exact List.mem_singleton.mp hother ▸ hline

/-- The last count is the one of the last line that counts this. -/
theorem lastCounted_lastCount? (counted : Counted) {ls : List String}
    (hn : ∀ line ∈ ls, '\n' ∉ line.toList) :
    LastCounted ls counted
      (lastCount? counted (ls.filterMap fun line => summary? line.toList)) := by
  induction ls using List.reverseRecOn with
  | nil => exact fun _ hline => absurd hline List.not_mem_nil
  | append_singleton ls line ih =>
    have ih := ih fun other hother => hn other (List.mem_append_left _ hother)
    have hline (counted' : Counted) (m : Nat) : summary? line.toList = some (counted', m) ↔
        LineCounts line counted' m :=
      summary?_line (hn line (List.mem_append_right _ (List.mem_singleton_self line)))
    rw [List.filterMap_append]
    cases hs : summary? line.toList with
    | none =>
      have hnone : List.filterMap (fun line => summary? line.toList) [line] = [] := by simp [hs]
      rw [hnone, List.append_nil]
      refine ih.concat fun m hm => ?_
      rw [(hline counted m).mpr hm] at hs
      cases hs
    | some value =>
      obtain ⟨counted', m⟩ := value
      have hone : List.filterMap (fun line => summary? line.toList) [line] = [(counted', m)] := by
        simp [hs]
      rw [hone]
      -- the last line decides, unless what it counts is the other thing
      by_cases hc : counted' = counted
      · subst hc
        have hlast (found : List (Counted × Nat)) :
            lastCount? counted' (found ++ [(counted', m)]) = some m := by
          simp [lastCount?, List.filter_append]
        rw [hlast]
        exact ⟨ls, line, [], rfl, (hline counted' m).mp hs, nofun⟩
      · have hsame (found : List (Counted × Nat)) :
            lastCount? counted (found ++ [(counted', m)]) = lastCount? counted found := by
          simp [lastCount?, List.filter_append, hc]
        rw [hsame]
        refine ih.concat fun k hk => ?_
        rw [(hline counted k).mpr hk] at hs
        exact hc (Prod.mk.inj (Option.some.inj hs)).1.symm

theorem isMessage_trim {line : String} (hn : '\n' ∉ line.toList) : isMessage (trim line) = true ↔
    ("ERROR".toList <+: (trim line).toList ∨ "WARN".toList <+: (trim line).toList) ∧
      ∀ counted n, ¬LineCounts line counted n := by
  have hn' : '\n' ∉ (trim line).toList := by
    rw [trim, String.toList_ofList]
    exact fun hmem => hn (trimChars_subset _ hmem)
  rw [isMessage, Bool.and_eq_true, Bool.or_eq_true, Option.isNone_iff_eq_none,
    Option.eq_none_iff_forall_ne_some, Prod.forall]
  simp only [startsWith, List.isPrefixOf_iff_prefix, ne_eq, summary?_line hn', LineCounts,
    trim_trim]

theorem verdictOf_eq (errors warnings : Option Nat) (endedWell : Bool) :
    verdictOf errors warnings endedWell =
      if ∃ n ∈ errors, 0 < n then .error
      else if ∃ n ∈ warnings, 0 < n then .warning
      else if errors = none ∧ warnings = none ∧ endedWell = false then .error
      else .pass := by
  simp only [verdictOf, Option.any_eq_true, Bool.and_eq_true, Option.isNone_iff_eq_none,
    Bool.not_eq_true', and_assoc, decide_eq_true_eq, Option.mem_def]

/-- A report is read line by line. -/
theorem ofText_lines {text : String}
    (h : ∀ line ∈ lines text, ∀ counted : Counted, trim line ≠ counted.label) (endedWell : Bool) :
    ∃ (errors warnings : Option Nat) (isKept : String → Bool),
      LastCounted (lines text) .errors errors ∧ LastCounted (lines text) .warnings warnings ∧
      (∀ found, Scan [] text.toList found →
        lastCount? .errors found = errors ∧ lastCount? .warnings found = warnings) ∧
      (∀ line ∈ lines text, isKept line = true ↔
        ("ERROR".toList <+: (trim line).toList ∨ "WARN".toList <+: (trim line).toList) ∧
          ∀ counted n, ¬LineCounts line counted n) ∧
      Report.ofText text endedWell =
        { verdict :=
            if ∃ n ∈ errors, 0 < n then .error
            else if ∃ n ∈ warnings, 0 < n then .warning
            else if errors = none ∧ warnings = none ∧ endedWell = false then .error
            else .pass
          messages := ((lines text).filter isKept).map trim } := by
  have hn : ∀ line ∈ lines text, '\n' ∉ line.toList := fun _ => notMem_of_mem_lines
  have hlines := summaries_eq_lines h
  refine ⟨lastCount? .errors (summaries text.toList), lastCount? .warnings (summaries text.toList),
    fun line => isMessage (trim line), ?_, ?_, ?_, fun line hline => isMessage_trim (hn line hline),
    ?_⟩
  · rw [hlines]
    exact lastCounted_lastCount? .errors hn
  · rw [hlines]
    exact lastCounted_lastCount? .warnings hn
  · rintro found hscan
    rw [scan_iff.mp hscan]
    exact ⟨rfl, rfl⟩
  · simp only [Report.ofText, List.filter_map, verdictOf_eq, Function.comp_def]

/-- Counts of both kinds, the errors counted twice, with blanks and empty lines between them. -/
def countedText : String :=
  "\n ERRORS detected: 2\r\nERROR: no units \n\n\tWARNINGS detected:3\n \nERRORS detected: 0\n"

theorem ofText_lines_sample :
    LastCounted (lines countedText) .errors (some 0) ∧
    LastCounted (lines countedText) .warnings (some 3) ∧
    Report.ofText countedText false = ⟨.warning, ["ERROR: no units"]⟩ := by
  have h : ∀ line ∈ lines countedText, ∀ counted : Counted, trim line ≠ counted.label := by
    intro line hline counted heq
    have hchars : ∀ line ∈ lines countedText, (trim line).toList ≠ counted.label.toList := by
      cases counted <;> decide +kernel
    exact hchars line hline (congrArg String.toList heq)
  obtain ⟨errors, warnings, isKept, herrors, hwarnings, hscan, -, -⟩ := ofText_lines h false
  obtain ⟨he, hw⟩ := hscan _ (scan_iff.mpr rfl)
  have hfound : summaries countedText.toList = [(.errors, 2), (.warnings, 3), (.errors, 0)] := by
    decide +kernel
  rw [hfound] at he hw
  obtain rfl : some 0 = errors := he
  obtain rfl : some 3 = warnings := hw
  exact ⟨herrors, hwarnings, by decide +kernel⟩

end ForcingData.Compliance
