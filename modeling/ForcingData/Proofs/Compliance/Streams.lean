import ForcingData.Compliance.Checker
import ForcingData.Proofs.Compliance.Counts

/-! # Two streams

A checker writes two texts, and they are read as one, the errors right behind the output. Errors
without a count of their own can do two things to a line at the end of the output: stand behind its
count, or give its label a number (`Meets`). There is no more than one such line, and all that
changes is how this line is read (`exists_counts_append`). -/

namespace ForcingData.Compliance
open Text

/-- The end of the output, from the start of a line on, is read otherwise with the errors behind it.
-/
inductive Meets (line errors : List Char) : Prop
  /-- It is a count, and there is something behind it on its line. -/
  | hidden (c : Count) (hbefore : '\n' ∉ c.before) (hafter : '\n' ∉ c.after) (hc : line = c.chars)
      (hbehind : ¬Blank (errors.takeWhile (· != '\n')))
  /-- It is one part of a count, and the errors begin with more than the last blanks of it. -/
  | made (c : Count) (hbefore : '\n' ∉ c.before) (hafter : '\n' ∉ c.after) {rest after : List Char}
      (hc : c.chars = line ++ rest) (hrest : ¬Blank rest) (herrors : errors = rest ++ after)
      (hends : EndsLine after)

/-- A line of the output meets the errors. -/
def Torn (output errors : List Char) : Prop :=
  ∃ above line, output = above ++ line ∧ line ≠ [] ∧ StartsLine above ∧ Meets line errors

/-! ### One line -/

/-- Without the last of the blanks behind it, a count is the same count. -/
theorem Count.exists_of_blank {c : Count} {line rest : List Char} (hc : c.chars = line ++ rest)
    (hblank : Blank rest) :
    ∃ c' : Count, line = c'.chars ∧ c'.before = c.before ∧ c'.value = c.value := by
  have hfront : (c.before ++ (c.counted.label.toList ++ (c.gap ++ c.digits))) ++ c.after =
      line ++ rest := by
    rw [← hc, chars, tail]
    simp only [List.append_assoc]
  have hshorter : ∀ after, Blank after →
      line = (c.before ++ (c.counted.label.toList ++ (c.gap ++ c.digits))) ++ after →
      ∃ c' : Count, line = c'.chars ∧ c'.before = c.before ∧ c'.value = c.value :=
    fun after hafter hline => ⟨{ c with after := after, blank_after := hafter }, by
      rw [hline, chars, tail]
      simp only [List.append_assoc], rfl, rfl⟩
  rcases List.append_eq_append_iff.mp hfront with ⟨after, hline, hafter⟩ | ⟨digits, hline, hrest⟩
  · exact hshorter after (c.blank_after.mono (hafter ▸ List.subset_append_left ..)) hline
  · rcases digits.eq_nil_or_concat with rfl | ⟨front, d, rfl⟩
    · exact hshorter [] .nil (by rw [List.append_nil] at hline ⊢; exact hline.symm)
    · -- the last digit would be a blank
      have hlast : (c.before ++ (c.counted.label.toList ++ (c.gap ++ c.digits))).getLast? =
          some d := by
        rw [hline, List.concat_eq_append, ← List.append_assoc, List.getLast?_concat]
      rw [← List.append_assoc, ← List.append_assoc,
        List.getLast?_append_of_ne_nil _ c.digits_ne_nil] at hlast
      have hdigit := c.isDigit_digits d (List.mem_of_getLast? hlast)
      have hd : isBlank d = true := hblank d (hrest ▸ by simp)
      exact absurd (isDigit_eq_false_of_isBlank hd) (by simp [hdigit])

theorem summary?_append_of_not_meets {line errors : List Char} (h : ¬Meets line errors) :
    summary? (line ++ errors) = summary? line := by
  ext value
  constructor
  · intro hvalue
    obtain ⟨c, after, heq, hbefore, hafter, hends, rfl⟩ := Count.exists_of_summary? hvalue
    -- the count goes on into the errors, or it ends in the line
    rcases List.append_eq_append_iff.mp heq with ⟨rest, hc, herrors⟩ | ⟨behind, rfl, rfl⟩
    · have hblank : Blank rest := by
        by_contra hrest
        exact h (.made c hbefore hafter hc hrest herrors hends)
      obtain ⟨c', rfl, hbefore', hvalue'⟩ := c.exists_of_blank hc hblank
      have hfound : summary? (c'.chars ++ []) = some c'.value :=
        c'.summary?_chars (hbefore' ▸ hbefore) nofun
      rwa [List.append_nil, hvalue'] at hfound
    · refine c.summary?_chars hbefore fun d hd => hends d ?_
      rw [List.head?_append, hd]
      rfl
  · intro hvalue
    obtain ⟨c, after, rfl, hbefore, hafter, hends, rfl⟩ := Count.exists_of_summary? hvalue
    cases after with
    | cons d after =>
      rw [List.append_assoc]
      exact c.summary?_chars hbefore hends
    | nil =>
      rw [List.append_nil] at h ⊢
      -- a count at the very end of the line may only go on with blanks
      have hblank : Blank (errors.takeWhile (· != '\n')) := by
        by_contra hbehind
        exact h (.hidden c hbefore hafter rfl hbehind)
      let longer : Count :=
        { c with
          after := c.after ++ errors.takeWhile (· != '\n')
          blank_after := c.blank_after.append hblank }
      have hlonger : c.chars ++ errors = longer.chars ++ errors.dropWhile (· != '\n') := by
        conv_lhs => rw [← List.takeWhile_append_dropWhile (p := (· != '\n')) (l := errors)]
        simp only [Count.chars, Count.tail, List.append_assoc, longer]
      rw [hlonger]
      exact longer.summary?_chars hbefore (Count.endsLine_dropWhile errors)

/-! ### Below the line -/

theorem Count.exists_gap {c : Count} {x y : List Char} (hbefore : '\n' ∉ c.before)
    (hafter : '\n' ∉ c.after) (hx : x.getLast? = some '\n') (heq : c.chars = x ++ y) :
    ∃ blanks, Blank blanks ∧ y = blanks ++ (c.digits ++ c.after) :=
  (c.cases_of_suffix hbefore hx heq).resolve_right fun h => hafter h.1

theorem summary?_eq_none {cs : List Char} (h : ∀ d ∈ cs, isBlank d = true ∨ isDigit d = true) :
    summary? cs = none := by
  rw [← List.takeWhile_append_dropWhile (p := isBlank) (l := cs)]
  refine summary?_blank_append (fun d hd => List.mem_takeWhile_imp hd) fun d hd => .inr ?_
  have hstop := List.head?_dropWhile_not isBlank cs
  rw [Option.mem_def.mp hd] at hstop
  have hmem : d ∈ cs := (List.dropWhile_sublist _).subset (List.mem_of_mem_head? hd)
  exact (h d hmem).resolve_left (by simpa using hstop)

theorem Meets.summary?_below {x y errors : List Char} (h : Meets (x ++ y) errors)
    (hx : x.getLast? = some '\n') : summary? y = none ∧ summary? (y ++ errors) = none := by
  cases h with
  | hidden c hbefore hafter hc _ =>
    obtain ⟨blanks, hblanks, rfl⟩ := c.exists_gap hbefore hafter hx hc.symm
    have hnone := c.summary?_blank_digits hblanks []
    rw [List.append_nil] at hnone
    exact ⟨hnone, c.summary?_blank_digits hblanks errors⟩
  | @made c hbefore hafter rest after hc _ herrors _ =>
    rw [List.append_assoc] at hc
    obtain ⟨blanks, hblanks, hy⟩ := c.exists_gap hbefore hafter hx hc
    refine ⟨summary?_eq_none fun d hd => ?_, ?_⟩
    · have hmem : d ∈ blanks ++ (c.digits ++ c.after) := hy ▸ List.mem_append_left _ hd
      simp only [List.mem_append] at hmem
      rcases hmem with hmem | hmem | hmem
      · exact .inl (hblanks d hmem)
      · exact .inr (c.isDigit_digits d hmem)
      · exact .inl (c.blank_after d hmem)
    · rw [herrors, ← List.append_assoc, hy]
      exact c.summary?_blank_digits hblanks after

/-! ### All lines -/

theorem summaries_eq_nil_iff {cs : List Char} :
    summaries cs = [] ↔ ∀ skipped c after, ¬Found [] cs skipped c after := by
  constructor
  · intro hnil
    cases scan_iff.mpr hnil.symm with
    | done h => exact h
  · exact fun h => (scan_iff.mp (.done h)).symm

theorem countsAfter_eq_nil {before cs : List Char} (h : summaries cs = []) :
    countsAfter before cs = [] := by
  rw [summaries, List.filterMap_eq_nil_iff] at h
  rw [countsAfter_eq, List.filterMap_eq_nil_iff]
  intro start hstart
  refine h start ?_
  split_ifs at hstart with hline
  · exact hstart
  · exact List.mem_cons_of_mem _ hstart

/-- Where there are errors behind the output, one line is read with them. -/
theorem exists_counts_append {errors : List Char} (hnone : summaries errors = []) :
    ∀ before output : List Char, ∃ kept above line, output = above ++ line ∧
      (line ≠ [] → StartsLine (before ++ above) ∧ Meets line errors) ∧
      countsAfter before output = kept ++ (summary? line).toList ∧
      countsAfter before (output ++ errors) = kept ++ (summary? (line ++ errors)).toList
  | before, [] => by
    have hfirst : summary? errors = none :=
      List.filterMap_eq_nil_iff.mp hnone errors (List.mem_cons_self ..)
    refine ⟨[], [], [], rfl, fun h => absurd rfl h, rfl, ?_⟩
    rw [List.nil_append, List.nil_append, countsAfter_eq_nil hnone, hfirst]
    rfl
  | before, c :: cs => by
    -- from the line that meets the errors no other count begins; before it all counts are kept
    by_cases hmeets : StartsLine before ∧ Meets (c :: cs) errors
    · obtain ⟨hstart, hmeets⟩ := hmeets
      have hbelow : ∀ a b, cs = a ++ b → b ≠ [] → StartsLine (before ++ [c] ++ a) →
          summary? b = none ∧ summary? (b ++ errors) = none := fun a b hab _ hline => by
        rw [List.append_assoc] at hline
        rw [hab, ← List.cons_append] at hmeets
        exact hmeets.summary?_below (hline.getLast?_eq nofun)
      have houtput : countsAfter (before ++ [c]) (cs ++ []) =
          countsAfter (before ++ [c] ++ cs) [] :=
        countsAfter_append fun a b hab hb hline => by
          rw [List.append_nil]
          exact (hbelow a b hab hb hline).1
      have hboth : countsAfter (before ++ [c]) (cs ++ errors) =
          countsAfter (before ++ [c] ++ cs) errors :=
        countsAfter_append fun a b hab hb hline => (hbelow a b hab hb hline).2
      rw [List.append_nil] at houtput
      refine ⟨[], [], c :: cs, rfl, fun _ => ⟨by rwa [List.append_nil], hmeets⟩, ?_, ?_⟩
      · rw [countsAfter, if_pos hstart, houtput]
        exact List.append_nil _
      · rw [List.cons_append, countsAfter, if_pos hstart, hboth, countsAfter_eq_nil hnone]
        exact List.append_nil _
    · obtain ⟨kept, above, line, hcs, hline, houtput, hboth⟩ :=
        exists_counts_append hnone (before ++ [c]) cs
      have hfirst : (if StartsLine before then (summary? (c :: (cs ++ errors))).toList else []) =
          if StartsLine before then (summary? (c :: cs)).toList else [] := by
        split_ifs with hstart
        · rw [← List.cons_append,
            summary?_append_of_not_meets fun h => hmeets ⟨hstart, h⟩]
        · rfl
      refine ⟨(if StartsLine before then (summary? (c :: cs)).toList else []) ++ kept, c :: above,
        line, by rw [hcs]; rfl, fun hne => ?_, ?_, ?_⟩
      · rw [← List.singleton_append, ← List.append_assoc]
        exact hline hne
      · rw [countsAfter, houtput, List.append_assoc]
      · rw [List.cons_append, countsAfter, hfirst, hboth, List.append_assoc]

/-- An output that ends its line is not torn by errors that do not begin with a number. -/
theorem not_torn {output errors : List Char} (hends : StartsLine output)
    (hnumber : ∀ d ∈ (errors.dropWhile isBlank).head?, isDigit d = false) :
    ¬Torn output errors := by
  rintro ⟨above, line, rfl, hne, -, hmeets⟩
  have hlast := hends.getLast?_eq hne
  cases hmeets with
  | hidden c hbefore hafter hc _ =>
    obtain ⟨blanks, -, hnil⟩ :=
      c.exists_gap hbefore hafter hlast (hc.symm.trans (List.append_nil _).symm)
    exact absurd hnil.symm (by simp [c.digits_ne_nil])
  | @made c hbefore hafter rest after hc _ herrors _ =>
    obtain ⟨blanks, hblanks, rfl⟩ := c.exists_gap hbefore hafter hlast hc
    obtain ⟨d, hd, hdigit⟩ := c.head?_digits (c.after ++ after)
    have hdrop : errors.dropWhile isBlank = c.digits ++ (c.after ++ after) := by
      rw [herrors, List.append_assoc, List.append_assoc]
      refine (run_append hblanks fun d' hd' => ?_).2
      exact isBlank_eq_false_of_isDigit (Option.some.inj (hd.symm.trans hd') ▸ hdigit)
    rw [hdrop] at hnumber
    exact Bool.false_ne_true ((hnumber d hd).symm.trans hdigit)

/-! ### The verdict -/

/-- Errors without a count leave the verdict as it is, but for a line of the output that meets them.
This is the one line that is read with the errors. -/
theorem verdict_of_streams {commands : Commands} {name : String} {t : FileTree} {path : Path}
    {run : Run} (hrun : commands name t path = .ok run)
    (hnone : ∀ skipped c after, ¬Found [] run.errors.toList skipped c after) :
    ∃ report, Checker.command commands name t path = .ok report ∧
      (¬Torn run.output.toList run.errors.toList →
        report.verdict = (Report.ofText run.output run.endedWell).verdict) ∧
      ∃ kept above line, run.output.toList = above ++ line ∧
        (line ≠ [] → StartsLine above ∧ Meets line run.errors.toList) ∧
        Scan [] run.output.toList (kept ++ (summary? line).toList) ∧
        ∀ found, found = kept ++ (summary? (line ++ run.errors.toList)).toList →
          Scan [] (run.output ++ run.errors).toList found ∧
          report.verdict =
            verdictOf (lastCount? .errors found) (lastCount? .warnings found) run.endedWell := by
  have hsummaries := summaries_eq_nil_iff.mpr hnone
  obtain ⟨kept, above, line, houtput, hline, hcounts, hboth⟩ :=
    exists_counts_append hsummaries [] run.output.toList
  rw [countsAfter_nil, ← String.toList_append] at hboth
  rw [countsAfter_nil] at hcounts
  refine ⟨run.report, by rw [Checker.command, hrun], fun hnot => ?_, kept, above, line, houtput,
    hline, scan_iff.mpr hcounts.symm, ?_⟩
  · -- no line meets the errors, so both texts have the same counts
    have hnil : line = [] := by
      by_contra hne
      exact hnot ⟨above, line, houtput, hne, hline hne⟩
    have hfirst : summary? run.errors.toList = none :=
      List.filterMap_eq_nil_iff.mp hsummaries _ (List.mem_cons_self ..)
    have hsame : summaries (run.output ++ run.errors).toList = summaries run.output.toList := by
      rw [hboth, hcounts, hnil, List.nil_append, hfirst]
      rfl
    simp only [Run.report, Report.ofText, hsame]
  · rintro found rfl
    exact ⟨scan_iff.mpr hboth.symm, by rw [← hboth]; rfl⟩

/-- Writes a count of one error, with something behind it, and then a line about itself. -/
def breakingOff (behind : String) : Commands := fun _ _ _ =>
  .ok ⟨"ERRORS detected: 1" ++ behind, "Traceback (most recent call last):", true⟩

/-- The error is lost if it is counted without an end of the line. -/
theorem verdict_of_streams_sample :
    (∃ report, Checker.command (breakingOff "\n") "cfchecks" default ⟨"co2.nc"⟩ = .ok report ∧
      report.verdict = .error) ∧
    (∃ report, Checker.command (breakingOff "") "cfchecks" default ⟨"co2.nc"⟩ = .ok report ∧
      report.verdict = .pass) ∧
    (Report.ofText "ERRORS detected: 1" true).verdict = .error := by
  have hnone : ∀ skipped c after,
      ¬Found [] "Traceback (most recent call last):".toList skipped c after :=
    summaries_eq_nil_iff.mp (by decide +kernel)
  obtain ⟨report, hreport, hsame, -⟩ := @verdict_of_streams (breakingOff "\n") "cfchecks" default
    ⟨"co2.nc"⟩ _ rfl hnone
  have hfirst : ("Traceback (most recent call last):".toList.dropWhile isBlank).head? = some 'T' :=
    by decide +kernel
  have hwhole : ¬Torn "ERRORS detected: 1\n".toList "Traceback (most recent call last):".toList :=
    not_torn (fun c hc => (Option.some.inj hc).symm) fun d hd =>
      Option.some.inj (hfirst.symm.trans hd) ▸ rfl
  refine ⟨⟨report, hreport, ?_⟩, ⟨_, rfl, by decide +kernel⟩, by decide +kernel⟩
  rw [hsame hwhole]
  decide +kernel

end ForcingData.Compliance
