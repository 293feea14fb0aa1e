import ForcingData.Compliance.Report
import ForcingData.Proofs.Drs.Reading
import ForcingData.Proofs.Text.Blank
import ForcingData.Proofs.Text.Digit
import Mathlib.Data.Nat.Find

/-! # Counts in a report

A `Count` is a label and a number with blanks around them, which may go over several lines. A report
is searched for counts that begin with a line and end with one, each as near after the one before as
there is one (`Scan`). However many lines a count takes up before its label and after its number,
this gives the counts that single lines begin with, in order: no two of them share a label, and none
is passed over (`scan_iff`). -/

namespace ForcingData.Compliance
open Text

/-! ### Characters -/

theorem notMem_of_isDigit {digits : List Char} (h : ∀ c ∈ digits, isDigit c = true) :
    '\n' ∉ digits := fun hmem => absurd (h _ hmem) (by decide)

theorem Counted.label_notMem (counted : Counted) : '\n' ∉ counted.label.toList := by
  cases counted <;> decide

theorem Counted.head?_label (counted : Counted) (rest : List Char) :
    ∃ c, (counted.label.toList ++ rest).head? = some c ∧ isBlank c = false ∧ isDigit c = false := by
  cases counted
  · exact ⟨'E', rfl, by decide, by decide⟩
  · exact ⟨'W', rfl, by decide, by decide⟩

/-! ### Counts -/

/-- A label and a number, and the blanks before, between and after them. -/
structure Count where
  counted : Counted
  before : List Char
  gap : List Char
  digits : List Char
  after : List Char
  blank_before : Blank before
  blank_gap : Blank gap
  blank_after : Blank after
  digits_ne_nil : digits ≠ []
  isDigit_digits : ∀ c ∈ digits, isDigit c = true

/-- The text is over, or its line is. -/
def EndsLine (after : List Char) : Prop := ∀ c ∈ after.head?, c = '\n'

namespace Count

/-- What is behind the label. -/
def tail (c : Count) : List Char := c.gap ++ (c.digits ++ c.after)

def chars (c : Count) : List Char := c.before ++ (c.counted.label.toList ++ c.tail)

def value (c : Count) : Counted × Nat := (c.counted, countOf c.digits)

theorem chars_ne_nil (c : Count) : c.chars ≠ [] := by
  simp [chars, tail, c.digits_ne_nil]

variable {n : Nat}

theorem endsLine_dropWhile (cs : List Char) : EndsLine (cs.dropWhile (· != '\n')) := by
  intro c hc
  have hstop := List.head?_dropWhile_not (· != '\n') cs
  rw [Option.mem_def.mp hc] at hstop
  simpa using hstop

theorem head?_digits (c : Count) (rest : List Char) :
    ∃ d, (c.digits ++ rest).head? = some d ∧ isDigit d = true := by
  obtain ⟨d, ds, hds⟩ := List.exists_cons_of_ne_nil c.digits_ne_nil
  exact ⟨d, by rw [hds]; rfl, c.isDigit_digits d (hds ▸ List.mem_cons_self ..)⟩

theorem countAfter?_tail (c : Count) {after : List Char} (hends : EndsLine after) :
    countAfter? (c.tail ++ after) = some (countOf c.digits) := by
  have hdrop : (c.tail ++ after).dropWhile isBlank = c.digits ++ (c.after ++ after) := by
    rw [tail, List.append_assoc, List.append_assoc]
    refine (run_append c.blank_gap fun d hd => ?_).2
    obtain ⟨d', hd', hdigit⟩ := c.head?_digits (c.after ++ after)
    obtain rfl := Option.some.inj (hd'.symm.trans hd)
    exact isBlank_eq_false_of_isDigit hdigit
  -- the digits end where blanks or another line begin
  have hstop : ∀ d ∈ (c.after ++ after).head?, isDigit d = false := by
    intro d hd
    rcases hafter : c.after with _ | ⟨blank, blanks⟩
    · rw [hafter] at hd
      rw [hends d hd]
      decide
    · rw [hafter] at hd
      obtain rfl := Option.some.inj hd
      exact isDigit_eq_false_of_isBlank (c.blank_after _ (hafter ▸ List.mem_cons_self ..))
  obtain ⟨htake, hdropDigits⟩ := run_append c.isDigit_digits hstop
  have hall : ((c.after ++ after).takeWhile (· != '\n')).all isBlank = true := by
    rw [List.all_eq_true]
    intro d hd
    have hnil : after.takeWhile (· != '\n') = [] :=
      (run_append (v := []) nofun fun d hd => by simp [hends d hd]).1
    rw [List.takeWhile_append, hnil, List.append_nil] at hd
    split at hd
    · exact c.blank_after d hd
    · exact c.blank_after d ((List.takeWhile_prefix _).subset hd)
  simp only [countAfter?, hdrop, htake, hdropDigits, hall]
  simp [c.digits_ne_nil]

theorem summary?_eq_some_iff {counted : Counted} {cs : List Char} :
    summary? cs = some (counted, n) ↔
      ∃ rest, (cs.dropWhile fun c => isBlank c && c != '\n') = counted.label.toList ++ rest ∧
        countAfter? rest = some n := by
  generalize hline : (cs.dropWhile fun c => isBlank c && c != '\n') = line
  have hcount (counted' : Counted) : ((do
      return (counted', ← countAfter? (← dropPrefix? counted'.label.toList line)) :
        Option (Counted × Nat)) = some (counted, n)) ↔
      counted' = counted ∧ ∃ rest, line = counted'.label.toList ++ rest ∧
        countAfter? rest = some n := by
    simp only [Option.bind_eq_bind, Option.bind_eq_some_iff, dropPrefix?_eq_some, Option.pure_def,
      Option.some.injEq, Prod.mk.injEq]
    constructor
    · rintro ⟨rest, hrest, m, hm, rfl, rfl⟩
      exact ⟨rfl, rest, hrest, hm⟩
    · rintro ⟨rfl, rest, hrest, hm⟩
      exact ⟨rest, hrest, n, hm, rfl, rfl⟩
  simp only [summary?, hline]
  rw [Option.orElse_eq_some, hcount, hcount]
  -- where a line begins with the label of warnings, that of errors has been tried in vain
  cases counted with
  | errors => simp
  | warnings =>
    simp only [reduceCtorEq, false_and, true_and, false_or, and_iff_right_iff_imp]
    rintro ⟨rest, hrest, -⟩
    have hnone : dropPrefix? Counted.errors.label.toList line = none := by
      rw [hrest]
      rfl
    rw [hnone]
    rfl

theorem summary?_chars (c : Count) {after : List Char} (hbefore : '\n' ∉ c.before)
    (hends : EndsLine after) : summary? (c.chars ++ after) = some c.value := by
  refine summary?_eq_some_iff.mpr ⟨c.tail ++ after, ?_, c.countAfter?_tail hends⟩
  rw [chars, List.append_assoc, List.append_assoc]
  refine (run_append (fun d hd => ?_) fun d hd => ?_).2
  · rw [Bool.and_eq_true, bne_iff_ne]
    exact ⟨c.blank_before d hd, ne_of_mem_of_not_mem hd hbefore⟩
  · obtain ⟨d', hd', hblank, -⟩ := c.counted.head?_label (c.tail ++ after)
    obtain rfl := Option.some.inj (hd'.symm.trans hd)
    rw [hblank, Bool.false_and]

theorem exists_of_summary? {cs : List Char} {value : Counted × Nat}
    (h : summary? cs = some value) : ∃ (c : Count) (after : List Char), cs = c.chars ++ after ∧
      '\n' ∉ c.before ∧ '\n' ∉ c.after ∧ EndsLine after ∧ c.value = value := by
  obtain ⟨counted, n⟩ := value
  obtain ⟨rest, hline, h⟩ := summary?_eq_some_iff.mp h
  simp only [countAfter?, Bool.and_eq_true, decide_eq_true_eq, Option.ite_none_right_eq_some,
    Option.some.injEq, List.all_eq_true] at h
  obtain ⟨⟨hne, hafter⟩, rfl⟩ := h
  have hblank : ∀ d ∈ cs.takeWhile fun c => isBlank c && c != '\n', isBlank d = true ∧ d ≠ '\n' :=
    fun d hd => by simpa using List.mem_takeWhile_imp hd
  refine ⟨{
    counted := counted
    before := cs.takeWhile fun c => isBlank c && c != '\n'
    gap := rest.takeWhile isBlank
    digits := (rest.dropWhile isBlank).takeWhile isDigit
    after := ((rest.dropWhile isBlank).dropWhile isDigit).takeWhile (· != '\n')
    blank_before := fun d hd => (hblank d hd).1
    blank_gap := fun d hd => List.mem_takeWhile_imp hd
    blank_after := hafter
    digits_ne_nil := hne
    isDigit_digits := fun d hd => List.mem_takeWhile_imp hd },
    ((rest.dropWhile isBlank).dropWhile isDigit).dropWhile (· != '\n'), ?_,
    fun hmem => (hblank _ hmem).2 rfl, fun hmem => ?_, endsLine_dropWhile _, rfl⟩
  · simp only [chars, tail, List.append_assoc, List.takeWhile_append_dropWhile]
    rw [← hline, List.takeWhile_append_dropWhile]
  · simpa using List.mem_takeWhile_imp hmem

end Count

/-! ### Line after line -/

/-- A line begins after this text. -/
def StartsLine (before : List Char) : Prop := ∀ c ∈ before.getLast?, c = '\n'

instance : DecidablePred StartsLine := fun before =>
  inferInstanceAs (Decidable (∀ c ∈ before.getLast?, c = '\n'))

/-- The counts that the lines of a text begin with, the text standing after another one. -/
def countsAfter (before : List Char) : List Char → List (Counted × Nat)
  | [] => []
  | c :: cs =>
    (if StartsLine before then (summary? (c :: cs)).toList else []) ++
      countsAfter (before ++ [c]) cs

theorem startsLine_concat {before : List Char} {c : Char} :
    StartsLine (before ++ [c]) ↔ c = '\n' := by
  simp [StartsLine]

theorem countsAfter_eq (before : List Char) : ∀ cs : List Char, countsAfter before cs =
    ((if StartsLine before then [cs] else []) ++ afterLineFeeds cs).filterMap summary?
  | [] => by split_ifs <;> rfl
  | c :: cs => by
    have hfeeds : (if StartsLine (before ++ [c]) then [cs] else []) ++ afterLineFeeds cs =
        afterLineFeeds (c :: cs) := by
      simp only [startsLine_concat, afterLineFeeds]
      split_ifs <;> rfl
    have hfirst : (if StartsLine before then (summary? (c :: cs)).toList else []) =
        (if StartsLine before then [c :: cs] else []).filterMap summary? := by
      split_ifs
      · cases h : summary? (c :: cs) <;> simp [h]
      · rfl
    rw [countsAfter, countsAfter_eq, hfeeds, hfirst, List.filterMap_append]

theorem countsAfter_nil (cs : List Char) : countsAfter [] cs = summaries cs := by
  rw [countsAfter_eq, if_pos (by simp [StartsLine]), summaries, List.singleton_append]

/-- What no line with a count begins in can be passed over. -/
theorem countsAfter_append {rest : List Char} : ∀ {before skipped : List Char},
    (∀ a b, skipped = a ++ b → b ≠ [] → StartsLine (before ++ a) → summary? (b ++ rest) = none) →
      countsAfter before (skipped ++ rest) = countsAfter (before ++ skipped) rest
  | before, [], _ => by rw [List.nil_append, List.append_nil]
  | before, c :: skipped, h => by
    have htail : countsAfter (before ++ [c]) (skipped ++ rest) =
        countsAfter (before ++ [c] ++ skipped) rest :=
      countsAfter_append fun a b hab hb hstart =>
        h (c :: a) b (by rw [hab]; rfl) hb (by simpa using hstart)
    have hhead : (if StartsLine before then (summary? (c :: (skipped ++ rest))).toList else []) =
        [] := by
      split_ifs with hstart
      · rw [← List.cons_append, h [] (c :: skipped) rfl nofun (by rwa [List.append_nil])]
        rfl
      · rfl
    rw [List.cons_append, countsAfter, hhead, htail, List.nil_append, List.append_assoc,
      List.singleton_append]

theorem summary?_blank_append {blanks rest : List Char} (hb : Blank blanks)
    (hr : ∀ c ∈ rest.head?, c = '\n' ∨ isDigit c = true) : summary? (blanks ++ rest) = none := by
  have on_line {blanks rest : List Char} (hb : Blank blanks) (hn : '\n' ∉ blanks)
      (hr : ∀ c ∈ rest.head?, c = '\n' ∨ isDigit c = true) : summary? (blanks ++ rest) = none := by
    have hdrop : (blanks ++ rest).dropWhile (fun c => isBlank c && c != '\n') = rest := by
      refine (run_append (fun c hc => ?_) fun c hc => ?_).2
      · rw [Bool.and_eq_true, bne_iff_ne]
        exact ⟨hb c hc, ne_of_mem_of_not_mem hc hn⟩
      · rcases hr c hc with rfl | hdigit
        · rfl
        · rw [isBlank_eq_false_of_isDigit hdigit, Bool.false_and]
    rw [Option.eq_none_iff_forall_ne_some]
    rintro ⟨counted, n⟩ h
    obtain ⟨rest', hline, -⟩ := Count.summary?_eq_some_iff.mp h
    obtain ⟨c, hc, hblank, hdigit⟩ := counted.head?_label rest'
    rw [← hline, hdrop] at hc
    rcases hr c hc with rfl | hdigit'
    · exact absurd hblank (by decide)
    · exact Bool.false_ne_true (hdigit.symm.trans hdigit')
  by_cases hn : '\n' ∈ blanks
  · obtain ⟨first, others, rfl, hfirst⟩ := List.eq_append_cons_of_mem hn
    rw [List.append_assoc]
    exact on_line (hb.mono (List.subset_append_left ..)) hfirst fun c hc =>
      .inl (Option.some.inj hc).symm
  · exact on_line hb hn hr

/-! ### One count after the other -/

/-- A count in a text that stands after another one: where it begins a line begins, and where it
ends one ends. -/
structure Found (before rest skipped : List Char) (c : Count) (after : List Char) : Prop where
  eq : rest = skipped ++ (c.chars ++ after)
  starts : StartsLine (before ++ skipped)
  ends : EndsLine after

/-- One count after the other, each as near as there is one. How far it goes does not matter. -/
inductive Scan : List Char → List Char → List (Counted × Nat) → Prop
  | done {before rest : List Char}
      (h : ∀ skipped c after, ¬Found before rest skipped c after) : Scan before rest []
  | next {before rest skipped after : List Char} {c : Count} {found : List (Counted × Nat)}
      (h : Found before rest skipped c after)
      (nearest : ∀ skipped' c' after', Found before rest skipped' c' after' →
        skipped.length ≤ skipped'.length)
      (hs : Scan (before ++ skipped ++ c.chars) after found) : Scan before rest (c.value :: found)

theorem Found.of_summary? {before a b : List Char} {value : Counted × Nat}
    (hstart : StartsLine (before ++ a)) (h : summary? b = some value) :
    ∃ c after, Found before (a ++ b) a c after := by
  obtain ⟨c, after, rfl, -, -, hends, -⟩ := Count.exists_of_summary? h
  exact ⟨c, after, rfl, hstart, hends⟩

theorem exists_scan (before rest : List Char) : ∃ found, Scan before rest found := by
  classical
  induction hlen : rest.length using Nat.strong_induction_on generalizing before rest with
  | _ len ih =>
    by_cases h : ∃ n skipped c after, Found before rest skipped c after ∧ skipped.length = n
    · obtain ⟨skipped, c, after, hfound, hnearest⟩ := Nat.find_spec h
      have hshorter : after.length < len := by
        have hpos := List.length_pos_of_ne_nil c.chars_ne_nil
        have hrest := congrArg List.length hfound.eq
        simp only [List.length_append] at hrest
        omega
      obtain ⟨found, hscan⟩ := ih _ hshorter (before ++ skipped ++ c.chars) after rfl
      refine ⟨_, .next hfound (fun skipped' c' after' h' => ?_) hscan⟩
      rw [hnearest]
      exact Nat.find_min' h ⟨skipped', c', after', h', rfl⟩
    · exact ⟨[], .done fun skipped c after hfound => h ⟨_, skipped, c, after, hfound, rfl⟩⟩

/-- Behind a line feed in a count there are blanks and then the number, or nothing but blanks. -/
theorem Count.cases_of_suffix (c : Count) {x y : List Char} (hbefore : '\n' ∉ c.before)
    (hx : x.getLast? = some '\n') (heq : c.chars = x ++ y) :
    (∃ blanks, Blank blanks ∧ y = blanks ++ (c.digits ++ c.after)) ∨
      '\n' ∈ c.after ∧ Blank y := by
  rw [chars, tail, ← List.append_assoc, ← List.append_assoc] at heq
  rcases List.append_eq_append_iff.mp heq with ⟨number, hnumber, hy⟩ | ⟨blanks, hgap, hy⟩
  · rcases List.eq_nil_or_concat number with rfl | ⟨front, d, rfl⟩
    · exact .inl ⟨[], .nil, hy.symm⟩
    · rw [List.concat_eq_append] at hnumber hy
      rw [hnumber, ← List.append_assoc, List.getLast?_concat] at hx
      obtain rfl := Option.some.inj hx
      have hdigits := notMem_of_isDigit c.isDigit_digits
      have hmem : '\n' ∈ c.digits ++ c.after := hy ▸ by simp
      refine .inr ⟨(List.mem_append.mp hmem).resolve_left hdigits, ?_⟩
      rcases List.append_eq_append_iff.mp hy with ⟨_, -, hafter⟩ | ⟨_, hfront, -⟩
      · exact c.blank_after.mono (hafter ▸ List.subset_append_right ..)
      · exact absurd (hfront ▸ by simp) hdigits
  · refine .inl ⟨blanks, ?_, hy⟩
    rcases List.append_eq_append_iff.mp hgap with ⟨first, -, hfirst⟩ | ⟨label, hlabel, -⟩
    · exact c.blank_gap.mono (hfirst ▸ List.subset_append_right ..)
    · have hmem : '\n' ∈ c.before ++ c.counted.label.toList :=
        hlabel ▸ List.mem_append_left _ (List.mem_of_getLast? hx)
      exact absurd hmem (by simp [hbefore, c.counted.label_notMem])

theorem Count.summary?_blank_digits (c : Count) {blanks : List Char} (hblanks : Blank blanks)
    (rest : List Char) : summary? (blanks ++ (c.digits ++ c.after) ++ rest) = none := by
  rw [List.append_assoc, List.append_assoc]
  refine summary?_blank_append hblanks fun d hd => .inr ?_
  obtain ⟨d', hd', hdigit⟩ := c.head?_digits (c.after ++ rest)
  exact Option.some.inj (hd'.symm.trans hd) ▸ hdigit

theorem Count.summary?_of_suffix (c : Count) {x y after : List Char} (hbefore : '\n' ∉ c.before)
    (hends : EndsLine after) (hx : x.getLast? = some '\n') (heq : c.chars = x ++ y) :
    summary? (y ++ after) = none := by
  rcases c.cases_of_suffix hbefore hx heq with ⟨blanks, hblanks, rfl⟩ | ⟨-, hblank⟩
  · exact c.summary?_blank_digits hblanks after
  · exact summary?_blank_append hblank fun d hd => .inl (hends d hd)

theorem StartsLine.append {a b : List Char} (ha : StartsLine a) (hb : StartsLine b) :
    StartsLine (a ++ b) := by
  rcases b.eq_nil_or_concat with rfl | ⟨front, c, rfl⟩
  · rwa [List.append_nil]
  · rw [List.concat_eq_append] at hb ⊢
    rw [← List.append_assoc, startsLine_concat]
    exact startsLine_concat.mp hb

theorem StartsLine.getLast?_eq {a b : List Char} (h : StartsLine (a ++ b)) (hb : b ≠ []) :
    b.getLast? = some '\n' := by
  obtain ⟨c, hc⟩ := Option.isSome_iff_exists.mp (List.getLast?_isSome.mpr hb)
  rw [hc, h c (by rw [List.getLast?_append_of_ne_nil _ hb, hc]; rfl)]

theorem exists_lastLine : ∀ cs : List Char, ∃ a b, cs = a ++ b ∧ StartsLine a ∧ '\n' ∉ b
  | [] => ⟨[], [], rfl, nofun, List.not_mem_nil⟩
  | c :: cs => by
    obtain ⟨a, b, rfl, ha, hb⟩ := exists_lastLine cs
    by_cases hc : c = '\n'
    · have hfirst : StartsLine [c] := by simpa [StartsLine] using hc
      exact ⟨[c] ++ a, b, rfl, hfirst.append ha, hb⟩
    · rcases a with _ | ⟨d, a⟩
      · exact ⟨[], c :: b, rfl, nofun, by simp [hb, Ne.symm hc]⟩
      · exact ⟨c :: d :: a, b, rfl, by simpa [StartsLine] using ha, hb⟩

theorem Scan.eq_countsAfter {before rest : List Char} {found : List (Counted × Nat)}
    (h : Scan before rest found) : found = countsAfter before rest := by
  induction h with
  | @done before rest h =>
    have hskip : countsAfter before (rest ++ []) = countsAfter (before ++ rest) [] := by
      refine countsAfter_append fun a b hab _ hstart => ?_
      rw [List.append_nil, Option.eq_none_iff_forall_ne_some]
      intro value hvalue
      obtain ⟨c, after, hfound⟩ := Found.of_summary? hstart hvalue
      exact h a c after (hab ▸ hfound)
    rw [List.append_nil] at hskip
    rw [hskip, countsAfter]
  | @next before rest skipped after c found h nearest hs ih =>
    -- the line of the label begins after the last line feed among the blanks before it
    obtain ⟨above, indent, hbefore, habove, hindent⟩ := exists_lastLine c.before
    have hblank : Blank (above ++ indent) := hbefore ▸ c.blank_before
    let line : Count :=
      { c with before := indent, blank_before := hblank.mono (List.subset_append_right ..) }
    have hchars : c.chars = above ++ line.chars := by
      rw [Count.chars, hbefore, List.append_assoc]
      rfl
    have hstart : StartsLine (before ++ (skipped ++ above)) := by
      rw [← List.append_assoc]
      exact h.starts.append habove
    have hskip : countsAfter before ((skipped ++ above) ++ (line.chars ++ after)) =
        countsAfter (before ++ (skipped ++ above)) (line.chars ++ after) := by
      refine countsAfter_append fun a b hab hb hline => ?_
      by_contra hsome
      obtain ⟨value, hvalue⟩ := Option.ne_none_iff_exists'.mp hsome
      obtain ⟨c', after', hfound⟩ := Found.of_summary? hline hvalue
      have hrest : rest = a ++ (b ++ (line.chars ++ after)) := by
        rw [h.eq, hchars, ← List.append_assoc a, ← hab]
        simp only [List.append_assoc]
      have hle := nearest a c' after' (hrest ▸ hfound)
      obtain ⟨z, rfl⟩ : ∃ z, above = z ++ b := by
        rcases List.append_eq_append_iff.mp hab with ⟨z, -, habove⟩ | ⟨z, hskipped, rfl⟩
        · exact ⟨z, habove⟩
        · have hlen := congrArg List.length hskipped
          rw [List.length_append] at hlen
          exact ⟨[], by rw [List.eq_nil_of_length_eq_zero (by omega : z.length = 0)]; rfl⟩
      obtain ⟨blanks, rfl⟩ := List.getLast?_eq_some_iff.mp (habove.getLast?_eq hb)
      have hnone : summary? (blanks ++ ('\n' :: (line.chars ++ after))) = none := by
        refine summary?_blank_append (hblank.mono fun e he => ?_) fun e he =>
          .inl (Option.some.inj he).symm
        simp [he]
      rw [List.append_assoc, List.singleton_append, hnone] at hvalue
      cases hvalue
    obtain ⟨d, w, hdw⟩ := List.exists_cons_of_ne_nil line.chars_ne_nil
    have hbehind : countsAfter (before ++ (skipped ++ above) ++ [d]) (w ++ after) =
        countsAfter (before ++ (skipped ++ above) ++ [d] ++ w) after := by
      refine countsAfter_append fun a b hab _ hline => ?_
      rw [List.append_assoc, List.singleton_append] at hline
      exact line.summary?_of_suffix hindent h.ends (hline.getLast?_eq nofun) (by rw [hdw, hab]; rfl)
    have hrest : rest = (skipped ++ above) ++ (line.chars ++ after) := by
      rw [h.eq, hchars]
      simp only [List.append_assoc]
    have hcount : summary? (line.chars ++ after) = some c.value :=
      line.summary?_chars hindent h.ends
    rw [hrest, hskip]
    rw [hdw, List.cons_append] at hcount ⊢
    rw [countsAfter, if_pos hstart, hcount, hbehind, ih, hchars, hdw]
    simp

theorem scan_iff {cs : List Char} {found : List (Counted × Nat)} :
    Scan [] cs found ↔ found = summaries cs := by
  rw [← countsAfter_nil]
  refine ⟨Scan.eq_countsAfter, ?_⟩
  rintro rfl
  obtain ⟨found, h⟩ := exists_scan [] cs
  exact h.eq_countsAfter ▸ h

end ForcingData.Compliance
