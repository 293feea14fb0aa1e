import ForcingData.Proofs.Text.Expression
import ForcingData.Vocabulary.Entry
import Mathlib.Computability.Language

/-! # What globs mean

`Glob.language` reads a glob from left to right and says which texts it stands for. The tokens of
the glob stand for the same texts (`language_eq_languageOf`). The two forms in which the tokens are
used, the decision and the regular expression, agree on every text
(`matches_expression_iff_accepts`), and with the language on texts without line feeds, which `**`
does not take (`mem_takenBy_iff`). -/

namespace ForcingData.Glob
open Text

/-! ### Languages -/

/-- Nothing, or a text that ends in a slash. -/
def directories : Language Char := {t | t = [] ∨ t.getLast? = some '/'}

/-- Texts without a slash. -/
def slashless : Language Char := {t | '/' ∉ t}

/-- The texts of one character, which is no slash. -/
def character : Language Char := {t | ∃ c, c ≠ '/' ∧ t = [c]}

/-- The texts that a glob stands for. -/
def language : List Char → Language Char
  | '*' :: '*' :: '/' :: rest => directories * language rest
  | '*' :: '*' :: rest => ⊤ * language rest
  | '*' :: rest => slashless * language rest
  | '?' :: rest => character * language rest
  | c :: rest => {[c]} * language rest
  | [] => 1

/-- The texts that a token stands for. -/
def Token.language : Token → Language Char
  | .directories => Glob.directories
  | .anything => ⊤
  | .name => slashless
  | .one => character
  | .literal c => {[c]}

/-- The texts that tokens stand for, one after the other. -/
def languageOf (ts : List Token) : Language Char := (ts.map Token.language).prod

theorem languageOf_cons (t : Token) (ts : List Token) :
    languageOf (t :: ts) = t.language * languageOf ts := by
  rw [languageOf, List.map_cons, List.prod_cons, languageOf]

theorem language_eq_languageOf (glob : List Char) : language glob = languageOf (tokens glob) := by
  fun_induction tokens glob with
  | case1 rest ih => rw [language, languageOf_cons, ih, Token.language]
  | case2 rest hslash ih =>
    rw [language, languageOf_cons, ih, Token.language]
    exact hslash
  | case3 rest hslash hstar ih =>
    rw [language, languageOf_cons, ih, Token.language]
    · exact hslash
    · exact hstar
  | case4 rest ih => rw [language, languageOf_cons, ih, Token.language]
  | case5 c rest h₁ h₂ h₃ h₄ ih =>
    rw [language, languageOf_cons, ih, Token.language]
    · exact h₁
    · exact h₂
    · exact h₃
    · exact h₄
  | case6 => rfl

/-! ### Deciding -/

variable {ts : List Token} {cs : List Char}

theorem afterAny_eq_true {p : Char → Bool} {next : List Char → Bool} : ∀ {cs : List Char},
    afterAny p next cs = true ↔
      ∃ a b, cs = a ++ b ∧ (∀ c ∈ a, p c = true) ∧ next b = true
  | [] => by simp [afterAny]
  | c :: cs => by
    rw [afterAny, Bool.or_eq_true, Bool.and_eq_true, afterAny_eq_true]
    constructor
    · rintro (h | ⟨hc, a, b, rfl, ha, hb⟩)
      · exact ⟨[], c :: cs, rfl, nofun, h⟩
      · exact ⟨c :: a, b, rfl, List.forall_mem_cons.mpr ⟨hc, ha⟩, hb⟩
    · rintro ⟨a, b, heq, ha, hb⟩
      cases a with
      | nil => exact .inl (heq ▸ hb)
      | cons x a =>
        obtain ⟨rfl, rfl⟩ := List.cons.inj heq
        obtain ⟨hc, ha⟩ := List.forall_mem_cons.mp ha
        exact .inr ⟨hc, a, b, rfl, ha, hb⟩

theorem afterSlash_eq_true {next : List Char → Bool} : ∀ {cs : List Char},
    afterSlash next cs = true ↔ ∃ a b, cs = a ++ '/' :: b ∧ '\n' ∉ a ∧ next b = true
  | [] => by simp [afterSlash]
  | c :: cs => by
    rw [afterSlash, Bool.and_eq_true, Bool.or_eq_true, Bool.and_eq_true, afterSlash_eq_true,
      bne_iff_ne, beq_iff_eq]
    constructor
    · rintro ⟨hc, ⟨rfl, h⟩ | ⟨a, b, rfl, ha, hb⟩⟩
      · exact ⟨[], cs, rfl, List.not_mem_nil, h⟩
      · exact ⟨c :: a, b, rfl, by simp [ha, hc.symm], hb⟩
    · rintro ⟨a, b, heq, ha, hb⟩
      cases a with
      | nil =>
        obtain ⟨rfl, rfl⟩ := List.cons.inj heq
        exact ⟨by decide, .inl ⟨rfl, hb⟩⟩
      | cons x a =>
        obtain ⟨rfl, rfl⟩ := List.cons.inj heq
        rw [List.mem_cons, not_or] at ha
        exact ⟨Ne.symm ha.1, .inr ⟨a, b, rfl, ha.2, hb⟩⟩

/-- What a token takes of a text, which is no line feed where it could be anything. -/
def Token.taken : Token → Language Char
  | .directories => {t | t = [] ∨ ∃ s, t = s ++ ['/'] ∧ '\n' ∉ s}
  | .anything => {t | '\n' ∉ t}
  | .name => slashless
  | .one => character
  | .literal c => {[c]}

/-- The texts that tokens take, one after the other. -/
def takenBy (ts : List Token) : Language Char := (ts.map Token.taken).prod

theorem mem_prod_cons {f : Token → Language Char} {t : Token} :
    cs ∈ ((t :: ts).map f).prod ↔ ∃ a b, cs = a ++ b ∧ a ∈ f t ∧ b ∈ (ts.map f).prod := by
  rw [List.map_cons, List.prod_cons, Language.mem_mul]
  constructor
  · rintro ⟨a, ha, b, hb, rfl⟩
    exact ⟨a, b, rfl, ha, hb⟩
  · rintro ⟨a, b, rfl, ha, hb⟩
    exact ⟨a, ha, b, hb, rfl⟩

theorem mem_takenBy_cons {t : Token} : cs ∈ takenBy (t :: ts) ↔
    ∃ a b, cs = a ++ b ∧ a ∈ t.taken ∧ b ∈ takenBy ts := mem_prod_cons

theorem acceptsTokens_iff : ∀ {ts : List Token} {cs : List Char},
    acceptsTokens ts cs = true ↔ cs ∈ takenBy ts
  | [], cs => by
    rw [acceptsTokens, List.isEmpty_iff]
    exact (Language.mem_one cs).symm
  -- directories are left out, or end before the slash that the next token follows
  | .directories :: ts, cs => by
    rw [acceptsTokens, Bool.or_eq_true, afterSlash_eq_true, acceptsTokens_iff,
      mem_takenBy_cons]
    constructor
    · rintro (hcs | ⟨a, b, rfl, ha, hb⟩)
      · exact ⟨[], cs, rfl, .inl rfl, hcs⟩
      · exact ⟨a ++ ['/'], b, by simp, .inr ⟨a, rfl, ha⟩, acceptsTokens_iff.mp hb⟩
    · rintro ⟨a, b, rfl, rfl | ⟨s, rfl, hs⟩, hb⟩
      · exact .inl hb
      · exact .inr ⟨s, b, by simp, hs, acceptsTokens_iff.mpr hb⟩
  | .anything :: ts, cs => by
    rw [acceptsTokens, afterAny_eq_true, mem_takenBy_cons]
    simp only [bne_iff_ne, acceptsTokens_iff]
    exact exists₂_congr fun a b => and_congr_right fun _ => and_congr_left fun _ =>
      List.forall_mem_ne'
  | .name :: ts, cs => by
    rw [acceptsTokens, afterAny_eq_true, mem_takenBy_cons]
    simp only [bne_iff_ne, acceptsTokens_iff]
    exact exists₂_congr fun a b => and_congr_right fun _ => and_congr_left fun _ =>
      List.forall_mem_ne'
  | .one :: ts, [] => by
    rw [acceptsTokens, mem_takenBy_cons]
    refine iff_of_false Bool.false_ne_true ?_
    rintro ⟨a, b, heq, ⟨c, _, rfl⟩, _⟩
    cases heq
  | .one :: ts, c :: cs => by
    rw [acceptsTokens, Bool.and_eq_true, bne_iff_ne, acceptsTokens_iff, mem_takenBy_cons]
    constructor
    · rintro ⟨hc, hcs⟩
      exact ⟨[c], cs, rfl, ⟨c, hc, rfl⟩, hcs⟩
    · rintro ⟨a, b, heq, ⟨x, hx, rfl⟩, hb⟩
      obtain ⟨rfl, rfl⟩ := List.cons.inj heq
      exact ⟨hx, hb⟩
  | .literal x :: ts, [] => by
    rw [acceptsTokens, mem_takenBy_cons]
    refine iff_of_false Bool.false_ne_true ?_
    rintro ⟨a, b, heq, rfl, _⟩
    cases heq
  | .literal x :: ts, c :: cs => by
    rw [acceptsTokens, Bool.and_eq_true, beq_iff_eq, acceptsTokens_iff, mem_takenBy_cons]
    constructor
    · rintro ⟨rfl, hcs⟩
      exact ⟨[c], cs, rfl, rfl, hcs⟩
    · rintro ⟨a, b, heq, rfl, hb⟩
      obtain ⟨rfl, rfl⟩ := List.cons.inj heq
      exact ⟨rfl, hb⟩

theorem mem_taken_iff {t : Token} (h : '\n' ∉ cs) : cs ∈ t.taken ↔ cs ∈ t.language := by
  cases t with
  | directories =>
    refine or_congr_right (.trans ?_ List.getLast?_eq_some_iff.symm)
    exact exists_congr fun s => and_iff_left_of_imp fun hcs hmem =>
      h (hcs ▸ List.mem_append_left _ hmem)
  | anything => exact iff_of_true h (Set.mem_univ cs)
  | name => rfl
  | one => rfl
  | literal c => rfl

theorem mem_takenBy_iff (h : '\n' ∉ cs) : cs ∈ takenBy ts ↔ cs ∈ languageOf ts := by
  induction ts generalizing cs with
  | nil => rfl
  | cons t ts ih =>
    rw [takenBy, languageOf, mem_prod_cons, mem_prod_cons]
    refine exists₂_congr fun a b => and_congr_right ?_
    rintro rfl
    rw [List.mem_append, not_or] at h
    exact and_congr (mem_taken_iff h.1) (ih h.2)

/-! ### The regular expression -/

/-- What a token is written as in a regular expression. -/
def Token.expression : Token → Expression
  | .directories => .optional (.seq (.repeated (.one (· != '\n'))) (.seq (.one (· == '/')) .empty))
  | .anything => .repeated (.one (· != '\n'))
  | .name => .repeated (.one (· != '/'))
  | .one => .one (· != '/')
  | .literal c => .one (· == c)

theorem read_chars (t : Token) (parts : List Expression) (rest : List Char) :
    Expression.read [parts] (t.chars ++ rest) = Expression.read [t.expression :: parts] rest := by
  cases t with
  | directories => rfl
  | anything => rfl
  | name => rfl
  | one => rfl
  | literal c => exact Expression.read_escapeMeta c parts [] rest

theorem read_tokens (ts : List Token) (parts : List Expression) (rest : List Char) :
    Expression.read [parts] (ts.flatMap Token.chars ++ rest) =
      Expression.read [(ts.map Token.expression).reverse ++ parts] rest := by
  induction ts generalizing parts with
  | nil => rfl
  | cons t ts ih =>
    rw [List.flatMap_cons, List.append_assoc, read_chars, ih, List.map_cons, List.reverse_cons,
      List.append_assoc, List.singleton_append]

/-- The tokens up to the end of the text. -/
def upToEnd (ts : List Token) : Expression :=
  (ts.map Token.expression).foldr .seq (.seq .stop .empty)

theorem ofText?_expression (glob : String) :
    Expression.ofText? (expression glob) =
      some (.seq .start (upToEnd (tokens glob.toList))) := by
  have htext : (expression glob).toList =
      '^' :: ((tokens glob.toList).flatMap Token.chars ++ ['$']) := by
    simp [expression]
  have hread : Expression.ofText? (expression glob) = Expression.read [[.start]]
      ((tokens glob.toList).flatMap Token.chars ++ ['$']) := by
    rw [Expression.ofText?, htext]
    rfl
  rw [hread, read_tokens]
  simp [Expression.read, Expression.sequence, upToEnd]

theorem takes_expression {t : Token} {before x after : List Char} :
    t.expression.Takes before x after ↔ x ∈ t.taken := by
  cases t with
  | directories =>
    rw [Token.expression, Expression.takes_optional, Expression.takes_seq]
    refine or_congr_right ?_
    -- what is taken ends in a slash, and is anything before it
    constructor
    · rintro ⟨y, z, rfl, hy, hz⟩
      obtain ⟨_, _, rfl, hslash, hempty⟩ := Expression.takes_seq.mp hz
      obtain ⟨c, hc, rfl⟩ := Expression.takes_one.mp hslash
      obtain rfl := Expression.takes_empty.mp hempty
      obtain rfl := beq_iff_eq.mp hc
      refine ⟨y, rfl, fun hmem => ?_⟩
      exact absurd (Expression.takes_repeated_one.mp hy _ hmem) (by decide)
    · rintro ⟨s, rfl, hs⟩
      refine ⟨s, ['/'], rfl, Expression.takes_repeated_one.mpr fun c hc => ?_, ?_⟩
      · exact bne_iff_ne.mpr fun he => hs (he ▸ hc)
      · exact Expression.takes_seq.mpr ⟨['/'], [], rfl, .one rfl _ _, .empty _ _⟩
  | anything =>
    rw [Token.expression, Expression.takes_repeated_one]
    simp only [bne_iff_ne]
    exact List.forall_mem_ne'
  | name =>
    rw [Token.expression, Expression.takes_repeated_one]
    simp only [bne_iff_ne]
    exact List.forall_mem_ne'
  | one =>
    rw [Token.expression, Expression.takes_one]
    exact exists_congr fun c => and_congr_left fun _ => bne_iff_ne
  | literal x =>
    rw [Token.expression, Expression.takes_one]
    simp only [beq_iff_eq, exists_eq_left]
    rfl

theorem takes_upToEnd : ∀ {ts : List Token} {before x after : List Char},
    (upToEnd ts).Takes before x after ↔ x ∈ takenBy ts ∧ after = []
  | [], before, x, after => by
    rw [upToEnd, List.map_nil, List.foldr_nil, Expression.takes_seq]
    simp only [Expression.takes_stop, Expression.takes_empty]
    constructor
    · rintro ⟨_, _, rfl, ⟨rfl, hafter⟩, rfl⟩
      exact ⟨rfl, hafter⟩
    · rintro ⟨hx, rfl⟩
      exact ⟨[], [], hx, ⟨rfl, rfl⟩, rfl⟩
  | t :: ts, before, x, after => by
    rw [upToEnd, List.map_cons, List.foldr_cons, ← upToEnd, Expression.takes_seq,
      mem_takenBy_cons]
    simp only [takes_expression, takes_upToEnd]
    constructor
    · rintro ⟨y, z, rfl, hy, hz, hafter⟩
      exact ⟨⟨y, z, rfl, hy, hz⟩, hafter⟩
    · rintro ⟨⟨y, z, rfl, hy, hz⟩, hafter⟩
      exact ⟨y, z, rfl, hy, hz, hafter⟩

/-- The decision is the one of the regular expression, also where there are line feeds. -/
theorem matches_expression_iff_accepts {glob text : String} :
    Expression.Matches (expression glob) text ↔ accepts glob text = true := by
  rw [accepts, acceptsTokens_iff, Expression.Matches, ofText?_expression]
  simp only [Option.some.injEq, exists_eq_left', Expression.takes_seq, Expression.takes_start,
    takes_upToEnd]
  constructor
  · rintro ⟨before, _, after, htext, y, z, rfl, ⟨rfl, rfl⟩, hz, rfl⟩
    rw [List.nil_append, List.nil_append, List.append_nil] at htext
    rwa [htext]
  · intro hmem
    exact ⟨[], text.toList, [], by simp, [], text.toList, rfl, ⟨rfl, rfl⟩, hmem, rfl⟩

theorem accepts_iff {glob text : String} (h : '\n' ∉ text.toList) :
    accepts glob text = true ↔ text.toList ∈ language glob.toList := by
  rw [accepts, acceptsTokens_iff, mem_takenBy_iff h, language_eq_languageOf]

theorem matches_expression_iff {glob text : String} (h : '\n' ∉ text.toList) :
    Expression.Matches (expression glob) text ↔ text.toList ∈ language glob.toList :=
  matches_expression_iff_accepts.trans (accepts_iff h)

/-- A glob means what it says, as a regular expression and where it is decided: an activity accepts
the sources that one of its globs stands for, and every source if it has none. -/
theorem means_language {text : String} (h : '\n' ∉ text.toList) :
    (∀ glob, Expression.Matches (expression glob) text ↔ text.toList ∈ language glob.toList) ∧
    (∀ glob, accepts glob text = true ↔ text.toList ∈ language glob.toList) ∧
    ∀ a : Activity, a.accepts text = true ↔
      a.patterns = [] ∨ ∃ glob ∈ a.patterns, text.toList ∈ language glob.toList := by
  refine ⟨fun glob => matches_expression_iff h, fun glob => accepts_iff h, fun a => ?_⟩
  rw [Activity.accepts, Activity.restricts, Bool.not_not, Bool.or_eq_true, List.isEmpty_iff,
    List.any_eq_true]
  simp only [accepts_iff h]

theorem means_language_sample :
    '\n' ∉ "CR.é-1".toList ∧ Expression.Matches (expression "**/CR.?-*") "CR.é-1" ∧
      ¬Expression.Matches (expression "CR?é.1") "CR.é-1" ∧
      (⟨"", "", ["UoM-*", "CR.é*"]⟩ : Activity).accepts "CR.é-1" = true := by
  have h : '\n' ∉ "CR.é-1".toList := by decide
  obtain ⟨hmatches, haccepts, hactivity⟩ := means_language h
  refine ⟨h, (hmatches _).mpr ((haccepts _).mp (by decide)), fun hm => ?_, ?_⟩
  · exact Bool.false_ne_true ((haccepts "CR?é.1").mpr ((hmatches _).mp hm))
  · exact (hactivity _).mpr (.inr ⟨"CR.é*", by decide, (haccepts _).mp (by decide)⟩)

end ForcingData.Glob
