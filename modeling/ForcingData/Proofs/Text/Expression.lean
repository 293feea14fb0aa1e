import ForcingData.Text.Notation
import Mathlib.Data.List.Basic

/-! # Regular expressions

What a pattern in the notation of regular expressions means. `Expression.read` gives the expression
that a text is the notation of; only what is written in this library is understood. An expression
takes a stretch of a text (`Expression.Takes`), and a text matches if there is a stretch that the
expression takes (`Expression.Matches`): nothing but the anchors makes it the whole text. -/

namespace ForcingData.Text

inductive Expression
  | empty
  /-- Nothing, at the start of the text. -/
  | start
  /-- Nothing, at the end of the text. -/
  | stop
  /-- One character of a class. -/
  | one (allows : Char → Bool)
  | seq (first second : Expression)
  | optional (e : Expression)
  | repeated (e : Expression)

namespace Expression

/-! ### Notation -/

/-- One expression after the other, given in the opposite order. -/
def sequence (parts : List Expression) : Expression := parts.reverse.foldr .seq .empty

/-- Reads the notation of an expression. The parts that stand in the groups that are open have been
read, the innermost group first and in each of them the last part first. -/
def read : List (List Expression) → List Char → Option Expression
  | groups, '(' :: '?' :: ':' :: rest => read ([] :: groups) rest
  | inner :: outer :: groups, ')' :: rest => read ((sequence inner :: outer) :: groups) rest
  | (e :: parts) :: groups, '*' :: rest => read ((.repeated e :: parts) :: groups) rest
  | (e :: parts) :: groups, '?' :: rest => read ((.optional e :: parts) :: groups) rest
  | parts :: groups, '^' :: rest => read ((.start :: parts) :: groups) rest
  | parts :: groups, '$' :: rest => read ((.stop :: parts) :: groups) rest
  | parts :: groups, '.' :: rest => read ((.one (· != '\n') :: parts) :: groups) rest
  | parts :: groups, '[' :: '^' :: c :: ']' :: rest =>
    if isMeta c then none else read ((.one (· != c) :: parts) :: groups) rest
  | parts :: groups, '\\' :: c :: rest =>
    if isMeta c then read ((.one (· == c) :: parts) :: groups) rest else none
  | parts :: groups, c :: rest =>
    if isMeta c then none else read ((.one (· == c) :: parts) :: groups) rest
  | [parts], [] => some (sequence parts)
  | _, [] => none
  | [], _ :: _ => none

/-- The expression that a text is the notation of. -/
def ofText? (text : String) : Option Expression := read [[]] text.toList

/-- A character that stands for itself, or does so after a backslash. -/
theorem read_escapeMeta (c : Char) (parts : List Expression) (groups : List (List Expression))
    (rest : List Char) : read (parts :: groups) (escapeMeta [c] ++ rest) =
      read ((.one (· == c) :: parts) :: groups) rest := by
  by_cases hc : isMeta c = true
  · have hescaped : escapeMeta [c] ++ rest = '\\' :: c :: rest := by simp [escapeMeta, hc]
    rw [hescaped, read, if_pos hc]
  · have hplain : escapeMeta [c] ++ rest = c :: rest := by simp [escapeMeta, hc]
    rw [hplain, read, if_neg hc]
    -- every other way to read a character begins with one that is special
    all_goals
      intros
      subst_vars
      exact hc (by decide)

/-! ### Meaning -/

/-- The expression takes the stretch between the texts that stand before and after it. -/
inductive Takes : Expression → List Char → List Char → List Char → Prop
  | empty (before after : List Char) : Takes .empty before [] after
  | start (after : List Char) : Takes .start [] [] after
  | stop (before : List Char) : Takes .stop before [] []
  | one {p : Char → Bool} {c : Char} (hc : p c = true) (before after : List Char) :
      Takes (.one p) before [c] after
  | seq {e f : Expression} {before x y after : List Char} (he : Takes e before x (y ++ after))
      (hf : Takes f (before ++ x) y after) : Takes (.seq e f) before (x ++ y) after
  | absent (e : Expression) (before after : List Char) : Takes (.optional e) before [] after
  | present {e : Expression} {before x after : List Char} (he : Takes e before x after) :
      Takes (.optional e) before x after
  | done (e : Expression) (before after : List Char) : Takes (.repeated e) before [] after
  | again {e : Expression} {before x y after : List Char} (he : Takes e before x (y ++ after))
      (hr : Takes (.repeated e) (before ++ x) y after) :
      Takes (.repeated e) before (x ++ y) after

/-- Somewhere in the text there is what the pattern says. -/
def Matches (pattern text : String) : Prop :=
  ∃ e, ofText? pattern = some e ∧
    ∃ before x after, text.toList = before ++ x ++ after ∧ e.Takes before x after

section
variable {e f : Expression} {p : Char → Bool} {before x after : List Char}

theorem takes_seq : (Expression.seq e f).Takes before x after ↔
    ∃ y z, x = y ++ z ∧ e.Takes before y (z ++ after) ∧ f.Takes (before ++ y) z after := by
  constructor
  · intro h
    cases h with
    | seq he hf => exact ⟨_, _, rfl, he, hf⟩
  · rintro ⟨y, z, rfl, he, hf⟩
    exact .seq he hf

theorem takes_one : (Expression.one p).Takes before x after ↔ ∃ c, p c = true ∧ x = [c] := by
  constructor
  · intro h
    cases h with
    | one hc => exact ⟨_, hc, rfl⟩
  · rintro ⟨c, hc, rfl⟩
    exact .one hc before after

theorem takes_empty : Expression.empty.Takes before x after ↔ x = [] := by
  constructor
  · intro h
    cases h
    rfl
  · rintro rfl
    exact .empty before after

theorem takes_start : Expression.start.Takes before x after ↔ before = [] ∧ x = [] := by
  constructor
  · intro h
    cases h
    exact ⟨rfl, rfl⟩
  · rintro ⟨rfl, rfl⟩
    exact .start after

theorem takes_stop : Expression.stop.Takes before x after ↔ x = [] ∧ after = [] := by
  constructor
  · intro h
    cases h
    exact ⟨rfl, rfl⟩
  · rintro ⟨rfl, rfl⟩
    exact .stop before

theorem takes_optional :
    (Expression.optional e).Takes before x after ↔ x = [] ∨ e.Takes before x after := by
  constructor
  · intro h
    cases h with
    | absent => exact .inl rfl
    | present he => exact .inr he
  · rintro (rfl | he)
    · exact .absent e before after
    · exact .present he

theorem takes_repeated_one : ∀ {x before : List Char},
    (Expression.repeated (.one p)).Takes before x after ↔ ∀ c ∈ x, p c = true := by
  intro x before
  constructor
  · intro h
    generalize hr : Expression.repeated (.one p) = r at h
    induction h with
    | empty | start | stop | one | seq | absent | present => cases hr
    | done => exact fun _ hc => absurd hc List.not_mem_nil
    | again he _ _ ih =>
      cases hr
      obtain ⟨c, hc, rfl⟩ := takes_one.mp he
      exact List.forall_mem_cons.mpr ⟨hc, ih rfl⟩
  · intro h
    induction x generalizing before with
    | nil => exact .done _ before after
    | cons c x ih =>
      obtain ⟨hc, hx⟩ := List.forall_mem_cons.mp h
      exact .again (x := [c]) (.one hc before _) (ih hx)

end

end Expression
end ForcingData.Text
