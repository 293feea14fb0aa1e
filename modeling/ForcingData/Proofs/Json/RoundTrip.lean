import ForcingData.Proofs.Json.Number
import ForcingData.Proofs.Json.Text

/-! # JSON, there and back

`Tree.ofBytes?_pretty`: what is written for a value is read as the tree of this value, provided that
its numbers are whole numbers of 64 bits. -/

namespace ForcingData.Json

/-- A whole number of 64 bits. -/
def Number.isWhole : Number → Bool
  | .int n => 0 ≤ n && n ≤ Lexeme.maxSignificand
  | .float _ => false

mutual

/-- All numbers are whole numbers of 64 bits. -/
def Value.isPlain : Value → Bool
  | .number n => n.isWhole
  | .array items => Value.arePlain items
  | .object members => Value.membersArePlain members
  | _ => true

def Value.arePlain : List Value → Bool
  | [] => true
  | v :: vs => v.isPlain && Value.arePlain vs

def Value.membersArePlain : List (String × Value) → Bool
  | [] => true
  | m :: ms => m.2.isPlain && Value.membersArePlain ms

end

/-- What follows a value: a comma, a line break, or nothing. -/
def EndsValue (rest : List Char) : Prop := ∀ c, rest.head? = some c → c = ',' ∨ c = '\n'

theorem EndsValue.number {rest : List Char} (h : EndsValue rest) : EndsNumber rest := by
  intro c hc
  rcases h c hc with rfl | rfl <;> decide

theorem endsValue_prettyItems (indent : Nat) (vs : List Value) (rest : List Char) :
    EndsValue (prettyItems indent vs ++ rest) := by
  intro c hc
  cases vs <;> simp [prettyItems, newline] at hc <;> simp [← hc]

theorem endsValue_prettyMembers (indent : Nat) (ms : List (String × Value)) (rest : List Char) :
    EndsValue (prettyMembers indent ms ++ rest) := by
  intro c hc
  cases ms <;> simp [prettyMembers, newline] at hc <;> simp [← hc]

/-! ### Blanks -/

theorem skipSpace_cons {c : Char} (h : isSpace c = false) (cs : List Char) :
    skipSpace (c :: cs) = c :: cs :=
  List.dropWhile_cons_of_neg (by simp [h])

theorem skipSpace_newline (indent : Nat) (cs : List Char) :
    skipSpace (newline indent ++ cs) = skipSpace cs := by
  have h : ∀ c ∈ newline indent, isSpace c = true := by
    intro c hc
    rcases List.mem_cons.mp hc with rfl | hc
    · rfl
    · rw [List.eq_of_mem_replicate hc]
      rfl
  exact List.dropWhile_append_of_pos h

theorem parseTree_newline (fuel indent : Nat) (cs : List Char) :
    parseTree fuel (newline indent ++ cs) = parseTree fuel cs := by
  cases fuel with
  | zero => rfl
  | succ fuel => rw [parseTree, parseTree, skipSpace_newline]

theorem parseTree_blank (fuel : Nat) (cs : List Char) :
    parseTree fuel (' ' :: cs) = parseTree fuel cs := by
  cases fuel with
  | zero => rfl
  | succ fuel =>
    rw [parseTree, parseTree]
    rfl

theorem parseItems_newline (fuel indent : Nat) (cs : List Char) :
    parseItems fuel (newline indent ++ cs) = parseItems fuel cs := by
  cases fuel with
  | zero => rfl
  | succ fuel => rw [parseItems, parseItems, parseTree_newline]

theorem parseMembers_newline (fuel indent : Nat) (cs : List Char) :
    parseMembers fuel (newline indent ++ cs) = parseMembers fuel cs := by
  cases fuel with
  | zero => rfl
  | succ fuel => rw [parseMembers, parseMembers, skipSpace_newline]

/-! ### The first character -/

/-- The kinds of characters that values begin with. -/
def beginsValue (c : Char) : Bool :=
  c == 'n' || c == 't' || c == 'f' || c == '"' || c == '[' || c == '\x7b' || isDecimal c

theorem isDecimal_head {m : Nat} {c : Char} {cs : List Char} (h : (Number.int m).chars = c :: cs) :
    isDecimal c = true := by
  rw [chars_int] at h
  exact isDecimal_of_mem_toDigits (m := m) (by simp [h])

theorem exists_prettyChars {v : Value} (h : v.isPlain = true) (indent : Nat) :
    ∃ c cs, v.prettyChars indent = c :: cs ∧ beginsValue c = true := by
  cases v with
  | null => exact ⟨_, _, rfl, rfl⟩
  | bool b => cases b <;> exact ⟨_, _, rfl, rfl⟩
  | number n =>
    cases n with
    | float f => cases h
    | int n =>
      obtain ⟨m, rfl⟩ : ∃ m : Nat, n = m := by
        simp only [Value.isPlain, Number.isWhole, Bool.and_eq_true, decide_eq_true_eq] at h
        exact ⟨n.toNat, by omega⟩
      obtain ⟨c, cs, hcs⟩ := List.exists_cons_of_ne_nil (l := (Number.int m).chars)
        (by rw [chars_int]; exact Nat.toDigits_ne_nil)
      exact ⟨c, cs, hcs, by simp [beginsValue, isDecimal_head hcs]⟩
  | text s => exact ⟨_, _, rfl, rfl⟩
  | array items => cases items <;> exact ⟨_, _, rfl, rfl⟩
  | object members => cases members <;> exact ⟨_, _, rfl, rfl⟩

theorem not_isSpace_of_beginsValue {c : Char} (h : beginsValue c = true) :
    isSpace c = false ∧ c ≠ ']' := by
  have hne : ∀ d, beginsValue d = false → c ≠ d := by
    rintro d hd rfl
    rw [h] at hd
    cases hd
  refine ⟨?_, hne ']' rfl⟩
  simp [isSpace, hne ' ' rfl, hne '\t' rfl, hne '\n' rfl, hne '\r' rfl]

/-! ### Values -/

theorem parseTree_int {fuel m : Nat} {rest : List Char} (h : EndsValue rest)
    (hm : m ≤ Lexeme.maxSignificand) :
    parseTree (fuel + 1) ((Number.int m).chars ++ rest) = some (.number (some (.int m)), rest) := by
  obtain ⟨c, cs, hcs⟩ := List.exists_cons_of_ne_nil (l := (Number.int m).chars)
    (by rw [chars_int]; exact Nat.toDigits_ne_nil)
  have hc := isDecimal_head hcs
  have hlexeme := parseLexeme_int m h.number
  have hspace : isSpace c = false := (not_isSpace_of_beginsValue (by simp [beginsValue, hc])).1
  rw [hcs, List.cons_append] at hlexeme ⊢
  rw [parseTree, skipSpace_cons hspace]
  split
  all_goals
    try
      rename_i heq
      rw [(List.cons.inj heq).1] at hc
      cases hc
  rw [hlexeme]
  simp only [Option.map_some, number?_int hm]

mutual

theorem parseTree_pretty : ∀ {v : Value} (_ : v.isPlain = true) (indent fuel : Nat)
    {rest : List Char} (_ : EndsValue rest) (_ : (v.prettyChars indent).length < fuel),
      parseTree fuel (v.prettyChars indent ++ rest) = some (v.tree, rest)
  | _, _, _, 0, _, _, hlen => absurd hlen (Nat.not_lt_zero _)
  | .null, _, _, fuel + 1, rest, _, _ => by
    rw [parseTree]
    rfl
  | .bool true, _, _, fuel + 1, rest, _, _ => by
    rw [parseTree]
    rfl
  | .bool false, _, _, fuel + 1, rest, _, _ => by
    rw [parseTree]
    rfl
  | .number (.int n), hplain, _, fuel + 1, rest, hrest, _ => by
    simp only [Value.isPlain, Number.isWhole, Bool.and_eq_true, decide_eq_true_eq] at hplain
    obtain ⟨m, rfl⟩ : ∃ m : Nat, n = m := ⟨n.toNat, by omega⟩
    exact parseTree_int hrest (by omega)
  | .text s, _, _, fuel + 1, rest, _, _ => by
    rw [Value.prettyChars, textChars_append, parseTree, skipSpace_cons (by rfl)]
    simp only [parseText_escaped, Option.map_some, Value.tree]
  | .array [], _, _, fuel + 1, rest, _, _ => by
    rw [parseTree]
    rfl
  -- behind the opening bracket there is a line break, and then no closing one
  | .array (v :: vs), hplain, indent, fuel + 1, rest, _, hlen => by
    simp only [Value.isPlain, Value.arePlain, Bool.and_eq_true] at hplain
    obtain ⟨c, cs, hcs, hc⟩ := exists_prettyChars hplain.1 (indent + 1)
    obtain ⟨hspace, hclose⟩ := not_isSpace_of_beginsValue hc
    have hitems := parseItems_pretty hplain.1 hplain.2 indent fuel rest (by
      simp only [Value.prettyChars, List.length_cons, List.length_append] at hlen ⊢
      omega)
    have hskip : skipSpace (newline (indent + 1) ++ (v.prettyChars (indent + 1) ++
        (prettyItems indent vs ++ rest))) = c :: (cs ++ (prettyItems indent vs ++ rest)) := by
      rw [skipSpace_newline, hcs, List.cons_append, skipSpace_cons hspace]
    rw [Value.prettyChars, List.cons_append, List.cons_append, List.cons_append, parseTree,
      skipSpace_cons (by rfl)]
    simp only [List.append_assoc, hskip]
    split
    · rename_i heq
      exact absurd (List.cons.inj heq).1 hclose
    · rw [← List.cons_append, ← hcs, hitems]
      rfl
  | .object [], _, _, fuel + 1, rest, _, _ => by
    rw [parseTree]
    rfl
  | .object (m :: ms), hplain, indent, fuel + 1, rest, _, hlen => by
    simp only [Value.isPlain, Value.membersArePlain, Bool.and_eq_true] at hplain
    have hmembers := parseMembers_pretty m.1 hplain.1 hplain.2 indent fuel rest (by
      simp only [Value.prettyChars, List.length_cons, List.length_append] at hlen ⊢
      omega)
    have hskip : skipSpace (newline (indent + 1) ++ (textChars m.1 ++ ':' :: ' ' ::
        (m.2.prettyChars (indent + 1) ++ (prettyMembers indent ms ++ rest)))) =
          textChars m.1 ++ ':' :: ' ' ::
            (m.2.prettyChars (indent + 1) ++ (prettyMembers indent ms ++ rest)) := by
      rw [skipSpace_newline, textChars_append, skipSpace_cons (by rfl)]
    rw [Value.prettyChars, List.cons_append, List.cons_append, List.cons_append, List.cons_append,
      parseTree, skipSpace_cons (by rfl)]
    simp only [List.append_assoc, List.cons_append, hskip]
    split
    · rename_i heq
      rw [textChars_append] at heq
      exact absurd (List.cons.inj heq).1 (by decide)
    · rw [hmembers]
      rfl

theorem parseItems_pretty : ∀ {v : Value} {vs : List Value} (_ : v.isPlain = true)
    (_ : Value.arePlain vs = true) (indent fuel : Nat) (rest : List Char)
    (_ : (v.prettyChars (indent + 1)).length + (prettyItems indent vs).length < fuel),
      parseItems fuel (v.prettyChars (indent + 1) ++ (prettyItems indent vs ++ rest)) =
        some (v.tree :: Value.trees vs, rest)
  | _, _, _, _, _, 0, _, hlen => absurd hlen (Nat.not_lt_zero _)
  | v, [], hv, _, indent, fuel + 1, rest, hlen => by
    have hitem := parseTree_pretty hv (indent + 1) fuel (endsValue_prettyItems indent [] rest) (by
      simp only [prettyItems, List.length_append, List.length_cons] at hlen
      omega)
    -- the last item is followed by the closing bracket, every other one by a comma
    have hskip : skipSpace (prettyItems indent [] ++ rest) = ']' :: rest := by
      rw [prettyItems, List.append_assoc, skipSpace_newline]
      rfl
    rw [parseItems, hitem]
    simp only [Option.bind_eq_bind, Option.bind_some, hskip]
    rfl
  | v, w :: vs, hv, hvs, indent, fuel + 1, rest, hlen => by
    simp only [Value.arePlain, Bool.and_eq_true] at hvs
    simp only [prettyItems, List.length_append, List.length_cons] at hlen
    have hitem := parseTree_pretty hv (indent + 1) fuel
      (endsValue_prettyItems indent (w :: vs) rest) (by omega)
    have hitems := parseItems_pretty hvs.1 hvs.2 indent fuel rest (by omega)
    have hskip : skipSpace (prettyItems indent (w :: vs) ++ rest) = ',' :: (newline (indent + 1) ++
        (w.prettyChars (indent + 1) ++ (prettyItems indent vs ++ rest))) := by
      simp only [prettyItems, List.cons_append, List.append_assoc]
      exact skipSpace_cons (by rfl) _
    rw [parseItems, hitem]
    simp only [Option.bind_eq_bind, Option.bind_some, hskip, parseItems_newline, hitems]
    rfl

theorem parseMembers_pretty : ∀ (name : String) {v : Value} {ms : List (String × Value)}
    (_ : v.isPlain = true) (_ : Value.membersArePlain ms = true) (indent fuel : Nat)
    (rest : List Char) (_ : (textChars name).length + (v.prettyChars (indent + 1)).length +
      (prettyMembers indent ms).length < fuel),
      parseMembers fuel (textChars name ++ ':' :: ' ' :: (v.prettyChars (indent + 1) ++
        (prettyMembers indent ms ++ rest))) =
        some ((some name, v.tree) :: Value.memberTrees ms, rest)
  | _, _, _, _, _, _, 0, _, hlen => absurd hlen (Nat.not_lt_zero _)
  | name, v, [], hv, _, indent, fuel + 1, rest, hlen => by
    simp only [prettyMembers, List.length_append, List.length_cons] at hlen
    have hitem := parseTree_pretty hv (indent + 1) fuel (endsValue_prettyMembers indent [] rest)
      (by omega)
    have hskip : skipSpace (prettyMembers indent [] ++ rest) = '\x7d' :: rest := by
      rw [prettyMembers, List.append_assoc, skipSpace_newline]
      rfl
    rw [textChars_append, parseMembers, skipSpace_cons (by rfl)]
    simp only [parseText_escaped, Option.bind_eq_bind, Option.bind_some]
    rw [skipSpace_cons (by rfl)]
    simp only [parseTree_blank, hitem, Option.bind_some, hskip]
    rfl
  | name, v, m :: ms, hv, hms, indent, fuel + 1, rest, hlen => by
    simp only [Value.membersArePlain, Bool.and_eq_true] at hms
    simp only [prettyMembers, List.length_append, List.length_cons] at hlen
    have hitem := parseTree_pretty hv (indent + 1) fuel
      (endsValue_prettyMembers indent (m :: ms) rest) (by omega)
    have hmembers := parseMembers_pretty m.1 hms.1 hms.2 indent fuel rest (by omega)
    have hskip : skipSpace (prettyMembers indent (m :: ms) ++ rest) =
        ',' :: (newline (indent + 1) ++ (textChars m.1 ++ ':' :: ' ' ::
          (m.2.prettyChars (indent + 1) ++ (prettyMembers indent ms ++ rest)))) := by
      simp only [prettyMembers, List.cons_append, List.append_assoc]
      exact skipSpace_cons (by rfl) _
    rw [textChars_append, parseMembers, skipSpace_cons (by rfl)]
    simp only [parseText_escaped, Option.bind_eq_bind, Option.bind_some]
    rw [skipSpace_cons (by rfl)]
    simp only [parseTree_blank, hitem, Option.bind_some, hskip, parseMembers_newline, hmembers]
    rfl

end

/-! ### Whole texts -/

theorem Tree.parse?_pretty {v : Value} (h : v.isPlain = true) :
    Tree.parse? v.pretty = some v.tree := by
  have hend : EndsValue [] := by simp [EndsValue]
  have htree := parseTree_pretty h 0 ((v.prettyChars 0).length + 1) hend (by omega)
  rw [List.append_nil] at htree
  rw [Tree.parse?, Value.pretty, String.toList_ofList, Tree.parseChars?, htree]
  rfl

theorem fromUTF8?_toUTF8 (s : String) : String.fromUTF8? s.toUTF8 = some s :=
  dif_pos s.isValidUTF8

theorem Tree.ofBytes?_pretty {v : Value} (h : v.isPlain = true) :
    Tree.ofBytes? v.pretty.toUTF8 = some v.tree := by
  rw [Tree.ofBytes?, fromUTF8?_toUTF8]
  exact Tree.parse?_pretty h

end ForcingData.Json
