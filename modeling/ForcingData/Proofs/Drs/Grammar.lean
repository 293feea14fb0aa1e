import ForcingData.Proofs.Drs.Template

/-! # The grammar of template texts

`IsTemplate` says of the text alone which texts are templates. A text that is none has a
`Violation`: a beginning that is `Readable`, and after it something that can not be read there, so
that this is the first thing that is wrong with it. The scanner stands at a known place after a
readable beginning (`Readable.run`) and is stopped by what is `Refused` there (`Refused.run`), so it
accepts exactly the templates and names the first violation of all other texts
(`Template.grammar_decided`). -/

namespace ForcingData.Drs

/-! ### Templates -/

/-- What may stand between `<` and `>`. -/
def IsKey (key : List Char) : Prop := key ≠ [] ∧ '>' ∉ key

/-- The inside of a section; is there a placeholder in it? -/
inductive IsSection : Bool → List Char → Prop
  | nil : IsSection false []
  | char {c : Char} (hc : c ∉ ['<', '[', ']']) {keyed : Bool} {cs : List Char}
      (h : IsSection keyed cs) : IsSection keyed (c :: cs)
  | placeholder {key : List Char} (hk : IsKey key) {keyed : Bool} {cs : List Char}
      (h : IsSection keyed cs) : IsSection true ('<' :: key ++ '>' :: cs)

inductive IsTemplate : List Char → Prop
  | nil : IsTemplate []
  | char {c : Char} (hc : c ∉ ['<', '[']) {cs : List Char} (h : IsTemplate cs) :
      IsTemplate (c :: cs)
  | placeholder {key : List Char} (hk : IsKey key) {cs : List Char} (h : IsTemplate cs) :
      IsTemplate ('<' :: key ++ '>' :: cs)
  | optional {inner : List Char} (hi : IsSection true inner) {cs : List Char}
      (h : IsTemplate cs) : IsTemplate ('[' :: inner ++ ']' :: cs)

/-! ### What is wrong with a text -/

/-- A place in a text: outside of sections, or in a section, after a placeholder of it or not. -/
abbrev Place := Option Bool

/-- Beginnings of texts with which nothing is wrong, and the place they lead to. -/
inductive Readable : Place → List Char → Prop
  | outside {cs : List Char} (h : IsTemplate cs) : Readable none cs
  | inside {cs inner : List Char} {keyed : Bool} (h : IsTemplate cs) (hi : IsSection keyed inner) :
      Readable (some keyed) (cs ++ '[' :: inner)

/-- What can not be read at a place. -/
inductive Refused : Place → List Char → TemplateError.Cause → Prop
  | unclosedPlaceholder (place : Place) {cs : List Char} (h : '>' ∉ cs) :
      Refused place ('<' :: cs) .unclosedPlaceholder
  | emptyKey (place : Place) (cs : List Char) : Refused place ('<' :: '>' :: cs) .emptyKey
  | nestedOptional (keyed : Bool) (cs : List Char) :
      Refused (some keyed) ('[' :: cs) .nestedOptional
  | optionalWithoutKey (cs : List Char) : Refused (some false) (']' :: cs) .optionalWithoutKey
  | unclosedOptional (keyed : Bool) : Refused (some keyed) [] .unclosedOptional

/-- The first thing that is wrong with a text. -/
inductive Violation : List Char → TemplateError.Cause → Prop
  | intro {place : Place} {before rest : List Char} {cause : TemplateError.Cause}
      (h : Readable place before) (hr : Refused place rest cause) : Violation (before ++ rest) cause

/-- After `<` comes a key, nothing, or no `>` at all. -/
theorem isKey_or_refused (cs : List Char) :
    (∃ key rest, IsKey key ∧ cs = key ++ '>' :: rest) ∨
      ∃ cause, ∀ place, Refused place ('<' :: cs) cause := by
  by_cases hmem : '>' ∈ cs
  · obtain ⟨key, rest, rfl, hk⟩ := List.eq_append_cons_of_mem hmem
    by_cases hne : key = []
    · subst hne
      exact .inr ⟨_, fun place => .emptyKey place rest⟩
    · exact .inl ⟨key, rest, ⟨hne, hk⟩, rfl⟩
  · exact .inr ⟨_, fun place => .unclosedPlaceholder place hmem⟩

/-- A section goes on up to a `]` or to something that no section has. -/
theorem isSection_or_refused (cs : List Char) : ∃ keyed inner rest,
    IsSection keyed inner ∧ cs = inner ++ rest ∧
      (rest.head? = some ']' ∨ ∃ cause, ∀ keyed, Refused (some keyed) rest cause) := by
  match cs with
  | [] => exact ⟨_, _, _, .nil, rfl, .inr ⟨_, .unclosedOptional⟩⟩
  | c :: cs =>
    by_cases hc : c ∉ ['<', '[', ']']
    · obtain ⟨keyed, inner, rest, hi, rfl, h⟩ := isSection_or_refused cs
      exact ⟨keyed, c :: inner, rest, .char hc hi, rfl, h⟩
    simp only [List.mem_cons, List.not_mem_nil, or_false, not_not] at hc
    rcases hc with rfl | rfl | rfl
    · rcases isKey_or_refused cs with ⟨key, rest, hk, rfl⟩ | ⟨cause, hr⟩
      · obtain ⟨keyed, inner, rest, hi, rfl, h⟩ := isSection_or_refused rest
        exact ⟨true, '<' :: key ++ '>' :: inner, rest, .placeholder hk hi, by simp, h⟩
      · exact ⟨_, _, _, .nil, rfl, .inr ⟨cause, fun _ => hr _⟩⟩
    · exact ⟨_, _, _, .nil, rfl, .inr ⟨_, fun keyed => .nestedOptional keyed cs⟩⟩
    · exact ⟨_, _, _, .nil, rfl, .inl rfl⟩
termination_by cs.length
decreasing_by all_goals simp_all <;> omega

theorem IsTemplate.append {a b : List Char} (h : IsTemplate a) (hb : IsTemplate b) :
    IsTemplate (a ++ b) := by
  induction h with
  | nil => exact hb
  | char hc _ ih => exact .char hc ih
  | placeholder hk _ ih => simpa using IsTemplate.placeholder hk ih
  | optional hi _ ih => simpa using IsTemplate.optional hi ih

theorem Violation.append {a b : List Char} {cause : TemplateError.Cause} (ha : IsTemplate a)
    (h : Violation b cause) : Violation (a ++ b) cause := by
  obtain ⟨h, hr⟩ := h
  rw [← List.append_assoc]
  cases h with
  | outside h => exact .intro (.outside (ha.append h)) hr
  | inside h hi =>
    rw [← List.append_assoc]
    exact .intro (.inside (ha.append h) hi) hr

theorem isTemplate_or_violation (cs : List Char) :
    IsTemplate cs ∨ ∃ cause, Violation cs cause := by
  match cs with
  | [] => exact .inl .nil
  | c :: cs =>
    -- what comes first is a template of its own, and the rest decides
    have rest (a b : List Char) (ha : IsTemplate a) (hcs : c :: cs = a ++ b)
        (h : IsTemplate b ∨ ∃ cause, Violation b cause) :
        IsTemplate (c :: cs) ∨ ∃ cause, Violation (c :: cs) cause := by
      rw [hcs]
      exact h.imp ha.append fun ⟨cause, h⟩ => ⟨cause, .append ha h⟩
    by_cases hc : c ∉ ['<', '[']
    · exact rest [c] cs (.char hc .nil) rfl (isTemplate_or_violation cs)
    simp only [List.mem_cons, List.not_mem_nil, or_false, not_not] at hc
    rcases hc with rfl | rfl
    · rcases isKey_or_refused cs with ⟨key, b, hk, rfl⟩ | ⟨cause, hr⟩
      · exact rest ('<' :: key ++ ['>']) b (.placeholder hk .nil) (by simp)
          (isTemplate_or_violation b)
      · have first : Violation ([] ++ '<' :: cs) cause := .intro (.outside .nil) (hr none)
        exact .inr ⟨cause, first⟩
    · obtain ⟨keyed, inner, b, hi, rfl, h⟩ := isSection_or_refused cs
      have inside {cause : TemplateError.Cause} (hr : Refused (some keyed) b cause) :
          Violation ([] ++ '[' :: inner ++ b) cause := .intro (.inside .nil hi) hr
      rcases h with h | ⟨cause, hr⟩
      · obtain ⟨b, rfl⟩ := List.head?_eq_some_iff.mp h
        cases keyed with
        | true =>
          exact rest ('[' :: inner ++ [']']) b (.optional hi .nil) (by simp)
            (isTemplate_or_violation b)
        | false => exact .inr ⟨_, inside (.optionalWithoutKey b)⟩
      · exact .inr ⟨cause, inside (hr keyed)⟩
termination_by cs.length
decreasing_by all_goals simp_all <;> omega

/-! ### Pieces of a template -/

/-- The brackets that are not plain text at a place. -/
def Place.brackets : Place → List Char
  | none => ['<', '[']
  | some _ => ['<', '[', ']']

/-- What an item at a place is like. -/
def Item.FitsAt (place : Place) : Item → Prop
  | .literal text => text ≠ [] ∧ ∀ c ∈ text, c ∉ place.brackets
  | .key name => IsKey name.toList

def Piece.IsWellFormed : Piece → Prop
  | .item i => i.FitsAt none
  | .optional items => (∀ i ∈ items, i.FitsAt (some true)) ∧ items.any Item.isKey = true

namespace Scan

/-- The scan is at a place between characters, and all it has put down is well formed. -/
structure At (s : Scan) (place : Place) : Prop where
  key? : s.key? = none
  group? : s.group?.map (·.any Item.isKey) = place
  pieces : ∀ p ∈ s.pieces, p.IsWellFormed
  items : ∀ items ∈ s.group?, ∀ i ∈ items, i.FitsAt (some true)
  literal : ∀ c ∈ s.literal, c ∉ place.brackets

variable {s t : Scan} {place : Place} {i : Item}

theorem At.start : At {} none := ⟨rfl, rfl, by simp, by simp, by simp⟩

theorem At.put (h : s.At place) (hi : i.FitsAt place) :
    (s.put i).At (place.map (· || i.isKey)) := by
  obtain ⟨hk, rfl, hp, hg, hl⟩ := h
  unfold Scan.put
  cases hgroup : s.group? with
  | none =>
    rw [hgroup] at hi hl
    refine ⟨hk, by simp, fun p hmem => ?_, by simp, hl⟩
    rcases List.mem_append.mp hmem with hmem | hmem
    · exact hp p hmem
    · obtain rfl := List.mem_singleton.mp hmem
      exact hi
  | some items =>
    rw [hgroup] at hi hl
    refine ⟨hk, by simp, hp, fun items' hmem j hj => ?_, hl⟩
    obtain rfl := Option.mem_some.mp hmem
    rcases List.mem_append.mp hj with hj | hj
    · exact hg items hgroup j hj
    · obtain rfl := List.mem_singleton.mp hj
      exact hi

theorem At.withLiteral (h : s.At place) {text : List Char} (ht : ∀ c ∈ text, c ∉ place.brackets) :
    At { s with literal := text } place :=
  ⟨h.key?, h.group?, h.pieces, h.items, ht⟩

theorem At.flush (h : s.At place) : s.flush.At place := by
  unfold Scan.flush
  split
  · exact h
  · rename_i hne
    have hput := h.put (i := .literal s.literal) ⟨hne, h.literal⟩
    simp only [Item.isKey, Bool.or_false, Option.map_id'] at hput
    exact hput.withLiteral (by simp)

theorem At.group_eq_none (h : s.At none) : s.group? = none := Option.map_eq_none_iff.mp h.group?

theorem At.exists_group {keyed : Bool} (h : s.At (some keyed)) :
    ∃ items, s.group? = some items ∧ items.any Item.isKey = keyed :=
  Option.map_eq_some_iff.mp h.group?

/-! ### What is read -/

theorem run_cons_of_step {c : Char} (h : s.step c = .ok t) (cs : List Char) :
    s.run (c :: cs) = t.run cs := by
  rw [run, h]
  rfl

theorem run_cons_of_error {c : Char} {cause : TemplateError.Cause} (h : s.step c = .error cause)
    (cs : List Char) : s.run (c :: cs) >>= finish = .error cause := by
  rw [run, h]
  rfl

theorem At.step_char (h : s.At place) {c : Char} (hc : c ∉ place.brackets) :
    ∃ t, s.step c = .ok t ∧ t.At place := by
  have hlt : c ≠ '<' := fun e => hc (by cases place <;> simp [Place.brackets, e])
  have hopen : c ≠ '[' := fun e => hc (by cases place <;> simp [Place.brackets, e])
  by_cases hclose : c = ']'
  · subst hclose
    cases place with
    | some keyed => exact absurd hc (by simp [Place.brackets])
    | none =>
      refine ⟨{ s.flush with literal := [']'] }, ?_, h.flush.withLiteral (by simpa using hc)⟩
      simp [step, h.key?, h.flush.group_eq_none]
  · refine ⟨{ s with literal := s.literal ++ [c] }, by simp [step, h.key?, hlt, hopen, hclose],
      h.withLiteral fun x hx => ?_⟩
    rcases List.mem_append.mp hx with hx | hx
    · exact h.literal x hx
    · rwa [List.mem_singleton.mp hx]

theorem At.step_open (h : s.At none) : ∃ t, s.step '[' = .ok t ∧ t.At (some false) := by
  refine ⟨{ s.flush with group? := some [] }, by simp [step, h.key?, h.group_eq_none], ?_⟩
  exact ⟨h.flush.key?, rfl, h.flush.pieces, by simp, by simp⟩

theorem At.step_close (h : s.At (some true)) : ∃ t, s.step ']' = .ok t ∧ t.At none := by
  obtain ⟨items, hitems, hkey⟩ := h.flush.exists_group
  refine ⟨{ s.flush with group? := none, pieces := s.flush.pieces ++ [.optional items] },
    by simp [step, h.key?, hitems, hkey], h.flush.key?, rfl, fun p hp => ?_, by simp, by simp⟩
  rcases List.mem_append.mp hp with hp | hp
  · exact h.flush.pieces p hp
  · obtain rfl := List.mem_singleton.mp hp
    exact ⟨h.flush.items items hitems, hkey⟩

theorem run_inside_key : ∀ {cs : List Char} {s : Scan} {key : List Char}, s.key? = some key →
    '>' ∉ cs → ∀ rest, s.run (cs ++ rest) = run { s with key? := some (key ++ cs) } rest
  | [], s, key, hk, _, rest => by simp [← hk]
  | c :: cs, s, key, hk, hcs, rest => by
    obtain ⟨hc, hcs⟩ := not_or.mp (mt List.mem_cons.mpr hcs)
    rw [List.cons_append, run_cons_of_step (t := { s with key? := some (key ++ [c]) })
      (by simp [step, hk, Ne.symm hc]), run_inside_key rfl hcs]
    simp

theorem At.run_open_key (h : s.At place) {cs : List Char} (hcs : '>' ∉ cs) (rest : List Char) :
    s.run ('<' :: cs ++ rest) = run { s.flush with key? := some cs } rest := by
  rw [List.cons_append, run_cons_of_step (t := { s.flush with key? := some [] })
    (by simp [step, h.key?]), run_inside_key rfl hcs]
  rfl

theorem put_with_key? (hk : s.key? = none) (key : Option (List Char)) (i : Item) :
    { put { s with key? := key } i with key? := none } = s.put i := by
  unfold put
  cases s.group? <;> simp [hk]

theorem At.run_placeholder (h : s.At place) {key : List Char} (hk : IsKey key) :
    ∃ t : Scan, t.At (place.map fun _ => true) ∧
      ∀ rest, s.run ('<' :: key ++ '>' :: rest) = t.run rest := by
  have hput := h.flush.put (i := .key (String.ofList key)) (by simpa [Item.FitsAt] using hk)
  simp only [Item.isKey, Bool.or_true] at hput
  refine ⟨_, hput, fun rest => ?_⟩
  rw [h.run_open_key hk.2, run_cons_of_step]
  simp only [step, if_true, if_neg hk.1, put_with_key? h.flush.key?]

theorem At.finish (h : s.At none) :
    ∃ pieces, s.finish = .ok pieces ∧ ∀ p ∈ pieces, p.IsWellFormed := by
  refine ⟨s.flush.pieces, ?_, h.flush.pieces⟩
  simp [Scan.finish, h.key?, h.group_eq_none]

end Scan

open Scan

theorem IsSection.run {keyed : Bool} {inner : List Char} (hi : IsSection keyed inner) :
    ∀ {s : Scan} {before : Bool}, s.At (some before) →
      ∃ t : Scan, t.At (some (before || keyed)) ∧ ∀ rest, s.run (inner ++ rest) = t.run rest := by
  induction hi with
  | nil => exact fun h => ⟨_, by simpa using h, fun _ => rfl⟩
  | char hc _ ih =>
    intro s before h
    obtain ⟨u, hu, hau⟩ := h.step_char hc
    obtain ⟨t, hat, ht⟩ := ih hau
    exact ⟨t, hat, fun rest => (run_cons_of_step hu _).trans (ht rest)⟩
  | placeholder hk _ ih =>
    intro s before h
    obtain ⟨u, hau, hu⟩ := h.run_placeholder hk
    obtain ⟨t, hat, ht⟩ := ih hau
    refine ⟨t, by simpa using hat, fun rest => ?_⟩
    rw [List.append_assoc]
    exact (hu _).trans (ht rest)

theorem IsTemplate.run {cs : List Char} (hc : IsTemplate cs) : ∀ {s : Scan}, s.At none →
    ∃ t : Scan, t.At none ∧ ∀ rest, s.run (cs ++ rest) = t.run rest := by
  induction hc with
  | nil => exact fun h => ⟨_, h, fun _ => rfl⟩
  | char hc _ ih =>
    intro s h
    obtain ⟨u, hu, hau⟩ := h.step_char hc
    obtain ⟨t, hat, ht⟩ := ih hau
    exact ⟨t, hat, fun rest => (run_cons_of_step hu _).trans (ht rest)⟩
  | placeholder hk _ ih =>
    intro s h
    obtain ⟨u, hau, hu⟩ := h.run_placeholder hk
    obtain ⟨t, hat, ht⟩ := ih hau
    refine ⟨t, hat, fun rest => ?_⟩
    rw [List.append_assoc]
    exact (hu _).trans (ht rest)
  | optional hi _ ih =>
    intro s h
    obtain ⟨u, hu, hau⟩ := h.step_open
    obtain ⟨v, hav, hv⟩ := hi.run hau
    obtain ⟨w, hw, haw⟩ := At.step_close hav
    obtain ⟨t, hat, ht⟩ := ih haw
    refine ⟨t, hat, fun rest => ?_⟩
    rw [List.append_assoc, List.cons_append, List.cons_append, run_cons_of_step hu, hv,
      run_cons_of_step hw, ht]

theorem Readable.run {place : Place} {before : List Char} (h : Readable place before) :
    ∃ t : Scan, t.At place ∧ ∀ rest, run {} (before ++ rest) = t.run rest := by
  cases h with
  | outside h => exact h.run .start
  | inside h hi =>
    obtain ⟨u, hau, hu⟩ := h.run .start
    obtain ⟨v, hv, hav⟩ := hau.step_open
    obtain ⟨t, hat, ht⟩ := hi.run hav
    refine ⟨t, by simpa using hat, fun rest => ?_⟩
    rw [List.append_assoc, List.cons_append, hu, run_cons_of_step hv, ht]

/-- What is refused at a place stops the scan, there or at the end of the text. -/
theorem Refused.run {place : Place} {rest : List Char} {cause : TemplateError.Cause}
    (hr : Refused place rest cause) {s : Scan} (h : s.At place) :
    s.run rest >>= finish = .error cause := by
  cases hr with
  | unclosedPlaceholder _ hcs =>
    have := h.run_open_key hcs []
    rw [List.append_nil] at this
    rw [this]
    rfl
  | emptyKey _ cs =>
    have hopen : s.run ('<' :: '>' :: cs) = _ := h.run_open_key List.not_mem_nil ('>' :: cs)
    rw [hopen]
    exact run_cons_of_error (by simp [step]) cs
  | nestedOptional keyed cs =>
    obtain ⟨items, hitems, -⟩ := h.exists_group
    exact run_cons_of_error (by simp [step, h.key?, hitems]) cs
  | optionalWithoutKey cs =>
    obtain ⟨items, hitems, hkey⟩ := h.flush.exists_group
    exact run_cons_of_error (by simp [step, h.key?, hitems, hkey]) cs
  | unclosedOptional keyed =>
    obtain ⟨items, hitems, -⟩ := h.exists_group
    show finish s = _
    simp [finish, h.key?, hitems]

namespace Template
variable {cs : List Char} {cause : TemplateError.Cause}

theorem piecesOf?_of_isTemplate (h : IsTemplate cs) :
    ∃ pieces, piecesOf? cs = .ok pieces ∧ ∀ p ∈ pieces, p.IsWellFormed := by
  obtain ⟨t, hat, ht⟩ := h.run .start
  obtain ⟨pieces, hp, hw⟩ := hat.finish
  refine ⟨pieces, ?_, hw⟩
  rw [piecesOf?, ← List.append_nil cs, ht, ← hp]
  rfl

theorem piecesOf?_of_violation (h : Violation cs cause) : piecesOf? cs = .error cause := by
  obtain ⟨h, hr⟩ := h
  obtain ⟨t, hat, ht⟩ := h.run
  rw [piecesOf?, ht]
  exact hr.run hat

theorem piecesOf?_eq_error_iff : piecesOf? cs = .error cause ↔ Violation cs cause := by
  refine ⟨fun h => ?_, piecesOf?_of_violation⟩
  rcases isTemplate_or_violation cs with ht | ⟨c, hv⟩
  · obtain ⟨pieces, hp, -⟩ := piecesOf?_of_isTemplate ht
    rw [hp] at h
    cases h
  · rw [piecesOf?_of_violation hv] at h
    cases h
    exact hv

theorem isTemplate_of_piecesOf? {pieces : List Piece} (h : piecesOf? cs = .ok pieces) :
    IsTemplate cs ∧ ∀ p ∈ pieces, p.IsWellFormed := by
  rcases isTemplate_or_violation cs with ht | ⟨c, hv⟩
  · obtain ⟨pieces', hp, hw⟩ := piecesOf?_of_isTemplate ht
    rw [hp] at h
    cases h
    exact ⟨ht, hw⟩
  · rw [piecesOf?_of_violation hv] at h
    cases h

theorem parse?_eq_ok {text : String} {t : Template} (h : parse? text = .ok t) :
    t.text = text ∧ t.pieces.flatMap Piece.chars = text.toList ∧
      ∀ p ∈ t.pieces, p.IsWellFormed := by
  have hchars := chars_of_parse? h
  unfold parse? at h
  split at h
  · rename_i pieces hp
    obtain rfl := Except.ok.inj h
    exact ⟨rfl, hchars, (isTemplate_of_piecesOf? hp).2⟩
  · cases h

/-- A text is read if and only if it is a template; the pieces that are read are of the kinds the
grammar has and are, as written, the text. Every other text is refused for the first thing that is
wrong with it. -/
theorem grammar_decided (text : String) :
    ((∃ t, parse? text = .ok t) ↔ IsTemplate text.toList) ∧
      (∀ t, parse? text = .ok t → t.text = text ∧ t.pieces.flatMap Piece.chars = text.toList ∧
        ∀ p ∈ t.pieces, p.IsWellFormed) ∧
      ∀ e, parse? text = .error e ↔ e.template = text ∧ Violation text.toList e.cause := by
  refine ⟨⟨?_, fun h => ?_⟩, fun t ht => parse?_eq_ok ht, fun e => ?_⟩
  · rintro ⟨t, ht⟩
    unfold parse? at ht
    split at ht
    · exact (isTemplate_of_piecesOf? ‹_›).1
    · cases ht
  · obtain ⟨pieces, hp, -⟩ := piecesOf?_of_isTemplate h
    exact ⟨⟨text, pieces⟩, by rw [parse?, hp]⟩
  · rw [← piecesOf?_eq_error_iff, parse?]
    cases hp : piecesOf? text.toList with
    | ok pieces => simp
    | error cause =>
      obtain ⟨cause', template⟩ := e
      simp [and_comm, eq_comm]

/-- A `]` may stand in a key and outside of sections; a section that stays open is reported only
if nothing else is wrong. -/
theorem grammar_decided_sample :
    (∃ t, parse? "v]<a]>[_<b>].nc" = .ok t ∧
        t.pieces.flatMap Piece.chars = "v]<a]>[_<b>].nc".toList) ∧
      IsTemplate "v]<a]>[_<b>].nc".toList ∧ Violation "<a>[<>".toList .emptyKey ∧
      Violation "[<a>[".toList .nestedOptional ∧ Violation "[a>".toList .unclosedOptional :=
  ⟨⟨_, rfl, ((grammar_decided _).2.1 _ rfl).2.1⟩,
    (grammar_decided _).1.mp ⟨_, rfl⟩,
    (((grammar_decided _).2.2 ⟨.emptyKey, _⟩).mp rfl).2,
    (((grammar_decided _).2.2 ⟨.nestedOptional, _⟩).mp rfl).2,
    (((grammar_decided _).2.2 ⟨.unclosedOptional, _⟩).mp rfl).2⟩

end Template
end ForcingData.Drs
