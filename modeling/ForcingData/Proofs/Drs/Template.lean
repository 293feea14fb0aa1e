import ForcingData.Drs.Basic
import ForcingData.Proofs.Results

/-! # What template texts say

Reading a template loses nothing: the pieces, written one after the other, are the text
(`chars_of_parse?`). The invariant `Scan.Clean` says where the characters read so far are. Pairs of
templates that are accepted have at least one directory and no section in directories
(`Drs.ofTemplates?_eq_ok`). -/

namespace ForcingData.Drs

namespace Scan

/-- The section that is open, as written. -/
def groupChars (s : Scan) : List Char :=
  match s.group? with
  | some items => '[' :: items.flatMap Item.chars
  | none => []

/-- The placeholder that is open, as written. -/
def keyChars (s : Scan) : List Char :=
  match s.key? with
  | some key => '<' :: key
  | none => []

/-- All that has been read, as written. -/
def chars (s : Scan) : List Char :=
  s.pieces.flatMap Piece.chars ++ s.groupChars ++ s.literal ++ s.keyChars

/-- No plain text is kept back while a placeholder is open. -/
def Clean (s : Scan) : Prop := s.key? ≠ none → s.literal = []

@[simp] theorem put_literal (s : Scan) (i : Item) : (s.put i).literal = s.literal := by
  unfold put; split <;> rfl

@[simp] theorem put_key? (s : Scan) (i : Item) : (s.put i).key? = s.key? := by
  unfold put; split <;> rfl

theorem put_chars (s : Scan) (i : Item) :
    (s.put i).pieces.flatMap Piece.chars ++ (s.put i).groupChars =
      s.pieces.flatMap Piece.chars ++ s.groupChars ++ i.chars := by
  unfold put groupChars
  cases s.group? <;> simp [Piece.chars]

@[simp] theorem flush_literal (s : Scan) : s.flush.literal = [] := by
  unfold flush; split
  · assumption
  · rfl

@[simp] theorem flush_key? (s : Scan) : s.flush.key? = s.key? := by
  unfold flush; split <;> simp

theorem flush_chars (s : Scan) : s.flush.pieces.flatMap Piece.chars ++ s.flush.groupChars =
    s.pieces.flatMap Piece.chars ++ s.groupChars ++ s.literal := by
  unfold flush; split
  · rename_i h
    simp [h]
  · exact s.put_chars (.literal s.literal)

theorem flush_group?_isSome (s : Scan) : s.flush.group?.isSome = s.group?.isSome := by
  unfold flush put; split
  · rfl
  · cases h : s.group? <;> simp

theorem step_key {s t : Scan} {c : Char} {key : List Char} (hk : s.key? = some key)
    (h : s.step c = .ok t) (hs : s.Clean) : t.Clean ∧ t.chars = s.chars ++ [c] := by
  have hl : s.literal = [] := hs (by simp [hk])
  simp only [step, hk] at h
  split_ifs at h with hc he
  · obtain rfl := Except.ok.inj h
    refine ⟨fun hn => absurd rfl hn, ?_⟩
    have := s.put_chars (.key (String.ofList key))
    simp only [chars, groupChars, keyChars, put_literal, hl, hk] at this ⊢
    simp [this, Item.chars, hc]
  · obtain rfl := Except.ok.inj h
    refine ⟨fun _ => hl, ?_⟩
    simp [chars, groupChars, keyChars, hk]

theorem step_text {s t : Scan} {c : Char} (hk : s.key? = none) (h : s.step c = .ok t) :
    t.Clean ∧ t.chars = s.chars ++ [c] := by
  have hf := s.flush_chars
  -- outside of keys: a section begins, a section ends, a key begins, or a character is put down
  simp only [step, hk] at h
  split_ifs at h with hc hc hg hc
  · obtain rfl := Except.ok.inj h
    refine ⟨fun _ => s.flush_literal, ?_⟩
    simp only [chars, groupChars, keyChars, hk, flush_literal] at hf ⊢
    simp [hf, hc]
  · obtain rfl := Except.ok.inj h
    have hn : s.flush.group? = none := by
      rw [← Option.not_isSome_iff_eq_none, flush_group?_isSome]; exact hg
    refine ⟨fun _ => s.flush_literal, ?_⟩
    simp only [chars, groupChars, keyChars, flush_literal, flush_key?, hk, hn] at hf ⊢
    simp [← hf, hc]
  · split at h
    · rename_i hn
      obtain rfl := Except.ok.inj h
      refine ⟨fun hk' => absurd (s.flush_key?.trans hk) hk', ?_⟩
      simp only [chars, groupChars, keyChars, flush_key?, hk, hn] at hf ⊢
      simp [← hf, hc]
    · rename_i items hitems
      split_ifs at h
      obtain rfl := Except.ok.inj h
      refine ⟨fun _ => s.flush_literal, ?_⟩
      simp only [chars, groupChars, keyChars, flush_literal, flush_key?, hk, hitems] at hf ⊢
      simp [Piece.chars, ← hf, hc]
  · obtain rfl := Except.ok.inj h
    refine ⟨fun hn => absurd rfl hn, ?_⟩
    simp [chars, groupChars, keyChars, hk]

theorem step_chars {s t : Scan} {c : Char} (h : s.step c = .ok t) (hs : s.Clean) :
    t.Clean ∧ t.chars = s.chars ++ [c] := by
  cases hk : s.key? with
  | none => exact step_text hk h
  | some key => exact step_key hk h hs

theorem run_chars : ∀ {cs : List Char} {s t : Scan}, s.run cs = .ok t → s.Clean →
    t.Clean ∧ t.chars = s.chars ++ cs
  | [], s, t, h, hs => by
    obtain rfl := Except.ok.inj h
    simpa using hs
  | c :: cs, s, t, h, hs => by
    rw [run] at h
    cases hstep : s.step c with
    | error e => rw [hstep] at h; cases h
    | ok u =>
      rw [hstep] at h
      obtain ⟨hu, huc⟩ := step_chars hstep hs
      obtain ⟨ht, htc⟩ := run_chars (s := u) h hu
      exact ⟨ht, by rw [htc, huc]; simp⟩

theorem finish_chars {s : Scan} {pieces : List Piece} (h : s.finish = .ok pieces) :
    pieces.flatMap Piece.chars = s.chars := by
  unfold finish at h
  split_ifs at h with hk hg
  obtain rfl := Except.ok.inj h
  have hk : s.key? = none := by simpa using hk
  have hg' : s.flush.group? = none := by
    rw [← Option.not_isSome_iff_eq_none, flush_group?_isSome]; exact hg
  have hf := s.flush_chars
  simp only [chars, groupChars, keyChars, hk, hg'] at hf ⊢
  simpa using hf

end Scan

namespace Template

theorem flatMap_chars_of_piecesOf? {cs : List Char} {pieces : List Piece}
    (h : piecesOf? cs = .ok pieces) : pieces.flatMap Piece.chars = cs := by
  unfold piecesOf? at h
  cases hrun : Scan.run {} cs with
  | error e => rw [hrun] at h; cases h
  | ok s =>
    rw [hrun] at h
    obtain ⟨-, hs⟩ := Scan.run_chars hrun fun hn => absurd rfl hn
    rw [Scan.finish_chars h, hs]
    rfl

theorem chars_of_parse? {text : String} {t : Template} (h : parse? text = .ok t) :
    t.pieces.flatMap Piece.chars = t.text.toList := by
  unfold parse? at h
  split at h
  · rename_i pieces hp
    obtain rfl := Except.ok.inj h
    exact flatMap_chars_of_piecesOf? hp
  · cases h

end Template
/-- What pairs of templates that are accepted are like. -/
theorem ofTemplates?_eq_ok {directory fileName : String} {d : Drs}
    (h : ofTemplates? directory fileName = .ok d) :
    d.directory ≠ [] ∧ (∀ t ∈ d.directory, ∀ p ∈ t.pieces, p.isOptional = false) ∧
      ∀ t ∈ d.fileName :: d.directory, t.pieces.flatMap Piece.chars = t.text.toList := by
  unfold ofTemplates? at h
  obtain ⟨segments, hd, h⟩ := Except.bind_eq_ok.mp h
  have hall := Except.mapM_eq_ok.mp hd
  by_cases ho : (segments.any fun t => t.pieces.any Piece.isOptional) = true
  · rw [if_pos ho] at h; cases h
  rw [if_neg ho] at h
  obtain ⟨t, ht, h⟩ := Except.bind_eq_ok.mp h
  obtain rfl := Except.pure_eq_ok.mp h
  refine ⟨?_, by simpa using ho, fun u hu => ?_⟩
  · rintro (rfl : segments = [])
    have hlen := hall.length_eq
    simp [Text.splitAt, Text.splitChars_ne_nil] at hlen
  · rcases List.mem_cons.mp hu with rfl | hu
    · exact Template.chars_of_parse? ht
    · obtain ⟨i, hi, rfl⟩ := List.mem_iff_getElem.mp hu
      exact Template.chars_of_parse? (hall.get (by rw [hall.length_eq]; exact hi) hi)

end ForcingData.Drs
