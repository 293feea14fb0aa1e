import ForcingData.Drs.Pattern
import ForcingData.Proofs.Results
import Mathlib.Data.List.TakeWhile

/-! # What a pattern reads

`Reads p cs caps`: `cs` can be cut into pieces as `p` says, the placeholders taking the texts
`caps`. The search finds a reading exactly if there is one (`matchAll_sound`,
`matchAll_isSome_of_reads`), and so does the search in a path for an end that can be read
(`findEnd_sound`, `findEnd_isSome_of_reads`). Which of several readings is found is not said here:
where it matters, there is only one. -/

namespace ForcingData

theorem Text.dropPrefix?_eq_some : ∀ {text cs rest : List Char},
    Text.dropPrefix? text cs = some rest ↔ cs = text ++ rest
  | [], cs, rest => by simp [Text.dropPrefix?]
  | t :: text, [], rest => by simp [Text.dropPrefix?]
  | t :: text, c :: cs, rest => by
    rw [Text.dropPrefix?]
    by_cases h : t = c
    · simp [h, Text.dropPrefix?_eq_some]
    · simp [h, Ne.symm h]

namespace Drs

/-- The items take all of the text. -/
inductive ReadsItems (part : Part) : List Item → List Char → List Capture → Prop
  | nil : ReadsItems part [] [] []
  | literal (text : List Char) {items : List Item} {cs : List Char} {caps : List Capture}
      (h : ReadsItems part items cs caps) :
      ReadsItems part (.literal text :: items) (text ++ cs) caps
  | key (name : String) {v : List Char} (hne : v ≠ []) (hv : ∀ c ∈ v, part.allows c)
      {items : List Item} {cs : List Char} {caps : List Capture}
      (h : ReadsItems part items cs caps) :
      ReadsItems part (.key name :: items) (v ++ cs) (⟨part, name, v⟩ :: caps)

/-- The pieces take all of the text, but for sections that are not there. -/
inductive Reads : Pattern → List Char → List Capture → Prop
  | nil : Reads [] [] []
  | taken (part : Part) (piece : Piece) {ps : Pattern} {a b : List Char} {c c' : List Capture}
      (h : ReadsItems part piece.items a c) (hs : Reads ps b c') :
      Reads ((part, piece) :: ps) (a ++ b) (c ++ c')
  | dropped (part : Part) (items : List Item) {ps : Pattern} {cs : List Char}
      {caps : List Capture} (hs : Reads ps cs caps) :
      Reads ((part, .optional items) :: ps) cs caps

/-! ### Items -/

theorem firstDown_eq_some {α : Type} {f : Nat → Option α} {a : α} : ∀ {n : Nat},
    firstDown f n = some a → ∃ m, 1 ≤ m ∧ m ≤ n ∧ f m = some a
  | n + 1, h => by
    rw [firstDown, Option.orElse_eq_some] at h
    rcases h with h | ⟨-, h⟩
    · exact ⟨n + 1, by omega, Nat.le_refl _, h⟩
    · obtain ⟨m, hm, hmn, hf⟩ := firstDown_eq_some h
      exact ⟨m, hm, by omega, hf⟩

theorem firstDown_isSome {α : Type} {f : Nat → Option α} {m : Nat} (hm : 1 ≤ m)
    (hf : (f m).isSome) : ∀ {n : Nat}, m ≤ n → (firstDown f n).isSome
  | 0, h => by omega
  | n + 1, h => by
    rw [firstDown]
    rcases Nat.eq_or_lt_of_le h with rfl | h
    · cases hfm : f (n + 1) <;> simp_all
    · cases f (n + 1) with
      | none => simpa using firstDown_isSome hm hf (Nat.le_of_lt_succ h)
      | some a => rfl

theorem matchItems_sound {part : Part} {next : List Char → Option (List Capture)} :
    ∀ {items : List Item} {cs : List Char} {caps : List Capture},
    matchItems part next items cs = some caps →
      ∃ a b c c', cs = a ++ b ∧ caps = c ++ c' ∧ ReadsItems part items a c ∧ next b = some c'
  | [], cs, caps, h => ⟨[], cs, [], caps, rfl, rfl, .nil, h⟩
  | .literal text :: items, cs, caps, h => by
    obtain ⟨rest, hrest, h⟩ := Option.bind_eq_some_iff.mp h
    obtain ⟨a, b, c, c', rfl, rfl, hr, hn⟩ := matchItems_sound h
    refine ⟨text ++ a, b, c, c', ?_, rfl, hr.literal text, hn⟩
    rw [Text.dropPrefix?_eq_some.mp hrest, List.append_assoc]
  | .key name :: items, cs, caps, h => by
    obtain ⟨n, hn1, hn, h⟩ := firstDown_eq_some h
    obtain ⟨caps', hrest, rfl⟩ := Option.map_eq_some_iff.mp h
    obtain ⟨a, b, c, c', hdrop, rfl, hr, hnext⟩ := matchItems_sound hrest
    -- what the key takes is in the run of characters that it allows
    have htake : cs.take n = (cs.takeWhile part.allows).take n := by
      conv_lhs => rw [← List.takeWhile_append_dropWhile (p := part.allows) (l := cs)]
      exact List.take_append_of_le_length hn
    have hne : cs.take n ≠ [] := by
      have := (List.takeWhile_prefix (l := cs) part.allows).length_le
      intro hnil
      have := congrArg List.length hnil
      simp only [List.length_take, List.length_nil] at this
      omega
    refine ⟨cs.take n ++ a, b, ⟨part, name, cs.take n⟩ :: c, c', ?_, rfl, ?_, hnext⟩
    · rw [List.append_assoc, ← hdrop, List.take_append_drop]
    · refine .key name hne (fun x hx => ?_) hr
      rw [htake] at hx
      exact List.mem_takeWhile_imp (List.mem_of_mem_take hx)

theorem matchItems_isSome_of_reads {part : Part} {next : List Char → Option (List Capture)}
    {b : List Char} (hb : (next b).isSome) {items : List Item} {a : List Char}
    {c : List Capture} (h : ReadsItems part items a c) :
    (matchItems part next items (a ++ b)).isSome := by
  induction h with
  | nil => exact hb
  | literal text _ ih =>
    rw [matchItems, List.append_assoc, Text.dropPrefix?_eq_some.mpr rfl]
    exact ih
  | @key name v hne hv items cs caps _ ih =>
    rw [matchItems]
    refine firstDown_isSome (m := v.length) (List.length_pos_of_ne_nil hne) ?_ ?_
    · rw [List.append_assoc, List.drop_left, Option.isSome_map]
      exact ih
    · rw [List.append_assoc, List.takeWhile_append_of_pos hv, List.length_append]
      omega

/-! ### Patterns -/

theorem matchAll_sound : ∀ {p : Pattern} {cs : List Char} {caps : List Capture},
    matchAll p cs = some caps → Reads p cs caps
  | [], cs, caps, h => by
    rw [matchAll] at h
    split_ifs at h with hcs
    cases h
    exact hcs ▸ .nil
  | (part, .item i) :: ps, cs, caps, h => by
    obtain ⟨a, b, c, c', rfl, rfl, hr, hn⟩ := matchItems_sound h
    exact .taken part (.item i) hr (matchAll_sound hn)
  | (part, .optional items) :: ps, cs, caps, h => by
    rw [matchAll, Option.orElse_eq_some] at h
    rcases h with h | ⟨-, h⟩
    · obtain ⟨a, b, c, c', rfl, rfl, hr, hn⟩ := matchItems_sound h
      exact .taken part (.optional items) hr (matchAll_sound hn)
    · exact .dropped part items (matchAll_sound h)

theorem matchAll_isSome_of_reads {p : Pattern} {cs : List Char} {caps : List Capture}
    (h : Reads p cs caps) : (matchAll p cs).isSome := by
  induction h with
  | nil => rfl
  | taken part piece h _ ih =>
    have hm := matchItems_isSome_of_reads ih h
    cases piece with
    | item i => exact hm
    | optional items => rw [matchAll, Option.isSome_orElse, Bool.or_eq_true]; exact .inl hm
  | dropped part items _ ih =>
    rw [matchAll, Option.isSome_orElse, ih, Bool.or_true]

/-! ### Ends of paths -/

/-- Nothing comes before, or a slash. -/
def AtStart (before : List Char) : Prop := before = [] ∨ before.getLast? = some '/'

theorem matchAfterSlash_sound {p : Pattern} : ∀ {cs : List Char} {caps : List Capture},
    matchAfterSlash p cs = some caps →
      ∃ before rest, cs = before ++ rest ∧ before.getLast? = some '/' ∧ matchAll p rest = some caps
  | c :: cs, caps, h => by
    have tail (h : matchAfterSlash p cs = some caps) : ∃ before rest,
        c :: cs = before ++ rest ∧ before.getLast? = some '/' ∧ matchAll p rest = some caps := by
      obtain ⟨before, rest, rfl, hl, hm⟩ := matchAfterSlash_sound h
      exact ⟨c :: before, rest, rfl, by simp [List.getLast?_cons, hl], hm⟩
    rw [matchAfterSlash] at h
    split_ifs at h with hc
    · rw [Option.orElse_eq_some] at h
      rcases h with h | ⟨-, h⟩
      · exact ⟨[c], cs, rfl, by simp [hc], h⟩
      · exact tail h
    · exact tail h

theorem matchAfterSlash_isSome {p : Pattern} {rest : List Char} (h : (matchAll p rest).isSome) :
    ∀ {before : List Char}, before.getLast? = some '/' →
      (matchAfterSlash p (before ++ rest)).isSome
  | [c], hl => by
    obtain rfl : c = '/' := by simpa using hl
    rw [List.singleton_append, matchAfterSlash, if_pos rfl, Option.isSome_orElse, h]
    rfl
  | c :: c' :: before, hl => by
    have hrest : (matchAfterSlash p (c' :: before ++ rest)).isSome :=
      matchAfterSlash_isSome h (by simpa using hl)
    rw [List.cons_append, matchAfterSlash]
    split_ifs
    · rw [Option.isSome_orElse, hrest, Bool.or_true]
    · exact hrest

theorem findEnd_sound {p : Pattern} {cs : List Char} {caps : List Capture}
    (h : findEnd p cs = some caps) :
    ∃ before rest, cs = before ++ rest ∧ AtStart before ∧ Reads p rest caps := by
  rw [findEnd, Option.orElse_eq_some] at h
  rcases h with h | ⟨-, h⟩
  · exact ⟨[], cs, rfl, .inl rfl, matchAll_sound h⟩
  · obtain ⟨before, rest, rfl, hl, hm⟩ := matchAfterSlash_sound h
    exact ⟨before, rest, rfl, .inr hl, matchAll_sound hm⟩

theorem findEnd_isSome_of_reads {p : Pattern} {before rest : List Char} {caps : List Capture}
    (hb : AtStart before) (h : Reads p rest caps) : (findEnd p (before ++ rest)).isSome := by
  have hm := matchAll_isSome_of_reads h
  rw [findEnd, Option.isSome_orElse]
  rcases hb with rfl | hl
  · rw [List.nil_append, hm]
    rfl
  · rw [matchAfterSlash_isSome hm hl, Bool.or_true]

end Drs
end ForcingData
