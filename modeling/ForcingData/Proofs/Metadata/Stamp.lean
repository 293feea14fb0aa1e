import ForcingData.Metadata.Inference
import ForcingData.Proofs.Text.Digit
import ForcingData.Proofs.Time.Order

/-! # Stamps

A creation date is a stamp (`Rule.isCreationDate_iff`): its form fixes where the digits are, so that
the parser can skip no blanks, read no sign and stop at no other digit, and the parser takes no
digits but those from `0` to `9` and no day that does not exist. -/

namespace ForcingData

/-! ### Fields -/

namespace Instant
variable {ds cs rest : List Char} {mark mark' : Char} {n w : Nat}

theorem Shows.eq_padded (h : Shows ds n) (hw : 0 < w) (hlength : ds.length = w) :
    ds = (padded w n).toList := by
  have hn : n < 10 ^ w := hlength ▸ h.value ▸ ofDigitChars_lt h.isDigit
  have hsame := hlength.trans (length_padded hw hn).symm
  exact List.le_antisymm (List.not_lt.mp (h.not_lt (shows_padded w n) hsame le_rfl))
    (List.not_lt.mp ((shows_padded w n).not_lt h hsame.symm le_rfl))

theorem mark?_eq_some : mark? mark cs = some rest ↔ cs = mark :: rest := by
  cases cs with
  | nil => simp [mark?]
  | cons c cs =>
    simp only [mark?, List.cons.injEq]
    split_ifs with h <;> simp [h]

@[simp] theorem mark?_cons : mark? mark (mark :: rest) = some rest := mark?_eq_some.mpr rfl

/-- A field of digits of any script is read up to the mark behind it only if it is in the digits
from `0` to `9`. -/
theorem eq_of_number? {form : List Char} (hw : 0 < w) (hd : mark ≠ 'd')
    (hmark : Text.isDigit mark = false)
    (hform : Text.hasForm (List.replicate w 'd' ++ mark :: form) cs = true)
    (h : number? w cs = some (n, mark :: rest)) :
    cs = (padded w n).toList ++ mark :: rest ∧ n < 10 ^ w ∧ Text.hasForm form rest = true := by
  obtain ⟨ds, after, rfl, hlength, hds, hform⟩ := (Text.hasForm_field hd w).mp hform
  have hblanks : (ds ++ mark :: after).dropWhile Text.isBlank = ds ++ mark :: after := by
    cases ds with
    | nil => exact absurd hlength hw.ne
    | cons d ds => exact List.dropWhile_cons_of_neg (by
        simp [Text.isBlank_eq_false_of_isDigit (hds d (List.mem_cons_self ..))])
  rw [number?, hblanks, List.take_append_of_le_length hlength.ge,
    List.take_of_length_le hlength.le] at h
  simp only [foldl_digits] at h
  split_ifs at h
  obtain ⟨hn, hrest⟩ := Prod.mk.inj (Option.some.inj h)
  have hsplit := List.takeWhile_append_dropWhile (p := Char.isDigit) (l := ds)
  have hdrop : (ds ++ mark :: after).drop (ds.takeWhile Char.isDigit).length =
      ds.dropWhile Char.isDigit ++ mark :: after := by
    conv_lhs => rw [← hsplit, List.append_assoc, hsplit]
    exact List.drop_left
  rw [hdrop] at hrest
  cases hlater : ds.dropWhile Char.isDigit with
  | nil =>
    rw [hlater, List.append_nil] at hsplit
    rw [hlater, List.nil_append] at hrest
    obtain ⟨-, rfl⟩ := List.cons.inj hrest
    have hshows : Shows ds n :=
      ⟨fun c hc => List.mem_takeWhile_imp (hsplit.symm ▸ hc), hsplit ▸ hn⟩
    refine ⟨?_, ?_, hform⟩
    · rw [hshows.eq_padded hw hlength]
    · exact hlength ▸ hn ▸ hsplit.symm ▸ ofDigitChars_lt hshows.isDigit
  | cons d later =>
    -- the mark would be one of the digits
    rw [hlater, List.cons_append] at hrest
    obtain rfl := (List.cons.inj hrest).1
    have hmem : d ∈ ds := hsplit ▸ List.mem_append_right _ (hlater ▸ List.mem_cons_self ..)
    exact absurd (hds d hmem) (by simp [hmark])

theorem eq_of_field? {form : List Char} (hd : mark ≠ 'd') (hmark : Text.isDigit mark = false)
    (hform : Text.hasForm (List.replicate 2 'd' ++ mark :: form) cs = true)
    (h : field? mark cs = some (n, rest)) :
    cs = (padded 2 n).toList ++ mark :: rest ∧ Text.hasForm form rest = true := by
  simp only [field?, Option.bind_eq_bind, Option.bind_eq_some_iff] at h
  obtain ⟨⟨k, _⟩, hnumber, rest', hrest, heq⟩ := h
  obtain ⟨rfl, rfl⟩ := Prod.mk.inj (Option.some.inj heq)
  obtain rfl := mark?_eq_some.mp hrest
  obtain ⟨hcs, -, hform⟩ := eq_of_number? (by decide) hd hmark hform hnumber
  exact ⟨hcs, hform⟩

theorem field?_padded (h : n < 100) :
    field? mark ((padded 2 n).toList ++ mark :: rest) = some (n, rest) := by
  simp [field?, number?_padded h]

theorem year?_of_isDigit {d : Char} (h : Text.isDigit d = true) :
    year? (d :: cs) = (number? 4 (d :: cs)).map fun (n, rest) => ((n : Int), rest) := by
  have hblanks : (d :: cs).dropWhile Text.isBlank = d :: cs :=
    List.dropWhile_cons_of_neg (by simp [Text.isBlank_eq_false_of_isDigit h])
  rw [year?, hblanks]
  split
  · rename_i heq
    rw [(List.cons.inj heq).1] at h
    exact absurd h (by decide)
  · rename_i heq
    rw [(List.cons.inj heq).1] at h
    exact absurd h (by decide)
  · rfl

theorem eq_of_year? {form : List Char} {year : Int} (hd : mark ≠ 'd')
    (hmark : Text.isDigit mark = false)
    (hform : Text.hasForm (List.replicate 4 'd' ++ mark :: form) cs = true)
    (h : year? cs = some (year, mark :: rest)) : ∃ n : Nat, year = n ∧
      cs = (padded 4 n).toList ++ mark :: rest ∧ n < 10 ^ 4 ∧ Text.hasForm form rest = true := by
  cases cs with
  | nil => cases hform
  | cons d cs =>
    have hfirst : Text.isDigit d = true := by
      obtain ⟨ds, after, heq, hlength, hds, -⟩ := (Text.hasForm_field hd 4).mp hform
      cases ds with
      | nil => cases hlength
      | cons e ds =>
        rw [(List.cons.inj heq).1]
        exact hds e (List.mem_cons_self ..)
    rw [year?_of_isDigit hfirst, Option.map_eq_some_iff] at h
    obtain ⟨⟨n, _⟩, hnumber, heq⟩ := h
    obtain ⟨rfl, rfl⟩ := Prod.mk.inj heq
    exact ⟨n, rfl, eq_of_number? (by decide) hd hmark hform hnumber⟩

theorem year?_padded (h : n < 10 ^ 4) :
    year? ((padded 4 n).toList ++ rest) = some ((n : Int), rest) := by
  have hlength := length_padded (w := 4) (by decide) h
  have hnumber : number? 4 ((padded 4 n).toList ++ rest) = some (n, rest) :=
    (shows_padded 4 n).number?_append (padded_ne_nil 4 n) hlength.le (.inl hlength)
  obtain ⟨d, ds, hds⟩ := List.exists_cons_of_ne_nil (padded_ne_nil 4 n)
  have hfirst := (shows_padded 4 n).isDigit d (hds ▸ List.mem_cons_self ..)
  rw [hds] at hnumber ⊢
  rw [List.cons_append, year?_of_isDigit (Text.isDigit_of_ascii hfirst), ← List.cons_append,
    hnumber]
  rfl

end Instant

/-! ### Stamps -/

/-- A time of the years from 0 to 9999, to the second; every minute may have a leap second. -/
structure Stamp where
  date : Date
  hour : Nat
  minute : Nat
  second : Nat
  isValid : date.isValid = true
  plainYear : 0 ≤ date.year ∧ date.year ≤ 9999
  hour_lt : hour < 24
  minute_lt : minute < 60
  second_le : second ≤ 60

namespace Stamp
open Instant
variable (s : Stamp)

/-- The eight digits of the day. -/
def day : String :=
  padded 4 s.date.year.toNat ++ padded 2 s.date.month ++ padded 2 s.date.day

/-- Such as `2000-01-31T23:59:60Z`. -/
def text : String :=
  padded 4 s.date.year.toNat ++ "-" ++ padded 2 s.date.month ++ "-" ++ padded 2 s.date.day ++ "T"
    ++ padded 2 s.hour ++ ":" ++ padded 2 s.minute ++ ":" ++ padded 2 s.second ++ "Z"

theorem toList_text : s.text.toList = (padded 4 s.date.year.toNat).toList ++ '-' ::
    ((padded 2 s.date.month).toList ++ '-' :: ((padded 2 s.date.day).toList ++ 'T' ::
      ((padded 2 s.hour).toList ++ ':' :: ((padded 2 s.minute).toList ++ ':' ::
        ((padded 2 s.second).toList ++ ['Z']))))) := by
  simp [text]

theorem year_lt : s.date.year.toNat < 10 ^ 4 := by
  have hyear := s.plainYear
  omega

theorem month_lt : s.date.month < 100 := by
  have hvalid := Date.isValid_iff.mp s.isValid
  omega

theorem day_lt : s.date.day < 100 := by
  have hvalid := Date.isValid_iff.mp s.isValid
  have hdays : Date.daysInMonth s.date.year s.date.month ≤ 31 := by
    unfold Date.daysInMonth
    split
    · split <;> decide
    · split <;> decide
  omega

theorem inRange : s.date.inRange = true := by
  have hyear := s.plainYear
  have hmin : Date.minYear = -262143 := rfl
  have hmax : Date.maxYear = 262142 := rfl
  simp only [Date.inRange, Bool.and_eq_true, decide_eq_true_eq]
  omega

theorem length_text : s.text.length = 20 := by
  have hhour := s.hour_lt
  have hminute := s.minute_lt
  have hsecond := s.second_le
  have htwo : ∀ n < 100, (padded 2 n).toList.length = 2 := fun n hn =>
    length_padded (by decide) hn
  rw [← String.length_toList, toList_text]
  simp only [List.length_append, List.length_cons, List.length_nil,
    length_padded (w := 4) (by decide) s.year_lt, htwo _ s.month_lt, htwo _ s.day_lt,
    htwo s.hour (by omega), htwo s.minute (by omega), htwo s.second (by omega)]

theorem isAscii_text {c : Char} (hc : c ∈ s.text.toList) : c.toNat < 128 := by
  have hdigit : ∀ {w n : Nat}, c ∈ (padded w n).toList → c.toNat < 128 := fun h => by
    have hrange := toNat_of_isDigit ((shows_padded _ _).isDigit c h)
    omega
  rw [toList_text] at hc
  simp only [List.mem_append, List.mem_cons, List.not_mem_nil, or_false] at hc
  rcases hc with h | rfl | h | rfl | h | rfl | h | rfl | h | rfl | h | rfl
  all_goals first | exact hdigit h | decide

theorem day_ne_empty : s.day ≠ "" := fun h => by
  have hyear := padded_ne_nil 4 s.date.year.toNat
  have hday := congrArg String.toList h
  simp only [day, String.toList_append, String.toList_empty, List.append_eq_nil_iff] at hday
  exact hyear hday.1.1

/-- The day is what is left of the first ten characters without what separates its parts. -/
theorem versionOf_text : Layers.versionOf s.text = s.day := by
  have hkept : ∀ w n : Nat, (padded w n).toList.filter Char.isDigit = (padded w n).toList :=
    fun w n => List.filter_eq_self.mpr (shows_padded w n).isDigit
  have hsplit : s.text.toList = ((padded 4 s.date.year.toNat).toList ++ '-' ::
      ((padded 2 s.date.month).toList ++ '-' :: (padded 2 s.date.day).toList)) ++ 'T' ::
        ((padded 2 s.hour).toList ++ ':' :: ((padded 2 s.minute).toList ++ ':' ::
          ((padded 2 s.second).toList ++ ['Z']))) := by
    simp [toList_text]
  have htake : s.text.toList.take 10 = (padded 4 s.date.year.toNat).toList ++ '-' ::
      ((padded 2 s.date.month).toList ++ '-' :: (padded 2 s.date.day).toList) := by
    rw [hsplit]
    refine List.take_left' ?_
    simp only [List.length_append, List.length_cons, length_padded (w := 4) (by decide) s.year_lt,
      length_padded (w := 2) (by decide) s.month_lt, length_padded (w := 2) (by decide) s.day_lt]
  refine String.toList_injective ?_
  rw [Layers.versionOf, htake, String.toList_ofList, List.filter_append,
    List.filter_cons_of_neg (by decide), List.filter_append, List.filter_cons_of_neg (by decide),
    hkept, hkept, hkept]
  simp [day]

end Stamp

namespace Rule
open Instant

theorem creationDateForm_eq : creationDateForm.toList = List.replicate 4 'd' ++ '-' ::
    (List.replicate 2 'd' ++ '-' :: (List.replicate 2 'd' ++ 'T' :: (List.replicate 2 'd' ++ ':' ::
      (List.replicate 2 'd' ++ ':' :: (List.replicate 2 'd' ++ 'Z' :: []))))) := by
  decide

theorem hasForm_padded {mark : Char} {w n : Nat} {form cs : List Char} (hmark : mark ≠ 'd')
    (hw : 0 < w) (hn : n < 10 ^ w) (h : Text.hasForm form cs = true) :
    Text.hasForm (List.replicate w 'd' ++ mark :: form) ((padded w n).toList ++ mark :: cs) =
      true :=
  (Text.hasForm_field hmark w).mpr ⟨_, _, rfl, length_padded hw hn,
    fun c hc => Text.isDigit_of_ascii ((shows_padded w n).isDigit c hc), h⟩

theorem isCreationDate_text (s : Stamp) : isCreationDate s.text.toList = true := by
  have hhour : s.hour < 100 := s.hour_lt.trans (by decide)
  have hminute : s.minute < 100 := s.minute_lt.trans (by decide)
  have hsecond : s.second < 100 := s.second_le.trans_lt (by decide)
  rw [isCreationDate, Bool.and_eq_true, creationDateForm_eq, Stamp.toList_text]
  constructor
  · exact hasForm_padded (by decide) (by decide) s.year_lt <|
      hasForm_padded (by decide) (by decide) s.month_lt <|
      hasForm_padded (by decide) (by decide) s.day_lt <|
      hasForm_padded (by decide) (by decide) hhour <|
      hasForm_padded (by decide) (by decide) hminute <|
      hasForm_padded (by decide) (by decide) hsecond <| Text.hasForm_nil.mpr rfl
  · have hdate : (⟨(s.date.year.toNat : Int), s.date.month, s.date.day⟩ : Date) = s.date := by
      rw [Int.toNat_of_nonneg s.plainYear.1]
    simp only [ofStamp?, Option.bind_eq_bind, year?_padded s.year_lt, Option.bind_some, mark?_cons,
      field?_padded s.month_lt, field?_padded s.day_lt, field?_padded hhour,
      field?_padded hminute, field?_padded hsecond, hdate, s.isValid, s.inRange, s.hour_lt,
      s.minute_lt, s.second_le]
    rfl

theorem isCreationDate_iff {cs : List Char} :
    isCreationDate cs = true ↔ ∃ s : Stamp, cs = s.text.toList := by
  refine ⟨fun h => ?_, fun ⟨s, hs⟩ => by rw [hs]; exact isCreationDate_text s⟩
  rw [isCreationDate, Bool.and_eq_true, Option.isSome_iff_exists, creationDateForm_eq] at h
  obtain ⟨hform, t, h⟩ := h
  simp only [ofStamp?, Option.bind_eq_bind, Option.bind_eq_some_iff] at h
  obtain ⟨⟨_, _⟩, hyear, _, hmark, ⟨month, _⟩, hmonth, ⟨day, _⟩, hday, ⟨hour, _⟩, hhour,
    ⟨minute, _⟩, hminute, ⟨second, _⟩, hsecond, h⟩ := h
  obtain rfl := mark?_eq_some.mp hmark
  obtain ⟨year, rfl, hcs, hplain, hform⟩ := eq_of_year? (by decide) (by decide) hform hyear
  obtain ⟨hmonths, hform⟩ := eq_of_field? (by decide) (by decide) hform hmonth
  obtain ⟨hdays, hform⟩ := eq_of_field? (by decide) (by decide) hform hday
  obtain ⟨hhours, hform⟩ := eq_of_field? (by decide) (by decide) hform hhour
  obtain ⟨hminutes, hform⟩ := eq_of_field? (by decide) (by decide) hform hminute
  obtain ⟨hseconds, hform⟩ := eq_of_field? (by decide) (by decide) hform hsecond
  split at h
  · rename_i hvalid
    simp only [Bool.and_eq_true, decide_eq_true_eq] at hvalid
    obtain ⟨⟨⟨⟨⟨_, hdate⟩, _⟩, hh⟩, hm⟩, hs⟩ := hvalid
    refine ⟨⟨⟨year, month, day⟩, hour, minute, second, hdate, by simp only; omega, hh, hm, hs⟩, ?_⟩
    rw [Stamp.toList_text, hcs, hmonths, hdays, hhours, hminutes, hseconds,
      Text.hasForm_nil.mp hform]
    rfl
  · cases h

end Rule
end ForcingData
