import ForcingData.Dataset.Frequency
import ForcingData.Proofs.Time.Calendar

/-! # Earlier and later

Instants are in a total order (`Instant.le_iff`), so the earliest and the latest of some instants
are the same in whatever order these come (`earliest?_eq_some_iff`, `latest?_eq_some_iff`). The
digits of an instant are a number of a fixed width (`shows_text`), and such numbers are ordered as
their texts are: an instant that is not later has no greater text (`text_le_text`). -/

namespace ForcingData

namespace Instant
variable {a b c t : Instant} {ts us : List Instant}

theorem le_iff : a.le b = true ↔
    a.date.year < b.date.year ∨ a.date.year = b.date.year ∧
      (a.date.month < b.date.month ∨ a.date.month = b.date.month ∧
        (a.date.day < b.date.day ∨ a.date.day = b.date.day ∧
          (a.second < b.second ∨ a.second = b.second ∧ a.nano ≤ b.nano))) := by
  simp only [le, Bool.not_eq_true', beq_eq_false_iff_ne, Ne, Ordering.ne_gt_iff_isLE,
    List.compare_cons_cons, Ordering.isLE_then_iff_or, Int.compare_eq_lt,
    Std.compare_eq_iff_eq, List.compare_nil_nil, Ordering.isLE_eq, and_true]
  omega

theorem le_trans (hab : a.le b = true) (hbc : b.le c = true) : a.le c = true := by
  rw [le_iff] at hab hbc ⊢
  omega

theorem le_total (a b : Instant) : a.le b = true ∨ b.le a = true := by
  rw [le_iff, le_iff]
  omega

theorem le_refl (a : Instant) : a.le a = true := (le_total a a).elim id id

theorem le_antisymm (hab : a.le b = true) (hba : b.le a = true) : a = b := by
  rw [le_iff] at hab hba
  rcases a with ⟨⟨_, _, _⟩, _, _⟩
  rcases b with ⟨⟨_, _, _⟩, _, _⟩
  simp only [mk.injEq, Date.mk.injEq] at hab hba ⊢
  omega

/-! ### The earliest and the latest -/

/-- What is chosen of two instants at a time is before all of them if it is before the two. -/
theorem foldl_choose {r : Instant → Instant → Prop} {choose : Instant → Instant → Instant}
    (hrefl : ∀ a, r a a) (htrans : ∀ {a b c}, r a b → r b c → r a c)
    (hchoose : ∀ a b, (choose a b = a ∨ choose a b = b) ∧ r (choose a b) a ∧ r (choose a b) b) :
    ∀ (ts : List Instant) (t : Instant),
      ts.foldl choose t ∈ t :: ts ∧ ∀ u ∈ t :: ts, r (ts.foldl choose t) u
  | [], t => ⟨List.mem_singleton_self t, List.forall_mem_singleton.mpr (hrefl t)⟩
  | u :: ts, t => by
    obtain ⟨hone, hfirst, hsecond⟩ := hchoose t u
    obtain ⟨hmem, hleast⟩ := foldl_choose hrefl htrans hchoose ts (choose t u)
    obtain ⟨hbest, hrest⟩ := List.forall_mem_cons.mp hleast
    rw [List.foldl_cons]
    refine ⟨?_, List.forall_mem_cons.mpr ⟨htrans hbest hfirst,
      List.forall_mem_cons.mpr ⟨htrans hbest hsecond, hrest⟩⟩⟩
    rcases List.mem_cons.mp hmem with h | h
    · rw [h]
      rcases hone with hone | hone <;> simp [hone]
    · exact List.mem_cons_of_mem _ (List.mem_cons_of_mem _ h)

theorem earliest?_eq_some_iff : earliest? ts = some t ↔ t ∈ ts ∧ ∀ u ∈ ts, t.le u = true := by
  cases ts with
  | nil => simp [earliest?]
  | cons u ts =>
    have hchoose : ∀ a b : Instant,
        ((if a.le b then a else b) = a ∨ (if a.le b then a else b) = b) ∧
          (if a.le b then a else b).le a = true ∧ (if a.le b then a else b).le b = true := by
      intro a b
      by_cases hab : a.le b = true
      · simp [hab, le_refl]
      · simp [hab, le_refl, (le_total a b).resolve_left hab]
    have h := foldl_choose (r := fun a b => a.le b = true) le_refl le_trans hchoose ts u
    rw [earliest?, Option.some.injEq]
    constructor
    · rintro rfl
      exact h
    · exact fun ⟨hmem, hle⟩ => le_antisymm (h.2 t hmem) (hle _ h.1)

theorem latest?_eq_some_iff : latest? ts = some t ↔ t ∈ ts ∧ ∀ u ∈ ts, u.le t = true := by
  cases ts with
  | nil => simp [latest?]
  | cons u ts =>
    have hchoose : ∀ a b : Instant,
        ((if a.le b then b else a) = a ∨ (if a.le b then b else a) = b) ∧
          a.le (if a.le b then b else a) = true ∧ b.le (if a.le b then b else a) = true := by
      intro a b
      by_cases hab : a.le b = true
      · simp [hab, le_refl]
      · simp [hab, le_refl, (le_total a b).resolve_left hab]
    have h := foldl_choose (r := fun a b => b.le a = true) le_refl
      (fun hab hbc => le_trans hbc hab) hchoose ts u
    rw [latest?, Option.some.injEq]
    constructor
    · rintro rfl
      exact h
    · exact fun ⟨hmem, hle⟩ => le_antisymm (hle _ h.1) (h.2 t hmem)

theorem earliest?_isSome_iff : (earliest? ts).isSome = true ↔ ts ≠ [] := by
  cases ts <;> simp [earliest?]

theorem latest?_isSome_iff : (latest? ts).isSome = true ↔ ts ≠ [] := by
  cases ts <;> simp [latest?]

theorem earliest?_eq_of_perm (h : ts.Perm us) : earliest? ts = earliest? us :=
  Option.ext fun t => by simp only [earliest?_eq_some_iff, h.mem_iff]

theorem latest?_eq_of_perm (h : ts.Perm us) : latest? ts = latest? us :=
  Option.ext fun t => by simp only [latest?_eq_some_iff, h.mem_iff]

/-! ### Numbers of a width -/

section
variable {ds es : List Char} {n m : Nat}

theorem Shows.append (hd : Shows ds n) (he : Shows es m) :
    Shows (ds ++ es) (10 ^ es.length * n + m) := by
  refine ⟨fun c hc => (List.mem_append.mp hc).elim (hd.isDigit c) (he.isDigit c), ?_⟩
  rw [Nat.ofDigitChars_append, hd.value, Nat.ofDigitChars_eq_ofDigitChars_zero, he.value]

theorem Shows.append_padded (h : Shows ds n) (hm : m < 100) :
    Shows (ds ++ (padded 2 m).toList) (100 * n + m) := by
  have hlength : (padded 2 m).toList.length = 2 := length_padded (by decide) hm
  have hboth := h.append (shows_padded 2 m)
  rwa [hlength] at hboth

/-- The first digit counts for as many numbers as the others can show. -/
theorem Shows.exists_of_cons {c : Char} (h : Shows (c :: ds) n) :
    ∃ k, Shows ds k ∧ n = 10 ^ ds.length * (c.toNat - '0'.toNat) + k := by
  refine ⟨_, ⟨fun d hd => h.isDigit d (List.mem_cons_of_mem _ hd), rfl⟩, ?_⟩
  rw [← h.value, Nat.ofDigitChars_cons, Nat.mul_zero, Nat.zero_add,
    Nat.ofDigitChars_eq_ofDigitChars_zero]

theorem Shows.not_lt : ∀ {ds es : List Char} {n m : Nat}, Shows ds n → Shows es m →
    ds.length = es.length → n ≤ m → ¬es < ds
  | [], _, _, _, _, _, _, _ => List.not_lt_nil _
  | c :: ds, d :: es, n, m, hn, hm, hlength, hle => by
    obtain ⟨k, hk, rfl⟩ := hn.exists_of_cons
    obtain ⟨l, hl, rfl⟩ := hm.exists_of_cons
    have htail : ds.length = es.length := Nat.succ.inj hlength
    have hlt : l < 10 ^ es.length := hl.value ▸ ofDigitChars_lt hl.isDigit
    obtain ⟨hd, -⟩ := toNat_of_isDigit (hm.isDigit d (List.mem_cons_self ..))
    have hzero : '0'.toNat = 48 := rfl
    rw [htail] at hle
    rw [List.cons_lt_cons_iff]
    rintro (h | ⟨rfl, h⟩)
    · -- the greater digit outweighs all that follow the smaller one
      have hless : d.toNat < c.toNat := h
      have hgreater : d.toNat - '0'.toNat + 1 ≤ c.toNat - '0'.toNat := by omega
      have hmore := Nat.mul_le_mul_left (10 ^ es.length) hgreater
      rw [Nat.mul_add, Nat.mul_one] at hmore
      omega
    · exact hk.not_lt hl htail (Nat.le_of_add_le_add_left hle) h

end

/-- The year has four digits. -/
def HasPlainYear (t : Instant) : Prop := 0 ≤ t.date.year ∧ t.date.year ≤ 9999

instance (t : Instant) : Decidable t.HasPlainYear := inferInstanceAs (Decidable (_ ∧ _))

theorem yearText_of_hasPlainYear (h : t.HasPlainYear) :
    yearText t.date.year = padded 4 t.date.year.toNat := by
  have habs : t.date.year.natAbs = t.date.year.toNat := by
    have := h.1
    omega
  simp [yearText, h.1, h.2, habs]

end Instant

/-! ### Digits of instants -/

namespace Frequency.Precision
open Instant
variable {a b t : Instant}

/-- The digits of an instant, as a number. -/
def number (p : Precision) (t : Instant) : Nat :=
  let year := t.date.year.toNat
  let month := 100 * year + t.date.month
  let day := 100 * month + t.date.day
  match p with
  | .year => year
  | .month => month
  | .day => day
  | .minute => 100 * (100 * day + t.second / 3600) + t.second / 60 % 60

/-- How many digits there are. -/
def width : Precision → Nat
  | .year => 4
  | .month => 6
  | .day => 8
  | .minute => 12

theorem shows_text (p : Precision) (hv : t.IsValid) (hy : t.HasPlainYear) :
    Shows (p.text t).toList (p.number t) ∧ (p.text t).toList.length = p.width := by
  obtain ⟨-, hmonth, -⟩ := Date.isValid_iff.mp hv.date
  have hmonth : t.date.month < 100 := by omega
  have hday : t.date.day < 100 := by
    have := (Date.isValid_bounds hv.date).2
    omega
  have hsecond := hv.second
  have hhour : t.second / 3600 < 100 := by omega
  have hminute : t.second / 60 % 60 < 100 := by omega
  have hyear : t.date.year.toNat < 10 ^ 4 := by
    have := hy.2
    omega
  have hfour := length_padded (w := 4) (by decide) hyear
  have two {n : Nat} (h : n < 100) : (padded 2 n).toList.length = 2 := length_padded (by decide) h
  have year := shows_padded 4 t.date.year.toNat
  have month := year.append_padded hmonth
  have day := month.append_padded hday
  have minute := (day.append_padded hhour).append_padded hminute
  unfold text
  rw [yearText_of_hasPlainYear hy]
  cases p with
  | year => exact ⟨year, hfour⟩
  | month => simpa [number, width, hfour, two hmonth] using month
  | day => simpa [number, width, hfour, two hmonth, two hday] using day
  | minute =>
    simpa [number, width, hfour, two hmonth, two hday, two hhour, two hminute] using minute

theorem number_le_number (p : Precision) (ha : a.IsValid) (hb : b.IsValid) (hya : a.HasPlainYear)
    (h : a.le b = true) : p.number a ≤ p.number b := by
  have hyear := hya.1
  obtain ⟨-, hmonth, -⟩ := Date.isValid_iff.mp ha.date
  have hday := (Date.isValid_bounds ha.date).2
  have hsecond := ha.second
  have hsecond' := hb.second
  rw [le_iff] at h
  cases p <;> simp only [number] <;> omega

theorem text_le_text (p : Precision) (ha : a.IsValid) (hb : b.IsValid) (hya : a.HasPlainYear)
    (hyb : b.HasPlainYear) (h : a.le b = true) : p.text a ≤ p.text b := by
  obtain ⟨hshows, hlength⟩ := p.shows_text ha hya
  obtain ⟨hshows', hlength'⟩ := p.shows_text hb hyb
  have hnot := hshows.not_lt hshows' (hlength.trans hlength'.symm) (p.number_le_number ha hb hya h)
  exact String.not_lt.mp fun hlt => hnot (String.lt_iff.mp hlt)

theorem isDigit_of_mem_text (p : Precision) (hy : t.HasPlainYear) :
    ∀ c ∈ (p.text t).toList, c.isDigit = true := by
  have digits (width n : Nat) := (shows_padded width n).isDigit
  have all {a b : List Char} (ha : ∀ c ∈ a, c.isDigit = true) (hb : ∀ c ∈ b, c.isDigit = true) :
      ∀ c ∈ a ++ b, c.isDigit = true := fun c hc => (List.mem_append.mp hc).elim (ha c) (hb c)
  unfold text
  rw [yearText_of_hasPlainYear hy]
  cases p <;> simp only [String.toList_append]
  · exact digits 4 _
  · exact all (digits 4 _) (digits 2 _)
  · exact all (all (digits 4 _) (digits 2 _)) (digits 2 _)
  · exact all (all (all (all (digits 4 _) (digits 2 _)) (digits 2 _)) (digits 2 _)) (digits 2 _)

end Frequency.Precision
end ForcingData
