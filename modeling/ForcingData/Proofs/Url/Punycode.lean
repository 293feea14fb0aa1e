import ForcingData.Proofs.Runs
import ForcingData.Url.Punycode
import Mathlib.Data.List.Sort
import Mathlib.Tactic.Ring

/-! # Punycode and back

While the encoder walks over the text, once for each code point, it counts how far the decoder has
to go from the place of the last character it was told. `Follows` says so of one moment; the
encoder's steps keep it (`Follows.pass`, `Follows.skip`, `Follows.turn`), and so does the whole walk
(`Follows.place`). What is encoded is therefore decoded again (`decode?_encode`). -/

namespace ForcingData.Url.Punycode

/-! ### Numbers -/

theorem digitValue?_digitChar {d : Nat} (h : d < 36) : digitValue? (digitChar d) = some d := by
  have hall : ∀ d < 36, digitValue? (digitChar d) = some d := by decide
  exact hall d h

section
variable {bias k q : Nat}

/-- The character is one of the digits. -/
def IsDigit (c : Char) : Prop := ∃ d < 36, c = digitChar d

theorem isDigit_of_mem_numberChars {c : Char} (h : c ∈ numberChars bias k q) : IsDigit c := by
  have hle := threshold_le k bias
  fun_induction numberChars bias k q with
  | case1 k q t hlt =>
    obtain rfl := List.mem_singleton.mp h
    exact ⟨q, by omega, rfl⟩
  | case2 k q t hge ih =>
    rcases List.mem_cons.mp h with rfl | h
    · have hmod : (q - t) % (36 - t) < 36 - t := Nat.mod_lt _ (by omega)
      exact ⟨_, by omega, rfl⟩
    · exact ih h (threshold_le _ _)

variable (bias k q) in
theorem numberChars_ne_nil : numberChars bias k q ≠ [] := by
  rw [numberChars]
  split_ifs <;> simp

theorem number?_numberChars (weight i : Nat) (rest : List Char) :
    number? bias k weight i (numberChars bias k q ++ rest) = some (i + q * weight, rest) := by
  fun_induction numberChars bias k q generalizing weight i with
  | case1 k q t hlt =>
    have hle := threshold_le k bias
    simp [number?, digitValue?_digitChar (show q < 36 by omega), t, hlt]
  | case2 k q t hge ih =>
    have hle := threshold_le k bias
    have hmod : (q - t) % (36 - t) < 36 - t := Nat.mod_lt _ (by omega)
    have hdigit : t + (q - t) % (36 - t) < 36 := by omega
    have hlast : ¬t + (q - t) % (36 - t) < t := by omega
    rw [List.cons_append, number?, digitValue?_digitChar hdigit]
    simp only [Option.bind_eq_bind, Option.bind_some]
    rw [if_neg hlast, ih]
    have hq : t + (q - t) % (36 - t) + (q - t) / (36 - t) * (36 - t) = q := by
      have hsum := Nat.mod_add_div' (q - t) (36 - t)
      omega
    congr 2
    calc i + (t + (q - t) % (36 - t)) * weight + (q - t) / (36 - t) * (weight * (36 - t))
        = i + (t + (q - t) % (36 - t) + (q - t) / (36 - t) * (36 - t)) * weight := by ring
      _ = i + q * weight := by rw [hq]

end

/-! ### What the decoder does meanwhile -/

section
variable {basic digits output before after : List Char} {n i bias delta : Nat} {c : Char}

/-- Over these digits the decoder gets from its start to a state, whatever follows. -/
def Reaches (basic digits : List Char) (n i bias : Nat) (output : List Char) : Prop :=
  ∀ rest fuel, digits.length + rest.length < fuel → ∃ fuel', rest.length < fuel' ∧
    insertAll? fuel (digits ++ rest) 0x80 0 72 basic = insertAll? fuel' rest n i bias output

theorem reaches_start : Reaches basic [] 0x80 0 72 basic :=
  fun _ fuel h => ⟨fuel, by simpa using h, rfl⟩

theorem Reaches.insertAll? (h : Reaches basic digits n i bias output) :
    insertAll? (digits.length + 1) digits 0x80 0 72 basic = some output := by
  obtain ⟨fuel, hfuel, hlast⟩ := h [] (digits.length + 1) (by simp)
  rw [List.append_nil] at hlast
  obtain ⟨fuel, rfl⟩ := Nat.exists_eq_add_of_lt hfuel
  rw [hlast]
  rfl

/-- A number puts one character where it says. -/
theorem Reaches.number (h : Reaches basic digits n i bias (before ++ after)) (hn : n ≤ c.toNat)
    (hdelta : i + delta =
      before.length + (c.toNat - n) * ((before ++ after).length + 1)) :
    Reaches basic (digits ++ numberChars bias 36 delta) c.toNat (before.length + 1)
      (adapt delta ((before ++ after).length + 1) (i = 0)) (before ++ c :: after) := by
  intro rest fuel hfuel
  have hpos := List.length_pos_iff.mpr (numberChars_ne_nil bias 36 delta)
  obtain ⟨fuel', hfuel', hsame⟩ := h (numberChars bias 36 delta ++ rest) fuel
    (by simpa [Nat.add_assoc] using hfuel)
  rw [List.length_append] at hfuel'
  obtain ⟨fuel', rfl⟩ : ∃ f, fuel' = f + 1 := ⟨fuel' - 1, by omega⟩
  refine ⟨fuel', by omega, ?_⟩
  have hplace : before.length < (before ++ after).length + 1 := by
    rw [List.length_append]
    omega
  -- the sum is split into the code point and the place that it goes to
  have hcode : n + (i + delta) / ((before ++ after).length + 1) = c.toNat := by
    rw [hdelta, Nat.add_mul_div_right _ _ (by omega), Nat.div_eq_of_lt hplace]
    omega
  have hat : (i + delta) % ((before ++ after).length + 1) = before.length := by
    rw [hdelta, Nat.add_mul_mod_self_right, Nat.mod_eq_of_lt hplace]
  have hisEmpty : (numberChars bias 36 delta ++ rest).isEmpty = false := by
    simp [numberChars_ne_nil]
  have hscalar : ¬((decide (0x10ffff < c.toNat) ||
      (decide (0xd800 ≤ c.toNat) && decide (c.toNat < 0xe000))) = true) := by
    have hvalid : c.toNat < 0xd800 ∨ 0xdfff < c.toNat ∧ c.toNat < 0x110000 := c.valid
    simp only [Bool.or_eq_true, Bool.and_eq_true, decide_eq_true_eq]
    omega
  rw [List.append_assoc, hsame, Punycode.insertAll?, hisEmpty, number?_numberChars, Nat.mul_one]
  simp only [Bool.false_eq_true, if_false, Option.bind_eq_bind, Option.bind_some, hcode, hat,
    Nat.add_sub_cancel_left, List.take_left, List.drop_left, Char.ofNat_toNat]
  rw [if_neg hscalar]

end

/-! ### The encoder and the decoder side by side -/

/-- What has been put together when the encoder is past `done`, and before `rest`, with the code
point `m`: all below it, and of its own those in `done`. -/
def placed (m : Nat) (done rest : List Char) : List Char :=
  done.filter (·.toNat ≤ m) ++ rest.filter (·.toNat < m)

/-- The encoder at the code point `m`, past `done` and before `rest`, and the decoder after the
digits that have been written: the number that is being counted leads from the one to the other. -/
structure Follows (basic : List Char) (m : Nat) (done rest : List Char) (e : Encoding)
    (n i : Nat) : Prop where
  reaches : Reaches basic e.output n i e.bias (placed m done rest)
  delta : i + e.delta = (done.filter (·.toNat ≤ m)).length + (m - n) * (e.handled + 1)
  le : n ≤ m
  handled : e.handled = (placed m done rest).length
  basic_le : basic.length ≤ e.handled
  first : i = 0 ↔ e.handled = basic.length

section
variable {basic done rest : List Char} {m n i : Nat} {e : Encoding} {c : Char}

theorem Follows.pass (h : Follows basic m done (c :: rest) e n i) :
    ∃ n' i', Follows basic m (done ++ [c]) rest (e.pass basic.length m c) n' i' := by
  obtain ⟨hreaches, hdelta, hle, hhandled, hbasic, hfirst⟩ := h
  rcases Nat.lt_trichotomy c.toNat m with hlt | rfl | hgt
  · have hplaced : placed m (done ++ [c]) rest = placed m done (c :: rest) := by
      simp [placed, hlt, hlt.le]
    refine ⟨n, i, ?_⟩
    rw [Encoding.pass, if_pos hlt]
    refine ⟨hplaced ▸ hreaches, ?_, hle, hplaced ▸ hhandled, hbasic, hfirst⟩
    simp only [List.filter_append, List.filter_cons, List.filter_nil, hlt.le, decide_true, if_true,
      List.length_append, List.length_singleton]
    omega
  · -- the character itself: its number is written, and the decoder puts it where it belongs
    have hbefore : placed c.toNat done (c :: rest) =
        done.filter (·.toNat ≤ c.toNat) ++ rest.filter (·.toNat < c.toNat) := by
      simp [placed]
    have hafter : placed c.toNat (done ++ [c]) rest =
        done.filter (·.toNat ≤ c.toNat) ++ c :: rest.filter (·.toNat < c.toNat) := by
      simp [placed]
    rw [hbefore] at hreaches hhandled
    rw [hhandled] at hdelta
    have hnumber := hreaches.number hle hdelta
    refine ⟨c.toNat, (done.filter (·.toNat ≤ c.toNat)).length + 1, ?_⟩
    rw [Encoding.pass, if_neg (Nat.lt_irrefl _), if_pos rfl]
    refine ⟨?_, ?_, le_rfl, ?_, hbasic.trans (Nat.le_succ _), ?_⟩
    · rw [hafter]
      simpa only [← hhandled, hfirst] using hnumber
    · simp
    · simp [hafter, hhandled, Nat.add_assoc]
    · simp only [Nat.add_eq_zero_iff, one_ne_zero, and_false, false_iff]
      omega
  · have hplaced : placed m (done ++ [c]) rest = placed m done (c :: rest) := by
      simp [placed, hgt.not_ge, hgt.not_gt]
    refine ⟨n, i, ?_⟩
    rw [Encoding.pass, if_neg hgt.not_gt, if_neg hgt.ne']
    refine ⟨hplaced ▸ hreaches, ?_, hle, hplaced ▸ hhandled, hbasic, hfirst⟩
    simpa [List.filter_cons, hgt.not_ge] using hdelta

theorem Follows.foldl_pass : ∀ {rest done : List Char} {e : Encoding} {n i : Nat},
    Follows basic m done rest e n i → ∃ n' i',
      Follows basic m (done ++ rest) [] (rest.foldl (Encoding.pass basic.length m) e) n' i'
  | [], done, e, n, i, h => ⟨n, i, by rwa [List.append_nil]⟩
  | c :: rest, done, e, n, i, h => by
    obtain ⟨n', i', hpass⟩ := h.pass
    rw [List.append_cons]
    exact hpass.foldl_pass

/-- Between two code points of the text nothing happens but that the decoder has farther to go. -/
theorem Follows.skip {cs : List Char} {k : Nat} (h : Follows basic m [] cs e n i) (hk : m ≤ k)
    (hnone : ∀ c ∈ cs, m ≤ c.toNat → k ≤ c.toNat) :
    Follows basic k [] cs { e with delta := e.delta + (k - m) * (e.handled + 1) } n i := by
  obtain ⟨hreaches, hdelta, hle, hhandled, hbasic, hfirst⟩ := h
  have hplaced : placed k [] cs = placed m [] cs := by
    refine congrArg _ (List.filter_congr fun c hc => ?_)
    have hfrom := hnone c hc
    rw [Bool.eq_iff_iff, decide_eq_true_eq, decide_eq_true_eq]
    omega
  refine ⟨hplaced ▸ hreaches, ?_, hle.trans hk, hplaced ▸ hhandled, hbasic, hfirst⟩
  have hsum : k - n = (m - n) + (k - m) := by omega
  rw [hsum, Nat.add_mul, ← Nat.add_assoc, ← Nat.add_assoc, hdelta]
  rfl

/-- At the end of the text the encoder turns to the next code point, from the start. -/
theorem Follows.turn {cs : List Char} (h : Follows basic m cs [] e n i) :
    Follows basic (m + 1) [] cs { e with delta := e.delta + 1 } n i := by
  obtain ⟨hreaches, hdelta, hle, hhandled, hbasic, hfirst⟩ := h
  have hplaced : placed (m + 1) [] cs = placed m cs [] := by
    simp only [placed, List.filter_nil, List.nil_append, List.append_nil, Nat.lt_add_one_iff]
  refine ⟨hplaced ▸ hreaches, ?_, hle.trans (Nat.le_succ m), hplaced ▸ hhandled, hbasic, hfirst⟩
  have hsum : m + 1 - n = (m - n) + 1 := by omega
  have hlength : e.handled = (cs.filter (·.toNat ≤ m)).length := by simpa [placed] using hhandled
  rw [hsum, Nat.add_mul, ← Nat.add_assoc, hdelta, hlength]
  simp
  omega

/-- The code points are placed one after the other, until there is none left. -/
theorem Follows.place {cs : List Char} : ∀ {ms : List Nat} {m : Nat} {e : Encoding} {n i : Nat},
    Follows basic m [] cs e n i → ms.Pairwise (· < ·) → (∀ k ∈ ms, m ≤ k) →
    (∀ c ∈ cs, m ≤ c.toNat → c.toNat ∈ ms) →
    ∃ n' i' bias', Reaches basic (Encoding.place cs basic.length m ms e).output n' i' bias' cs
  | [], m, e, n, i, h, _, _, hall => by
    have hplaced : placed m [] cs = cs := by
      refine (List.nil_append _).trans (List.filter_eq_self.mpr fun c hc => ?_)
      by_contra hnot
      exact List.not_mem_nil (hall c hc (by simpa using hnot))
    exact ⟨n, i, e.bias, hplaced ▸ h.reaches⟩
  | k :: ms, m, e, n, i, h, hsorted, hfrom, hall => by
    have ⟨hnext, hsorted⟩ := List.pairwise_cons.mp hsorted
    have hk := hfrom k List.mem_cons_self
    have hskip := h.skip hk fun c hc hm => by
      rcases List.mem_cons.mp (hall c hc hm) with he | hmem
      · exact he.ge
      · exact (hnext _ hmem).le
    obtain ⟨n', i', hpassed⟩ := hskip.foldl_pass
    rw [List.nil_append] at hpassed
    rw [Encoding.place]
    refine Follows.place hpassed.turn hsorted hnext fun c hc hm => ?_
    rcases List.mem_cons.mp (hall c hc (by omega)) with he | hmem
    · omega
    · exact hmem

end

/-! ### The code points of a text -/

/-- The numbers without those that the next one repeats. -/
def distinct (ns : List Nat) : List Nat :=
  ns.foldr (fun n acc => if acc.head? = some n then acc else n :: acc) []

theorem distinct_cons (n : Nat) (ns : List Nat) : distinct (n :: ns) =
    if (distinct ns).head? = some n then distinct ns else n :: distinct ns := rfl

theorem mem_distinct {n : Nat} {ns : List Nat} : n ∈ distinct ns ↔ n ∈ ns := by
  induction ns with
  | nil => rfl
  | cons k ns ih =>
    rw [distinct_cons, List.mem_cons, ← ih]
    split_ifs with hhead
    · exact ⟨.inr, fun h => h.elim (fun he => he ▸ List.mem_of_mem_head? hhead) id⟩
    · exact List.mem_cons

theorem pairwise_distinct {ns : List Nat} (h : ns.Pairwise (· ≤ ·)) :
    (distinct ns).Pairwise (· < ·) := by
  induction ns with
  | nil => exact .nil
  | cons k ns ih =>
    have ⟨hle, htail⟩ := List.pairwise_cons.mp h
    have hsorted := ih htail
    rw [distinct_cons]
    split_ifs with hhead
    · exact hsorted
    · refine List.pairwise_cons.mpr ⟨fun n hn => ?_, hsorted⟩
      refine Nat.lt_of_le_of_ne (hle n (mem_distinct.mp hn)) fun he => ?_
      subst he
      cases hrest : distinct ns with
      | nil => simp [hrest] at hn
      | cons first rest =>
        rw [hrest] at hn hhead hsorted
        rcases List.mem_cons.mp hn with he | hmem
        · exact hhead (he ▸ rfl)
        · have hlt := (List.pairwise_cons.mp hsorted).1 k hmem
          have hge := hle first (mem_distinct.mp (hrest ▸ List.mem_cons_self))
          omega

theorem mem_sortedDistinct {ns : List Nat} {n : Nat} : n ∈ sortedDistinct ns ↔ n ∈ ns :=
  mem_distinct.trans List.mem_mergeSort

theorem pairwise_sortedDistinct (ns : List Nat) : (sortedDistinct ns).Pairwise (· < ·) :=
  pairwise_distinct (List.pairwise_mergeSort' (· ≤ ·) ns)

/-! ### Which characters are written -/

section
variable {basic m : Nat} {e : Encoding} {c : Char}

theorem Encoding.isDigit_pass (h : ∀ d ∈ e.output, IsDigit d) :
    ∀ d ∈ (e.pass basic m c).output, IsDigit d := by
  unfold pass
  split_ifs
  · exact h
  · exact fun d hd => (List.mem_append.mp hd).elim (h d) isDigit_of_mem_numberChars
  · exact h

theorem Encoding.isDigit_place {cs : List Char} : ∀ {ms : List Nat} {m : Nat} {e : Encoding},
    (∀ d ∈ e.output, IsDigit d) → ∀ d ∈ (place cs basic m ms e).output, IsDigit d
  | [], _, _, h => h
  | k :: ms, m, e, h => by
    have hfold : ∀ (l : List Char) (e : Encoding), (∀ d ∈ e.output, IsDigit d) →
        ∀ d ∈ (l.foldl (pass basic k) e).output, IsDigit d := fun l => by
      induction l with
      | nil => exact fun _ h => h
      | cons c l ih => exact fun e h => ih _ (isDigit_pass h)
    rw [place]
    exact isDigit_place (hfold cs _ h)

end

/-- The digits after the ASCII characters. -/
def digitsOf (cs : List Char) : List Char :=
  (Encoding.place cs (cs.filter (·.toNat < 0x80)).length 0x80
    (sortedDistinct ((cs.filter (0x80 ≤ ·.toNat)).map Char.toNat))
    ⟨[], 0, 72, (cs.filter (·.toNat < 0x80)).length⟩).output

theorem isDigit_of_mem_digitsOf {cs : List Char} {c : Char} (h : c ∈ digitsOf cs) : IsDigit c :=
  Encoding.isDigit_place (List.forall_mem_nil _) c h

theorem encode_eq (cs : List Char) : encode cs =
    cs.filter (·.toNat < 0x80) ++ (if (cs.filter (·.toNat < 0x80)).isEmpty then [] else ['-']) ++
      digitsOf cs := rfl

theorem IsDigit.ne_hyphen {c : Char} (h : IsDigit c) : c ≠ '-' := by
  obtain ⟨d, hd, rfl⟩ := h
  have hall : ∀ d < 36, digitChar d ≠ '-' := by decide
  exact hall d hd

/-! ### Both together -/

theorem reaches_digitsOf (cs : List Char) :
    ∃ n i bias, Reaches (cs.filter (·.toNat < 0x80)) (digitsOf cs) n i bias cs := by
  have hstart : Follows (cs.filter (·.toNat < 0x80)) 0x80 [] cs
      ⟨[], 0, 72, (cs.filter (·.toNat < 0x80)).length⟩ 0x80 0 :=
    ⟨reaches_start, by simp, le_rfl, rfl, le_rfl, by simp⟩
  refine hstart.place (pairwise_sortedDistinct _) (fun k hk => ?_) fun c hc hm => ?_
  · obtain ⟨c, hc, rfl⟩ := List.mem_map.mp (mem_sortedDistinct.mp hk)
    simpa using (List.mem_filter.mp hc).2
  · exact mem_sortedDistinct.mpr (List.mem_map_of_mem (List.mem_filter.mpr ⟨hc, by simpa using hm⟩))

section
variable {basic digits : List Char} (h : ∀ c ∈ digits, c ≠ '-')
include h

theorem decode?_digits :
    decode? digits = insertAll? (digits.length + 1) digits 0x80 0 72 [] := by
  have htail : (digits.reverse.takeWhile (· != '-')).reverse = digits := by
    rw [← List.append_nil digits.reverse, List.takeWhile_append_of_pos (by simpa using h)]
    simp
  simp [decode?, htail]

theorem decode?_hyphen (hbasic : basic.all (·.toNat < 0x80) = true) :
    decode? (basic ++ '-' :: digits) =
      insertAll? (digits.length + 1) digits 0x80 0 72 basic := by
  have htail : ((basic ++ '-' :: digits).reverse.takeWhile (· != '-')).reverse = digits :=
    reverse_takeWhile_reverse fun hmem => h '-' hmem rfl
  have hlength : (basic ++ '-' :: digits).length - digits.length - 1 = basic.length := by
    simp
    omega
  have hshort : digits.length ≠ (basic ++ '-' :: digits).length := by
    simp
    omega
  simp only [decode?, htail, hlength, List.take_left, if_neg hshort, hbasic, if_true]

end

theorem decode?_encode (cs : List Char) : decode? (encode cs) = some cs := by
  obtain ⟨n, i, bias, hreaches⟩ := reaches_digitsOf cs
  have hdigits : ∀ c ∈ digitsOf cs, c ≠ '-' := fun c hc => (isDigit_of_mem_digitsOf hc).ne_hyphen
  rw [encode_eq]
  split_ifs with hempty
  · rw [List.isEmpty_iff.mp hempty] at hreaches ⊢
    rw [List.append_nil, List.nil_append, decode?_digits hdigits, hreaches.insertAll?]
  · rw [List.append_assoc, List.singleton_append, decode?_hyphen hdigits (by simp),
      hreaches.insertAll?]

end ForcingData.Url.Punycode
