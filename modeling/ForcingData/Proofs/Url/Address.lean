import ForcingData.Proofs.Url.Domain
import Mathlib.Data.List.Induction
import Mathlib.Data.List.TakeWhile

/-! # Addresses, twice

Addresses are numbers in bounds (`ipv4?_lt`, `of_ipv6?`), and what is written for such numbers is
read as these numbers (`ipv4?_ipv4Text`, `ipv6?_ipv6Text`). -/

namespace ForcingData.Url

/-! ### Numbers -/

section
variable {radix : Nat} {cs : List Char}

theorem exists_digitChar_of_mem_toDigits {n : Nat} {c : Char} (hradix : 1 < radix)
    (h : c ∈ Nat.toDigits radix n) : ∃ d < radix, c = Nat.digitChar d := by
  induction n using Nat.strongRecOn with
  | _ n ih =>
    by_cases hlt : n < radix
    · rw [Nat.toDigits_of_lt_base hlt, List.mem_singleton] at h
      exact ⟨n, hlt, h⟩
    · rw [Nat.toDigits_of_base_le hradix (by omega), List.mem_append, List.mem_singleton] at h
      rcases h with h | h
      · exact ih (n / radix) (Nat.div_lt_self (by omega) hradix) h
      · exact ⟨n % radix, Nat.mod_lt n (by omega), h⟩

theorem digitsValue?_concat (c : Char) : digitsValue? radix (cs ++ [c]) =
    (digitsValue? radix cs).bind fun n => (hexValue? c).bind fun d =>
      if d < radix then some (n * radix + d) else none := by
  rw [digitsValue?, List.foldl_append]
  rfl

theorem hexValue?_digitChar {d : Nat} (h : d < 16) : hexValue? (Nat.digitChar d) = some d := by
  have hall : ∀ d < 16, hexValue? (Nat.digitChar d) = some d := by decide
  exact hall d h

theorem digitsValue?_toDigits (hpos : 1 < radix) (hmost : radix ≤ 16) (n : Nat) :
    digitsValue? radix (Nat.toDigits radix n) = some n := by
  induction n using Nat.strongRecOn with
  | _ n ih =>
    by_cases hlt : n < radix
    · rw [Nat.toDigits_of_lt_base hlt, ← List.nil_append [n.digitChar], digitsValue?_concat,
        hexValue?_digitChar (by omega)]
      simp [digitsValue?, hlt]
    · have hmod := Nat.mod_lt n (show 0 < radix by omega)
      rw [Nat.toDigits_of_base_le hpos (by omega), digitsValue?_concat,
        ih (n / radix) (Nat.div_lt_self (by omega) hpos), hexValue?_digitChar (by omega)]
      simp [hmod, Nat.div_add_mod']

theorem digitsValue?_lt {n : Nat} (h : digitsValue? radix cs = some n) : n < radix ^ cs.length := by
  induction cs using List.reverseRecOn generalizing n with
  | nil =>
    obtain rfl : 0 = n := by simpa [digitsValue?] using h
    simp
  | append_singleton cs c ih =>
    simp only [digitsValue?_concat, Option.bind_eq_some_iff, Option.ite_none_right_eq_some,
      Option.some.injEq] at h
    obtain ⟨m, hm, d, -, hd, rfl⟩ := h
    have hlt := ih hm
    rw [List.length_append, List.length_singleton, Nat.pow_succ]
    calc m * radix + d < m * radix + radix := by omega
      _ = (m + 1) * radix := by rw [Nat.add_mul, Nat.one_mul]
      _ ≤ radix ^ cs.length * radix := Nat.mul_le_mul_right _ hlt

end

/-! ### Four bytes -/

/-- The labels of an address of four bytes. -/
def ipv4Labels (address : Nat) : List (List Char) :=
  (List.range 4).map fun i => Nat.toDigits 10 (address / Nat.pow 256 (3 - i) % 256)

theorem toList_ipv4Text (address : Nat) :
    (ipv4Text address).toList = ['.'].intercalate (ipv4Labels address) := by
  rw [ipv4Text, String.toList_intercalate, List.map_map]
  congr 1
  exact List.map_congr_left fun i _ => by simp

theorem isDigit_of_mem_ipv4Labels {address : Nat} {label : List Char} {c : Char}
    (h : label ∈ ipv4Labels address) (hc : c ∈ label) : c.isDigit = true := by
  obtain ⟨i, -, rfl⟩ := List.mem_map.mp h
  exact Nat.isDigit_of_mem_toDigits (by decide) (by decide) hc

theorem splitOn_ipv4Text (address : Nat) :
    splitOn '.' (ipv4Text address).toList = ipv4Labels address := by
  rw [toList_ipv4Text]
  refine splitOn_intercalate (List.cons_ne_nil _ _) fun label hlabel hdot => ?_
  cases isDigit_of_mem_ipv4Labels hlabel hdot

theorem ipv4Number?_toDigits {n : Nat} (h : n < 256) :
    ipv4Number? (Nat.toDigits 10 n) = some n := by
  have hall : ∀ n < 256, ipv4Number? (Nat.toDigits 10 n) = some n := by decide +kernel
  exact hall n h

/-- The labels without the empty one after a dot at the end. -/
def numberLabels (domain : List Char) : List (List Char) :=
  if (splitOn '.' domain).getLast? = some [] then (splitOn '.' domain).dropLast
  else splitOn '.' domain

/-- What the numbers of the labels come to. -/
def numbersValue? (numbers : List Nat) : Option Nat :=
  numbers.getLast?.bind fun last =>
    if Nat.pow 256 (4 - numbers.dropLast.length) ≤ last || numbers.dropLast.any (255 < ·) then none
    else some (numbers.dropLast.zipIdx.foldl (fun acc (n, i) => acc + n * Nat.pow 256 (3 - i)) last)

theorem ipv4?_eq (domain : List Char) : ipv4? domain =
    if 4 < (numberLabels domain).length then none
    else ((numberLabels domain).mapM ipv4Number?).bind numbersValue? := by
  simp only [ipv4?, Option.bind_eq_bind]
  change (if 4 < (numberLabels domain).length then none.bind _
    else ((numberLabels domain).mapM ipv4Number?).bind _) = _
  by_cases hlong : 4 < (numberLabels domain).length
  · rw [if_pos hlong, if_pos hlong]
    rfl
  · rw [if_neg hlong, if_neg hlong]
    refine congrArg _ (funext fun numbers => congrArg _ (funext fun last => ?_))
    split_ifs <;> rfl

theorem foldl_places_add (places : List (Nat × Nat)) (x y : Nat) :
    places.foldl (fun acc (n, i) => acc + n * Nat.pow 256 (3 - i)) (x + y) =
      places.foldl (fun acc (n, i) => acc + n * Nat.pow 256 (3 - i)) x + y := by
  induction places generalizing x with
  | nil => rfl
  | cons place places ih =>
    rw [List.foldl_cons, List.foldl_cons, ← ih]
    congr 1
    exact Nat.add_right_comm ..

/-- Bytes at the upper places, and a number that fits below them. -/
theorem foldl_places_lt {first : List Nat} {i last : Nat} (hbytes : ∀ n ∈ first, n ≤ 255)
    (hlength : i + first.length ≤ 4) (hlast : last < Nat.pow 256 (4 - (i + first.length))) :
    (first.zipIdx i).foldl (fun acc (n, i) => acc + n * Nat.pow 256 (3 - i)) last <
      Nat.pow 256 (4 - i) := by
  induction first generalizing i with
  | nil => exact hlast
  | cons n first ih =>
    have ⟨hn, hfirst⟩ := List.forall_mem_cons.mp hbytes
    rw [List.length_cons] at hlength hlast
    have hrest := ih hfirst (i := i + 1) (by omega) (by convert hlast using 3; omega)
    have hplace : 4 - i = (3 - i) + 1 := by omega
    have hbelow : 4 - (i + 1) = 3 - i := by omega
    rw [hbelow] at hrest
    rw [List.zipIdx_cons, List.foldl_cons, foldl_places_add, hplace]
    calc _ < Nat.pow 256 (3 - i) + n * Nat.pow 256 (3 - i) := Nat.add_lt_add_right hrest _
      _ ≤ Nat.pow 256 (3 - i) + 255 * Nat.pow 256 (3 - i) :=
        Nat.add_le_add_left (Nat.mul_le_mul_right _ hn) _
      _ = Nat.pow 256 ((3 - i) + 1) := by
        rw [Nat.pow_eq, Nat.pow_eq, Nat.pow_succ]
        omega

theorem numbersValue?_lt {numbers : List Nat} {address : Nat} (hlength : numbers.length ≤ 4)
    (h : numbersValue? numbers = some address) : address < 0x100000000 := by
  obtain ⟨last, hlast, h⟩ := Option.bind_eq_some_iff.mp h
  split_ifs at h with hlarge
  obtain rfl := Option.some.inj h
  have hfirst := List.dropLast_append_getLast? last hlast
  rw [← hfirst, List.length_append, List.length_singleton] at hlength
  simp only [Bool.or_eq_true, decide_eq_true_eq, List.any_eq_true, not_or, not_exists, not_and,
    not_lt, not_le] at hlarge
  obtain ⟨hrest, hbytes⟩ := hlarge
  exact foldl_places_lt (i := 0) hbytes (by omega) (by rwa [Nat.zero_add])

theorem ipv4?_lt {domain : List Char} {address : Nat} (h : ipv4? domain = some address) :
    address < 0x100000000 := by
  rw [ipv4?_eq] at h
  split_ifs at h with hlong
  obtain ⟨numbers, hnumbers, hvalue⟩ := Option.bind_eq_some_iff.mp h
  refine numbersValue?_lt ?_ hvalue
  rw [← (Option.mapM_eq_some.mp hnumbers).length_eq]
  omega

theorem ipv4?_ipv4Text {address : Nat} (h : address < 0x100000000) :
    ipv4? (ipv4Text address).toList = some address := by
  have hlabels : numberLabels (ipv4Text address).toList = ipv4Labels address := by
    rw [numberLabels, splitOn_ipv4Text, if_neg]
    simp [ipv4Labels, List.range_succ]
  have hnumbers : (ipv4Labels address).mapM ipv4Number? =
      some ((List.range 4).map fun i => address / Nat.pow 256 (3 - i) % 256) := by
    rw [Option.mapM_eq_some, ipv4Labels, List.forall₂_map_left_iff, List.forall₂_map_right_iff,
      List.forall₂_same]
    exact fun i _ => ipv4Number?_toDigits (Nat.mod_lt _ (by decide))
  rw [ipv4?_eq, hlabels, if_neg (by simp [ipv4Labels]), hnumbers]
  simp [numbersValue?, List.range_succ]
  omega

theorem endsInNumber_ipv4Text (address : Nat) : endsInNumber (ipv4Text address).toList = true := by
  obtain ⟨c, cs, hlast⟩ := List.exists_cons_of_ne_nil
    (Nat.toDigits_ne_nil (n := address % 256) (b := 10))
  have hreverse : (splitOn '.' (ipv4Text address).toList).reverse =
      (c :: cs) :: (ipv4Labels address).reverse.tail := by
    rw [splitOn_ipv4Text, ← hlast]
    simp [ipv4Labels, List.range_succ]
  have hdigits : ((c :: cs).all fun c => '0' ≤ c && c ≤ '9') = true := by
    rw [← hlast, List.all_eq_true]
    intro d hd
    exact Nat.isDigit_of_mem_toDigits (by decide) (by decide) hd
  rw [endsInNumber, hreverse]
  simp only [hdigits, ne_eq, reduceCtorEq, not_false_eq_true, decide_true, Bool.and_self,
    Bool.true_or]

/-! ### Eight pieces -/

/-- Eight numbers of two bytes. -/
structure IsIpv6 (pieces : List Nat) : Prop where
  length : pieces.length = 8
  lt : ∀ n ∈ pieces, n < 0x10000

section
variable {cs : List Char} {pieces : List Nat}

theorem embeddedIpv4?_lt (h : embeddedIpv4? cs = some pieces) : ∀ n ∈ pieces, n < 0x10000 := by
  simp only [embeddedIpv4?, Option.bind_eq_bind, Option.bind_eq_some_iff] at h
  obtain ⟨numbers, hnumbers, h⟩ := h
  have hbytes : ∀ n ∈ numbers, n ≤ 255 := by
    refine ((List.forall₂_and_left ..).mp ((Option.mapM_eq_some.mp hnumbers).flip.imp
      fun n label hlabel => ⟨?_, hlabel⟩)).1
    split_ifs at hlabel
    · cases hlabel
    · obtain ⟨m, -, hm⟩ := Option.bind_eq_some_iff.mp hlabel
      split_ifs at hm with hlarge
      obtain rfl := Option.some.inj hm
      exact not_lt.mp hlarge
  match numbers, hbytes with
  | [a, b, c, d], hbytes =>
    obtain rfl := Option.some.inj h
    simp only [List.forall_mem_cons] at hbytes ⊢
    exact ⟨by omega, by omega, List.forall_mem_nil _⟩

theorem ipv6Piece?_lt {n : Nat} (h : ipv6Piece? cs = some n) : n < 0x10000 := by
  rw [ipv6Piece?] at h
  split_ifs at h with hlength
  simp only [Bool.or_eq_true, decide_eq_true_eq, not_or, not_lt] at hlength
  calc n < 16 ^ cs.length := digitsValue?_lt h
    _ ≤ 16 ^ 4 := Nat.pow_le_pow_right (by decide) hlength.2

theorem ipv6Pieces?_lt : ∀ {labels : List (List Char)} {pieces : List Nat},
    ipv6Pieces? labels = some pieces → ∀ n ∈ pieces, n < 0x10000
  | [], _, h => by
    obtain rfl := Option.some.inj h
    exact List.forall_mem_nil _
  | [label], pieces, h => by
    rw [ipv6Pieces?] at h
    split_ifs at h
    · exact embeddedIpv4?_lt h
    · obtain ⟨n, hn, rfl⟩ := Option.map_eq_some_iff.mp h
      exact List.forall_mem_singleton.mpr (ipv6Piece?_lt hn)
  | label :: next :: labels, pieces, h => by
    simp only [ipv6Pieces?, Option.bind_eq_bind, Option.bind_eq_some_iff, Option.pure_def,
      Option.some.injEq] at h
    obtain ⟨n, hn, rest, hrest, rfl⟩ := h
    exact List.forall_mem_cons.mpr ⟨ipv6Piece?_lt hn, ipv6Pieces?_lt hrest⟩

theorem sidePieces?_lt (h : sidePieces? cs = some pieces) : ∀ n ∈ pieces, n < 0x10000 := by
  rw [sidePieces?] at h
  split_ifs at h
  · obtain rfl := Option.some.inj h
    exact List.forall_mem_nil _
  · exact ipv6Pieces?_lt h

theorem of_ipv6? (h : ipv6? cs = some pieces) : IsIpv6 pieces := by
  rw [ipv6?] at h
  cases hgap : splitAtGap cs with
  | none =>
    simp only [hgap, Option.bind_eq_bind, Option.bind_eq_some_iff, Option.ite_none_right_eq_some,
      Option.some.injEq] at h
    obtain ⟨_, hpieces, hlength, rfl⟩ := h
    exact ⟨hlength, sidePieces?_lt hpieces⟩
  | some sides =>
    obtain ⟨before, after⟩ := sides
    simp only [hgap, Option.bind_eq_bind] at h
    split_ifs at h with hdot
    · cases h
    obtain ⟨a, ha, h⟩ := Option.bind_eq_some_iff.mp h
    obtain ⟨b, hb, h⟩ := Option.bind_eq_some_iff.mp h
    split_ifs at h with hlength
    · cases h
    obtain rfl := Option.some.inj h
    refine ⟨?_, fun n hn => ?_⟩
    · simp
      omega
    · rcases List.mem_append.mp hn with hn | hn
      · rcases List.mem_append.mp hn with hn | hn
        · exact sidePieces?_lt ha n hn
        · rw [List.eq_of_mem_replicate hn]
          decide
      · exact sidePieces?_lt hb n hn

end

/-! ### Pieces between colons -/

/-- The character is a digit of a piece. -/
def IsPieceDigit (c : Char) : Prop := ∃ d < 16, c = Nat.digitChar d

theorem isPieceDigit_of_mem {n : Nat} {c : Char} (h : c ∈ Nat.toDigits 16 n) : IsPieceDigit c :=
  exists_digitChar_of_mem_toDigits (by decide) h

theorem IsPieceDigit.ne {c d : Char} (h : IsPieceDigit c)
    (hd : ∀ n < 16, Nat.digitChar n ≠ d) : c ≠ d := by
  obtain ⟨n, hn, rfl⟩ := h
  exact hd n hn

/-- The pieces with colons between them. -/
def pieceChars (pieces : List Nat) : List Char := [':'].intercalate (pieces.map (Nat.toDigits 16))

theorem toList_piecesText (pieces : List Nat) : (piecesText pieces).toList = pieceChars pieces := by
  rw [piecesText, String.toList_intercalate, List.map_map]
  refine congrArg _ (List.map_congr_left fun n _ => ?_)
  exact String.toList_ofList

section
variable {pieces : List Nat} {c : Char} {cs : List Char}

theorem of_mem_pieceChars (h : c ∈ pieceChars pieces) : c = ':' ∨ IsPieceDigit c := by
  refine (mem_intercalate h).imp_right ?_
  rintro ⟨label, hlabel, hc⟩
  obtain ⟨n, -, rfl⟩ := List.mem_map.mp hlabel
  exact isPieceDigit_of_mem hc

theorem pieceChars_cons_cons (m n : Nat) (pieces : List Nat) : pieceChars (m :: n :: pieces) =
    Nat.toDigits 16 m ++ ':' :: pieceChars (n :: pieces) := by
  simp [pieceChars, List.intercalate_cons_cons]

theorem exists_pieceChars_cons (n : Nat) (pieces : List Nat) : ∃ c cs,
    pieceChars (n :: pieces) = c :: cs ∧ c ≠ ':' := by
  obtain ⟨c, cs, hdigits⟩ := List.exists_cons_of_ne_nil (Nat.toDigits_ne_nil (n := n) (b := 16))
  have hc : c ≠ ':' :=
    (isPieceDigit_of_mem (hdigits ▸ List.mem_cons_self : c ∈ Nat.toDigits 16 n)).ne (by decide)
  cases pieces with
  | nil => exact ⟨c, cs, by simp [pieceChars, hdigits], hc⟩
  | cons m pieces => exact ⟨c, _, by rw [pieceChars_cons_cons, hdigits, List.cons_append], hc⟩

theorem splitAtGap_cons (h : c ≠ ':' ∨ cs.head? ≠ some ':') :
    splitAtGap (c :: cs) = (splitAtGap cs).map fun (a, b) => (c :: a, b) := by
  rw [splitAtGap]
  rintro rest rfl rfl
  simp at h

theorem splitAtGap_append_cons {digits : List Char} (h : ∀ c ∈ digits, c ≠ ':') :
    splitAtGap (digits ++ cs) = (splitAtGap cs).map fun (a, b) => (digits ++ a, b) := by
  induction digits with
  | nil => simp
  | cons c digits ih =>
    have ⟨hc, hdigits⟩ := List.forall_mem_cons.mp h
    rw [List.cons_append, splitAtGap_cons (.inl hc), ih hdigits, Option.map_map]
    rfl

/-- Between pieces there is no gap, and after them the next one is found. -/
theorem splitAtGap_pieceChars (rest : List Char) : ∀ pieces,
    splitAtGap (pieceChars pieces ++ rest) =
      (splitAtGap rest).map fun (a, b) => (pieceChars pieces ++ a, b)
  | [] => by simp [pieceChars]
  | [n] => by
    rw [pieceChars, List.map_singleton, List.intercalate_singleton]
    exact splitAtGap_append_cons fun c hc => (isPieceDigit_of_mem hc).ne (by decide)
  | m :: n :: pieces => by
    have hdigits : ∀ c ∈ Nat.toDigits 16 m, c ≠ ':' :=
      fun c hc => (isPieceDigit_of_mem hc).ne (by decide)
    obtain ⟨c, cs, hnext, hc⟩ := exists_pieceChars_cons n pieces
    have hhead : (pieceChars (n :: pieces) ++ rest).head? ≠ some ':' := by simpa [hnext] using hc
    rw [pieceChars_cons_cons, List.append_assoc, List.cons_append, splitAtGap_append_cons hdigits,
      splitAtGap_cons (.inr hhead), splitAtGap_pieceChars rest, Option.map_map, Option.map_map]
    refine congrArg (Option.map · _) (funext fun sides => ?_)
    simp [List.append_assoc]

theorem ipv6Piece?_toDigits {n : Nat} (h : n < 0x10000) :
    ipv6Piece? (Nat.toDigits 16 n) = some n := by
  have hlength : (Nat.toDigits 16 n).length ≤ 4 :=
    (Nat.length_toDigits_le_iff (by decide) (by decide)).mpr h
  rw [ipv6Piece?, if_neg, digitsValue?_toDigits (by decide) le_rfl]
  simp [Nat.toDigits_ne_nil, hlength]

theorem ipv6Pieces?_map_toDigits : ∀ {pieces : List Nat}, (∀ n ∈ pieces, n < 0x10000) →
    ipv6Pieces? (pieces.map (Nat.toDigits 16)) = some pieces
  | [], _ => rfl
  | [n], h => by
    have hdot : '.' ∉ Nat.toDigits 16 n :=
      fun hmem => (isPieceDigit_of_mem hmem).ne (by decide) rfl
    rw [List.map_singleton, ipv6Pieces?, if_neg (by simpa using hdot),
      ipv6Piece?_toDigits (h n List.mem_cons_self)]
    rfl
  | m :: n :: pieces, h => by
    have ⟨hm, hrest⟩ := List.forall_mem_cons.mp h
    have ih := ipv6Pieces?_map_toDigits hrest
    rw [List.map_cons] at ih
    rw [List.map_cons, List.map_cons, ipv6Pieces?, ipv6Piece?_toDigits hm, ih]
    · rfl
    · exact List.cons_ne_nil _ _

theorem sidePieces?_pieceChars (h : ∀ n ∈ pieces, n < 0x10000) :
    sidePieces? (pieceChars pieces) = some pieces := by
  cases pieces with
  | nil => rfl
  | cons n pieces =>
    obtain ⟨c, cs, hchars, -⟩ := exists_pieceChars_cons n pieces
    rw [sidePieces?, if_neg (by simp [hchars]), pieceChars, splitOn_intercalate (by simp),
      ipv6Pieces?_map_toDigits h]
    intro label hlabel hcolon
    obtain ⟨m, -, rfl⟩ := List.mem_map.mp hlabel
    exact (isPieceDigit_of_mem hcolon).ne (by decide) rfl

/-! ### The longest run of zeros -/

/-- A run of at least two zeros. -/
structure IsZeroRun (pieces : List Nat) (i n : Nat) : Prop where
  two_le : 2 ≤ n
  eq_zeroRun : n = zeroRun (pieces.drop i)

theorem isZeroRun_longerZeros {best : Option (Nat × Nat)} {place i n : Nat}
    (hbest : ∀ i n, best = some (i, n) → IsZeroRun pieces i n)
    (h : longerZeros pieces best place = some (i, n)) : IsZeroRun pieces i n := by
  cases best with
  | none =>
    simp only [longerZeros] at h
    split_ifs at h with htwo
    obtain ⟨rfl, rfl⟩ := Prod.mk.inj (Option.some.inj h)
    exact ⟨htwo, rfl⟩
  | some before =>
    obtain ⟨j, m⟩ := before
    have hm := (hbest j m rfl).two_le
    simp only [longerZeros] at h
    split_ifs at h with hlonger
    · obtain ⟨rfl, rfl⟩ := Prod.mk.inj (Option.some.inj h)
      exact ⟨by omega, rfl⟩
    · exact hbest i n h

theorem isZeroRun_longestZeros {i n : Nat} (h : longestZeros pieces = some (i, n)) :
    IsZeroRun pieces i n := by
  have hfold : ∀ (places : List Nat) (best : Option (Nat × Nat)),
      (∀ i n, best = some (i, n) → IsZeroRun pieces i n) →
      ∀ i n, places.foldl (longerZeros pieces) best = some (i, n) → IsZeroRun pieces i n := by
    intro places
    induction places with
    | nil => exact fun _ hbest => hbest
    | cons place places ih =>
      exact fun best hbest => ih _ fun i n hnext => isZeroRun_longerZeros hbest hnext
  exact hfold _ none nofun i n h

theorem IsZeroRun.eq_append {i n : Nat} (h : IsZeroRun pieces i n) :
    pieces = pieces.take i ++ List.replicate n 0 ++ pieces.drop (i + n) := by
  have hrun : (pieces.drop i).takeWhile (· = 0) = List.replicate n 0 := by
    rw [List.eq_replicate_iff, h.eq_zeroRun]
    exact ⟨rfl, fun k hk => by simpa using List.mem_takeWhile_imp hk⟩
  have hsplit : pieces.drop i = List.replicate n 0 ++ (pieces.drop i).dropWhile (· = 0) := by
    rw [← hrun, List.takeWhile_append_dropWhile]
  have hrest : pieces.drop (i + n) = (pieces.drop i).dropWhile (· = 0) := by
    rw [← List.drop_drop]
    conv_lhs => rw [hsplit]
    exact List.drop_left' (List.length_replicate ..)
  rw [List.append_assoc, hrest, ← hsplit, List.take_append_drop]

/-- Pieces with a gap for the zeros between them. -/
theorem ipv6?_gap {before after : List Nat} {n : Nat} (hbefore : ∀ m ∈ before, m < 0x10000)
    (hafter : ∀ m ∈ after, m < 0x10000) (hlength : before.length + n + after.length = 8)
    (hn : 2 ≤ n) : ipv6? (pieceChars before ++ ':' :: ':' :: pieceChars after) =
      some (before ++ List.replicate n 0 ++ after) := by
  have hgap : splitAtGap (pieceChars before ++ ':' :: ':' :: pieceChars after) =
      some (pieceChars before, pieceChars after) := by
    rw [splitAtGap_pieceChars]
    simp [splitAtGap]
  have hdot : ¬(pieceChars before).contains '.' = true := by
    rw [List.contains_iff_mem]
    intro hmem
    rcases of_mem_pieceChars hmem with he | hdigit
    · cases he
    · exact hdigit.ne (by decide) rfl
  have hfit : ¬7 < before.length + after.length := by omega
  have hzeros : 8 - before.length - after.length = n := by omega
  simp only [ipv6?, hgap, if_neg hdot, sidePieces?_pieceChars hbefore,
    sidePieces?_pieceChars hafter, Option.bind_eq_bind, Option.bind_some, if_neg hfit, hzeros]
  rfl

theorem ipv6?_ipv6Text (h : IsIpv6 pieces) : ipv6? (ipv6Text pieces).toList = some pieces := by
  rw [ipv6Text]
  cases hlongest : longestZeros pieces with
  | none =>
    have hgap : splitAtGap (pieceChars pieces) = none := by
      simpa [splitAtGap] using splitAtGap_pieceChars [] pieces
    simp only [toList_piecesText, ipv6?, hgap, sidePieces?_pieceChars h.lt, Option.bind_eq_bind,
      Option.bind_some, h.length, if_true]
  | some run =>
    obtain ⟨i, n⟩ := run
    have hrun := isZeroRun_longestZeros hlongest
    have hpieces := hrun.eq_append
    have hlength : (pieces.take i).length + n + (pieces.drop (i + n)).length = 8 := by
      rw [← h.length]
      conv_rhs => rw [hpieces]
      simp only [List.length_append, List.length_replicate]
    have htext : (piecesText (pieces.take i) ++ "::" ++ piecesText (pieces.drop (i + n))).toList =
        pieceChars (pieces.take i) ++ ':' :: ':' :: pieceChars (pieces.drop (i + n)) := by
      simp [toList_piecesText]
    simp only [htext]
    rw [ipv6?_gap (fun m hm => h.lt m (List.mem_of_mem_take hm))
      (fun m hm => h.lt m (List.mem_of_mem_drop hm)) hlength hrun.two_le, ← hpieces]

theorem of_mem_ipv6Text (h : c ∈ (ipv6Text pieces).toList) : c = ':' ∨ IsPieceDigit c := by
  rw [ipv6Text] at h
  split at h
  · rw [String.toList_append, String.toList_append, toList_piecesText, toList_piecesText,
      List.mem_append, List.mem_append] at h
    rcases h with (h | h) | h
    · exact of_mem_pieceChars h
    · exact .inl (by simpa using h)
    · exact of_mem_pieceChars h
  · exact of_mem_pieceChars (toList_piecesText _ ▸ h)

end

end ForcingData.Url
