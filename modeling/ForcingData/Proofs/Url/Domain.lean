import ForcingData.Proofs.Path
import ForcingData.Proofs.Results
import ForcingData.Proofs.Url.Percent
import ForcingData.Proofs.Url.Punycode
import ForcingData.Url.Host

/-! # Domain names, twice

A domain name in ASCII stands for itself (`domain?_of_domain?`). Its characters are in lower case,
and lower case has no lower case of its own (`isLower_of_mem_domainChars`). A label that was written
in Punycode is read back to the label it was written for, and that one is written the same way again
(`label?_of_label?`). -/

namespace ForcingData.Url
open Text

/-! ### Lower case -/

/-- The character stays as it is in a domain name. -/
def IsLower (c : Char) : Prop := domainChars c = [c]

theorem isLower_toLower {c : Char} (h : c.toNat < 0x80) :
    IsLower c.toLower ∧ c.toLower.toNat < 0x80 := by
  have hall : ∀ n < 0x80, (Char.ofNat n).toLower.toNat < 0x80 ∧
      (Char.ofNat n).toLower.toLower = (Char.ofNat n).toLower := by decide
  have hc := hall c.toNat h
  rw [Char.ofNat_toNat] at hc
  refine ⟨?_, hc.1⟩
  rw [IsLower, domainChars, if_pos hc.1, hc.2]

/-- Every how many code points there is a capital letter, from where to where, and how far away its
lower case is. -/
abbrev Capitals := Nat × Nat × Nat × Int

/-- Is it one of the capital letters? -/
def covers (r : Capitals) (n : Nat) : Bool := r.1 ≤ n && n ≤ r.2.1 && (n - r.1) % r.2.2.1 == 0

/-- The characters beyond ASCII that a domain name treats in a way of its own. -/
def oddRanges : List Capitals :=
  [(0xad, 0xad, 1, 0), (0x200b, 0x200b, 1, 0), (0x2060, 0x2060, 1, 0), (0x3002, 0x3002, 1, 0),
    (0xfeff, 0xfeff, 1, 0), (0xff01, 0xff5e, 1, 0), (0xff61, 0xff61, 1, 0)]

/-- From `first` on, in these steps, only what is between the capital letters is met. -/
def passesBetween (first last step : Nat) (r : Capitals) : Bool :=
  r.1 ≤ first && (first = last || step % r.2.2.1 = 0) && (first - r.1) % r.2.2.1 ≠ 0

/-- No capital letter is met on the way from `first` to `last` in these steps. -/
def misses (first last step : Nat) (r : Capitals) : Bool :=
  Nat.blt last r.1 || Nat.blt r.2.1 first || passesBetween first last step r

theorem covers_eq_false {first last step n : Nat} {r : Capitals}
    (h : misses first last step r = true) (hfirst : first ≤ n) (hlast : n ≤ last)
    (hstep : (n - first) % step = 0) : covers r n = false := by
  obtain ⟨lo, hi, every, delta⟩ := r
  simp only [misses, passesBetween, Bool.or_eq_true, Bool.and_eq_true, Nat.blt_eq,
    decide_eq_true_eq] at h
  rcases h with (hless | hless) | ⟨⟨hlo, hsteps⟩, hbetween⟩
  · simp [covers, show ¬lo ≤ n by omega]
  · simp [covers, show ¬n ≤ hi by omega]
  · have hdvd : every ∣ n - first := by
      rcases hsteps with hsame | hevery
      · exact ⟨0, by omega⟩
      · exact (Nat.dvd_of_mod_eq_zero hevery).trans (Nat.dvd_of_mod_eq_zero hstep)
    have hsum : n - lo = (first - lo) + (n - first) := by omega
    have hmod : (n - lo) % every ≠ 0 := by
      rwa [hsum, Nat.add_mod, Nat.mod_eq_zero_of_dvd hdvd, Nat.add_zero, Nat.mod_mod]
    simp [covers, hmod]

/-- The lower case letters of a row of capitals. -/
def lowerMisses (r r' : Capitals) : Bool :=
  misses (r.1 + r.2.2.2).toNat (r.2.1 + r.2.2.2).toNat r.2.2.1 r'

/-- Lower case letters are no capitals, wide letters apart. -/
theorem lowerMisses_lowercaseRanges : lowercaseRanges.all (fun r =>
    (0xff01 ≤ r.1 && r.2.1 ≤ 0xff5e) || (decide (0 ≤ r.1 + r.2.2.2) &&
      (lowercaseRanges ++ oddRanges).all (lowerMisses r))) = true := by
  decide +kernel

section
variable {c d : Char}

theorem domainChars_of_not_odd (h : 0x80 ≤ c.toNat)
    (hodd : ∀ r ∈ oddRanges, covers r c.toNat = false) : domainChars c = lowerChar c := by
  rw [domainChars, if_neg h.not_gt, if_neg, if_neg, if_neg]
  · simp only [Bool.or_eq_true, decide_eq_true_eq]
    rintro (((rfl | rfl) | rfl) | rfl) <;> exact absurd hodd (by decide)
  · have hwide := hodd (0xff01, 0xff5e, 1, 0) (by decide)
    simpa [covers, Nat.mod_one] using hwide
  · simp only [Bool.or_eq_true, decide_eq_true_eq]
    rintro ((rfl | rfl) | rfl) <;> exact absurd hodd (by decide)

theorem lowerChar_eq : lowerChar c =
    if c.toNat < 0x80 then [c.toLower]
    else if c = '\u0130' then ['i', '\u0307']
    else match lowercaseRanges.find? (covers · c.toNat) with
      | some r => [Char.ofNat (c.toNat + r.2.2.2).toNat]
      | none => [c] := by
  rw [lowerChar]
  split_ifs
  · rfl
  · rfl
  · show (match lowercaseRanges.find? (covers · c.toNat) with
      | some (_, _, _, delta) => [Char.ofNat (c.toNat + delta).toNat]
      | none => [c]) = _
    cases lowercaseRanges.find? (covers · c.toNat) <;> rfl

/-- What is neither a capital letter nor treated in a way of its own stays as it is. -/
theorem isLower_of_covers
    (h : ∀ r ∈ lowercaseRanges ++ oddRanges, covers r d.toNat = false) : IsLower d := by
  have ⟨hletters, hodd⟩ := List.forall_mem_append.mp h
  have hnone : lowercaseRanges.find? (covers · d.toNat) = none := by
    simpa [List.find?_eq_none] using hletters
  rw [IsLower]
  by_cases hascii : d.toNat < 0x80
  · have hcapital : covers (0x41, 0x5a, 1, 32) d.toNat = false := hletters _ (by decide)
    have hall : ∀ n < 0x80, covers (0x41, 0x5a, 1, 32) n = false →
        (Char.ofNat n).toLower = Char.ofNat n := by decide
    have hd := hall d.toNat hascii hcapital
    rw [Char.ofNat_toNat] at hd
    rw [domainChars, if_pos hascii, hd]
  · have hne : d ≠ '\u0130' := by
      rintro rfl
      exact absurd (hletters (0x130, 0x130, 1, -199) (by decide)) (by decide)
    rw [domainChars_of_not_odd (by omega) hodd, lowerChar_eq, if_neg hascii, if_neg hne, hnone]

/-- Lower case letters have no lower case of their own. -/
theorem isLower_ofNat {r : Capitals} {n : Nat} (hr : r ∈ lowercaseRanges)
    (hcovers : covers r n = true) (hwide : ¬(0xff01 ≤ n ∧ n ≤ 0xff5e)) :
    IsLower (Char.ofNat (n + r.2.2.2).toNat) := by
  have hall := List.all_eq_true.mp lowerMisses_lowercaseRanges r hr
  obtain ⟨lo, hi, every, delta⟩ := r
  simp only [covers, Bool.and_eq_true, decide_eq_true_eq, beq_iff_eq] at hcovers
  simp only [Bool.or_eq_true, Bool.and_eq_true, decide_eq_true_eq, List.all_eq_true] at hall
  obtain ⟨⟨hlo, hhi⟩, hevery⟩ := hcovers
  rcases hall with hwide' | ⟨hpos, hmisses⟩
  · omega
  by_cases hvalid : (n + delta).toNat.isValidChar
  · refine isLower_of_covers fun r' hr' => ?_
    have hmiss : misses (lo + delta).toNat (hi + delta).toNat every r' = true := hmisses r' hr'
    have htoNat : (Char.ofNat (n + delta).toNat).toNat = (n + delta).toNat := by
      rw [Char.ofNat, dif_pos hvalid]
      rfl
    rw [htoNat]
    have hdistance : (n + delta).toNat - (lo + delta).toNat = n - lo := by omega
    exact covers_eq_false hmiss (by omega) (by omega) (hdistance ▸ hevery)
  · have hzero : Char.ofNat (n + delta).toNat = '\x00' := by
      rw [Char.ofNat, dif_neg hvalid]
      rfl
    rw [hzero]
    unfold IsLower
    decide

theorem isLower_of_mem_domainChars (h : d ∈ domainChars c) : IsLower d := by
  rw [domainChars] at h
  split_ifs at h with hascii hdot hwide hnothing
  · obtain rfl := List.mem_singleton.mp h
    exact (isLower_toLower hascii).1
  · obtain rfl := List.mem_singleton.mp h
    unfold IsLower
    decide
  · have hd : d = (Char.ofNat (c.toNat - 0xfee0)).toLower := List.mem_singleton.mp h
    simp only [Bool.and_eq_true, decide_eq_true_eq] at hwide
    have hall : ∀ n < 0x80, (Char.ofNat n).toNat < 0x80 := by decide
    rw [hd]
    exact (isLower_toLower (hall _ (by omega))).1
  · cases h
  · rw [lowerChar_eq, if_neg hascii] at h
    split_ifs at h with hdotted
    · rcases List.mem_pair.mp h with rfl | rfl <;> unfold IsLower <;> decide
    · cases hfind : lowercaseRanges.find? (covers · c.toNat) with
      | some r =>
        have hcovers := List.find?_some hfind
        rw [hfind] at h
        rw [List.mem_singleton.mp h]
        exact isLower_ofNat (List.mem_of_find?_eq_some hfind) hcovers (by simpa using hwide)
      | none =>
        rw [hfind] at h
        rw [List.mem_singleton.mp h, IsLower, domainChars, if_neg hascii, if_neg hdot, if_neg hwide,
          if_neg hnothing, lowerChar_eq, if_neg hascii, if_neg hdotted, hfind]

end

theorem flatMap_domainChars {cs : List Char} (h : ∀ c ∈ cs, IsLower c) :
    cs.flatMap domainChars = cs := by
  induction cs with
  | nil => rfl
  | cons c cs ih =>
    have ⟨hc, hcs⟩ := List.forall_mem_cons.mp h
    rw [List.flatMap_cons, ih hcs, hc, List.singleton_append]

/-! ### Labels -/

/-- What a label of a domain name in ASCII is made of. -/
structure IsLabelChar (c : Char) : Prop where
  ascii : c.toNat < 0x80
  isLower : IsLower c
  ne_dot : c ≠ '.'

theorem isLabelChar_of_isDigit {c : Char} (h : Punycode.IsDigit c) : IsLabelChar c := by
  obtain ⟨d, hd, rfl⟩ := h
  have hall : ∀ d < 36, (Punycode.digitChar d).toNat < 0x80 ∧
      (Punycode.digitChar d).toLower = Punycode.digitChar d ∧ Punycode.digitChar d ≠ '.' := by
    decide
  obtain ⟨hascii, hlower, hdot⟩ := hall d hd
  exact ⟨hascii, by rw [IsLower, domainChars, if_pos hascii, hlower], hdot⟩

section
variable {label out : List Char}

theorem encodedLabel?_eq_some (h : encodedLabel? label = some out) : out = label := by
  rw [encodedLabel?, Option.bind_eq_bind, Option.bind_eq_some_iff] at h
  obtain ⟨decoded, -, h⟩ := h
  split_ifs at h
  exact (Option.some.inj h).symm

/-- The label that a label in Punycode stands for is written as this one. -/
theorem encodedLabel?_encode (hlower : ∀ c ∈ label, IsLower c)
    (hascii : ¬label.all (·.toNat < 0x80) = true)
    (hshown : (label.all isPrintable && !label.head?.any extendsGrapheme) = true) :
    encodedLabel? ("xn--".toList ++ Punycode.encode label) =
      some ("xn--".toList ++ Punycode.encode label) := by
  have hany : label.any (0x80 ≤ ·.toNat) = true := by
    simpa [List.all_eq_true, List.any_eq_true] using hascii
  have hdrop : ("xn--".toList ++ Punycode.encode label).drop 4 = Punycode.encode label := rfl
  rw [encodedLabel?, hdrop, Punycode.decode?_encode]
  simp only [Option.bind_eq_bind, Option.bind_some]
  simp only [Bool.and_eq_true] at hshown
  rw [if_pos]
  simp [hany, flatMap_domainChars hlower, hshown]

theorem isLabelChar_of_mem_encode {c : Char} (hlower : ∀ c ∈ label, IsLower c) (hdot : '.' ∉ label)
    (h : c ∈ Punycode.encode label) : IsLabelChar c := by
  rw [Punycode.encode_eq, List.mem_append, List.mem_append] at h
  rcases h with (h | h) | h
  · obtain ⟨hmem, hascii⟩ := List.mem_filter.mp h
    exact ⟨by simpa using hascii, hlower c hmem, fun he => hdot (he ▸ hmem)⟩
  · split_ifs at h
    · cases h
    · obtain rfl := List.mem_singleton.mp h
      exact ⟨by decide, by unfold IsLower; decide, by decide⟩
  · exact isLabelChar_of_isDigit (Punycode.isDigit_of_mem_digitsOf h)

theorem label?_of_label? (hlower : ∀ c ∈ label, IsLower c) (hdot : '.' ∉ label)
    (h : label? label = some out) : label? out = some out ∧ ∀ c ∈ out, IsLabelChar c := by
  have hkept (hascii : label.all (·.toNat < 0x80) = true) : ∀ c ∈ label, IsLabelChar c :=
    fun c hc => ⟨by simpa using List.all_eq_true.mp hascii c hc, hlower c hc,
      fun he => hdot (he ▸ hc)⟩
  have hsame := h
  rw [label?] at h
  split_ifs at h with hencoded hascii hshown
  · obtain rfl := encodedLabel?_eq_some h
    exact ⟨hsame, hkept (Bool.and_eq_true_iff.mp hencoded).2⟩
  · obtain rfl := Option.some.inj h
    exact ⟨hsame, hkept hascii⟩
  · have hfront : ∀ c ∈ "xn--".toList, IsLabelChar c := by
      have hall : ("xn--".toList.all fun c =>
          c.toNat < 0x80 && domainChars c = [c] && c ≠ '.') = true := by decide +kernel
      intro c hc
      have hchar := List.all_eq_true.mp hall c hc
      simp only [Bool.and_eq_true, decide_eq_true_eq] at hchar
      exact ⟨hchar.1.1, hchar.1.2, hchar.2⟩
    have hchars : ∀ c ∈ "xn--".toList ++ Punycode.encode label, IsLabelChar c :=
      List.forall_mem_append.mpr ⟨hfront, fun c => isLabelChar_of_mem_encode hlower hdot⟩
    rw [← Option.some.inj h]
    refine ⟨?_, hchars⟩
    rw [label?, if_pos, encodedLabel?_encode hlower hascii hshown]
    refine Bool.and_eq_true_iff.mpr ⟨by simp, List.all_eq_true.mpr fun c hc => ?_⟩
    simpa using (hchars c hc).ascii

end

/-! ### Names -/

theorem splitOn_eq_splitChars (sep : Char) (cs : List Char) :
    splitOn sep cs = splitChars (· == sep) cs := by
  induction cs with
  | nil => rfl
  | cons c cs ih =>
    cases hpieces : splitChars (· == sep) cs <;>
      simp only [splitOn, splitChars, ih, hpieces, beq_iff_eq]

theorem splitOn_intercalate {sep : Char} {pieces : List (List Char)} (hne : pieces ≠ [])
    (h : ∀ piece ∈ pieces, sep ∉ piece) : splitOn sep ([sep].intercalate pieces) = pieces := by
  rw [splitOn_eq_splitChars]
  refine Path.splitChars_intercalate (p := (· == sep)) (beq_self_eq_true sep) hne
    fun piece hpiece c hc => ?_
  rw [beq_eq_false_iff_ne]
  rintro rfl
  exact h piece hpiece hc

theorem mem_intercalate {sep c : Char} {pieces : List (List Char)}
    (h : c ∈ [sep].intercalate pieces) : c = sep ∨ ∃ piece ∈ pieces, c ∈ piece := by
  induction pieces with
  | nil => simp at h
  | cons piece pieces ih =>
    cases pieces with
    | nil => exact .inr ⟨piece, by simp, by simpa using h⟩
    | cons next pieces =>
      rw [List.intercalate_cons_cons, List.mem_append, List.mem_append, List.mem_singleton] at h
      rcases h with (h | h) | h
      · exact .inr ⟨piece, by simp, h⟩
      · exact .inl h
      · exact (ih h).imp_right fun ⟨piece', hpiece', hc⟩ => ⟨piece', by simp [hpiece'], hc⟩

section
variable {cs name : List Char}

/-- Labels that stand for themselves make a name that stands for itself. -/
theorem domain?_intercalate {labels : List (List Char)} (hne : labels ≠ [])
    (h : ∀ label ∈ labels, label? label = some label ∧ ∀ c ∈ label, IsLabelChar c)
    (hallowed : ([ '.' ].intercalate labels).any forbiddenInDomain = false) :
    domain? ([ '.' ].intercalate labels) = some ([ '.' ].intercalate labels) := by
  have hdot : ∀ label ∈ labels, '.' ∉ label :=
    fun label hlabel hmem => ((h label hlabel).2 '.' hmem).ne_dot rfl
  have hlower : ∀ c ∈ [ '.' ].intercalate labels, IsLower c := by
    intro c hc
    rcases mem_intercalate hc with rfl | ⟨label, hlabel, hmem⟩
    · unfold IsLower
      decide
    · exact ((h label hlabel).2 c hmem).isLower
  have hlabels : labels.mapM label? = some labels :=
    Option.mapM_eq_some.mpr (List.forall₂_same.mpr fun label hlabel => (h label hlabel).1)
  rw [domain?, flatMap_domainChars hlower, splitOn_intercalate hne hdot, hlabels]
  show (if ([ '.' ].intercalate labels).any forbiddenInDomain then none else _) = _
  rw [hallowed]
  rfl

theorem domain?_of_domain? (h : domain? cs = some name) : domain? name = some name ∧
    ∀ c ∈ name, c.toNat < 0x80 ∧ forbiddenInDomain c = false := by
  rw [domain?, Option.bind_eq_bind, Option.bind_eq_some_iff] at h
  obtain ⟨labels, hlabels, h⟩ := h
  change (if ([ '.' ].intercalate labels).any forbiddenInDomain then none
    else some ([ '.' ].intercalate labels)) = some name at h
  split_ifs at h with hallowed
  obtain rfl := Option.some.inj h
  -- labels are made of pieces in lower case, and each of them stands for itself
  have hpieces : ∀ piece ∈ splitOn '.' (cs.flatMap domainChars),
      (∀ c ∈ piece, IsLower c) ∧ '.' ∉ piece := by
    rw [splitOn_eq_splitChars]
    refine fun piece hpiece => ⟨fun c hc => ?_, fun hdot => ?_⟩
    · obtain ⟨d, -, hd⟩ := List.mem_flatMap.mp (Path.mem_of_mem_splitChars hpiece c hc)
      exact isLower_of_mem_domainChars hd
    · simpa using Path.eq_false_of_mem_splitChars hpiece '.' hdot
  have hall := (List.forall₂_and_left ..).mpr ⟨hpieces, Option.mapM_eq_some.mp hlabels⟩
  have hlabel : ∀ label ∈ labels, label? label = some label ∧ ∀ c ∈ label, IsLabelChar c :=
    ((List.forall₂_and_left ..).mp (hall.flip.imp fun out label h =>
      ⟨label?_of_label? h.1.1 h.1.2 h.2, h⟩)).1
  have hne : labels ≠ [] := by
    rintro rfl
    have hnil := List.forall₂_nil_right_iff.mp hall
    exact splitChars_ne_nil _ _ (splitOn_eq_splitChars .. ▸ hnil)
  refine ⟨domain?_intercalate hne hlabel (Bool.eq_false_iff.mpr hallowed), fun c hc => ⟨?_, ?_⟩⟩
  · rcases mem_intercalate hc with rfl | ⟨label, hmem, hc⟩
    · decide
    · exact ((hlabel label hmem).2 c hc).ascii
  · simpa using List.any_eq_false.mp (Bool.eq_false_iff.mpr hallowed) c hc

end

end ForcingData.Url
