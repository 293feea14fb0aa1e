import ForcingData.Proofs.Url.Address
import ForcingData.Url.Basic

/-! # Hosts, twice

A host that was read, written and read again is the same host (`Host.isNormal_of_parse?`), whatever
the kind of host, and although it may have been given in many ways. -/

namespace ForcingData.Url
open Text

/-- What a host is written with. -/
structure IsHostChar (c : Char) : Prop where
  visible : 0x20 < c.toNat ∧ c.toNat < 0x7f
  inside : endsAuthority true c = false
  ne_sign : c ≠ '@'

/-- A host that is read as itself, up to a colon after it. -/
structure Host.IsNormal (h : Host) : Prop where
  parse? : Host.parse? h.text.toList = .ok h
  splitHost : ∀ rest, (∀ c ∈ rest.head?, c = ':') →
    splitHost false (h.text.toList ++ rest) = (h.text.toList, rest)
  ne_nil : h.text.toList ≠ []
  chars : ∀ c ∈ h.text.toList, IsHostChar c

section
variable {cs rest name : List Char}

theorem splitHost_nil (inside : Bool) (h : ∀ c ∈ rest.head?, c = ':') (hinside : inside = false) :
    splitHost inside rest = ([], rest) := by
  cases rest with
  | nil => rfl
  | cons c rest =>
    obtain rfl := h c rfl
    simp [splitHost, hinside]

theorem splitHost_append (h : ∀ c ∈ cs, c ≠ ':' ∧ c ≠ '[') (hrest : ∀ c ∈ rest.head?, c = ':') :
    splitHost false (cs ++ rest) = (cs, rest) := by
  induction cs with
  | nil => exact splitHost_nil false hrest rfl
  | cons c cs ih =>
    have ⟨⟨hcolon, hbracket⟩, hcs⟩ := List.forall_mem_cons.mp h
    simp [splitHost, hcolon, hbracket, ih hcs]

theorem splitHost_brackets (h : ∀ c ∈ cs, c ≠ ']') (hrest : ∀ c ∈ rest.head?, c = ':') :
    splitHost false ('[' :: cs ++ ']' :: rest) = ('[' :: cs ++ [']'], rest) := by
  have hinside : ∀ {cs : List Char}, (∀ c ∈ cs, c ≠ ']') →
      splitHost true (cs ++ ']' :: rest) = (cs ++ [']'], rest) := by
    intro cs h
    induction cs with
    | nil => simp [splitHost, splitHost_nil false hrest]
    | cons c cs ih =>
      have ⟨hc, hcs⟩ := List.forall_mem_cons.mp h
      simp [splitHost, hc, ih hcs]
  have hfirst := hinside h
  simp [splitHost, hfirst]

theorem Host.parse?_brackets {pieces : List Nat} (h : ipv6? cs = some pieces) :
    Host.parse? ('[' :: cs ++ [']']) = .ok (.ipv6 pieces) := by
  simp [Host.parse?, h]

theorem Host.parse?_name (h : cs.head? ≠ some '[') : Host.parse? cs =
    match (textOfBytes? (percentDecode cs)).bind fun s => domain? s.toList with
    | none => .error .invalidDomain
    | some [] => .error .emptyHost
    | some name =>
      if endsInNumber name then
        match ipv4? name with
        | some address => .ok (.ipv4 address)
        | none => .error .invalidIpv4
      else .ok (.domain (String.ofList name)) := by
  unfold Host.parse?
  split
  · simp at h
  · rfl

/-- A name that stands for itself as a domain name. -/
theorem Host.parse?_of_domain? (h : domain? name = some name) (hne : name ≠ [])
    (hallowed : ∀ c ∈ name, c ≠ '%' ∧ c ≠ '[') : Host.parse? name =
      if endsInNumber name then
        match ipv4? name with
        | some address => .ok (.ipv4 address)
        | none => .error .invalidIpv4
      else .ok (.domain (String.ofList name)) := by
  have hhead : name.head? ≠ some '[' :=
    fun he => (hallowed '[' (List.mem_of_mem_head? he)).2 rfl
  have hsign : '%' ∉ name := fun hmem => (hallowed '%' hmem).1 rfl
  rw [Host.parse?_name hhead, textOfBytes?_percentDecode hsign, Option.bind_some,
    String.toList_ofList, h]
  obtain ⟨c, cs, rfl⟩ := List.exists_cons_of_ne_nil hne
  rfl

theorem isHostChar_of_allowed {c : Char} (h : c.toNat < 0x80 ∧ forbiddenInDomain c = false) :
    IsHostChar c ∧ (c ≠ ':' ∧ c ≠ '[') ∧ c ≠ '%' := by
  have hall : ∀ n < 0x80, forbiddenInDomain (Char.ofNat n) = false →
      ((0x20 < n ∧ n < 0x7f) ∧ endsAuthority true (Char.ofNat n) = false ∧ Char.ofNat n ≠ '@') ∧
        (Char.ofNat n ≠ ':' ∧ Char.ofNat n ≠ '[') ∧ Char.ofNat n ≠ '%' := by decide +kernel
  have hc := hall c.toNat h.1
  rw [Char.ofNat_toNat] at hc
  obtain ⟨⟨hvisible, hinside, hsign⟩, hothers⟩ := hc h.2
  exact ⟨⟨hvisible, hinside, hsign⟩, hothers⟩

/-- What is read as a name, and stands for itself as a domain name, is a host. -/
theorem Host.IsNormal.of_name {h : Host} (htext : h.text.toList = name) (hne : name ≠ [])
    (hchars : ∀ c ∈ name, c.toNat < 0x80 ∧ forbiddenInDomain c = false)
    (hparse : Host.parse? name = .ok h) : h.IsNormal where
  parse? := htext ▸ hparse
  splitHost _ hrest := htext ▸
    splitHost_append (fun c hc => (isHostChar_of_allowed (hchars c hc)).2.1) hrest
  ne_nil := htext ▸ hne
  chars c hc := (isHostChar_of_allowed (hchars c (htext ▸ hc))).1

theorem Host.isNormal_domain (hname : domain? name = some name) (hne : name ≠ [])
    (hchars : ∀ c ∈ name, c.toNat < 0x80 ∧ forbiddenInDomain c = false)
    (hnumber : endsInNumber name = false) : (Host.domain (String.ofList name)).IsNormal := by
  refine .of_name String.toList_ofList hne hchars ?_
  rw [Host.parse?_of_domain? hname hne fun c hc => ?_, hnumber]
  · rfl
  · have hc := isHostChar_of_allowed (hchars c hc)
    exact ⟨hc.2.2, hc.2.1.2⟩

theorem isLabelChar_of_isDecimal {c : Char} (h : c.isDigit = true) :
    IsLabelChar c ∧ forbiddenInDomain c = false := by
  have hall : ∀ n < 0x80, (Char.ofNat n).isDigit = true →
      domainChars (Char.ofNat n) = [Char.ofNat n] ∧ Char.ofNat n ≠ '.' ∧
        forbiddenInDomain (Char.ofNat n) = false := by decide +kernel
  have hascii : c.toNat < 0x80 := by
    have hle : c ≤ '9' := of_decide_eq_true (Bool.and_eq_true_iff.mp h).2
    exact Nat.lt_of_le_of_lt hle (by decide)
  have hc := hall c.toNat hascii
  rw [Char.ofNat_toNat] at hc
  obtain ⟨hlower, hdot, hallowed⟩ := hc h
  exact ⟨⟨hascii, hlower, hdot⟩, hallowed⟩

theorem label?_of_isDecimal {label : List Char} (h : ∀ c ∈ label, c.isDigit = true) :
    label? label = some label := by
  rw [label?, if_neg, if_pos]
  · exact List.all_eq_true.mpr fun c hc => by
      simpa using (isLabelChar_of_isDecimal (h c hc)).1.ascii
  · intro hfront
    obtain ⟨rest, hrest⟩ :=
      List.isPrefixOf_iff_prefix.mp (Bool.and_eq_true_iff.mp hfront).1
    cases h 'x' (hrest ▸ by simp)

theorem Host.isNormal_ipv4 {address : Nat} (h : address < 0x100000000) :
    (Host.ipv4 address).IsNormal := by
  have hchars : ∀ c ∈ (ipv4Text address).toList,
      c.toNat < 0x80 ∧ forbiddenInDomain c = false := by
    intro c hc
    rw [toList_ipv4Text] at hc
    rcases mem_intercalate hc with rfl | ⟨label, hlabel, hc⟩
    · decide
    · have hdigit := isLabelChar_of_isDecimal (isDigit_of_mem_ipv4Labels hlabel hc)
      exact ⟨hdigit.1.ascii, hdigit.2⟩
  have hname : domain? (ipv4Text address).toList = some (ipv4Text address).toList := by
    rw [toList_ipv4Text] at hchars ⊢
    refine domain?_intercalate (List.cons_ne_nil _ _) (fun label hlabel => ⟨?_, fun c hc => ?_⟩) ?_
    · exact label?_of_isDecimal fun c => isDigit_of_mem_ipv4Labels hlabel
    · exact (isLabelChar_of_isDecimal (isDigit_of_mem_ipv4Labels hlabel hc)).1
    · simpa [List.any_eq_false] using fun c hc => (hchars c hc).2
  have hne : (ipv4Text address).toList ≠ [] := by
    intro he
    have hlabels := splitOn_ipv4Text address
    rw [he] at hlabels
    simp [ipv4Labels, splitOn, List.range_succ] at hlabels
  have hparse : Host.parse? (ipv4Text address).toList = .ok (.ipv4 address) := by
    rw [Host.parse?_of_domain? hname hne fun c hc => ?_,
      if_pos (endsInNumber_ipv4Text address), ipv4?_ipv4Text h]
    have hc := isHostChar_of_allowed (hchars c hc)
    exact ⟨hc.2.2, hc.2.1.2⟩
  exact .of_name rfl hne hchars hparse

theorem Host.isNormal_ipv6 {pieces : List Nat} (h : IsIpv6 pieces) :
    (Host.ipv6 pieces).IsNormal := by
  have htext : (Host.ipv6 pieces).text.toList = '[' :: (ipv6Text pieces).toList ++ [']'] := by
    simp [Host.text]
  have hdigits : ∀ n < 16, (0x20 < (Nat.digitChar n).toNat ∧ (Nat.digitChar n).toNat < 0x7f) ∧
      endsAuthority true (Nat.digitChar n) = false ∧ Nat.digitChar n ≠ '@' := by decide
  refine ⟨?_, fun rest hrest => ?_, by simp [htext], fun c hc => ?_⟩
  · rw [htext, Host.parse?_brackets (ipv6?_ipv6Text h)]
  · rw [htext, List.append_assoc, List.singleton_append, splitHost_brackets (fun c hc => ?_) hrest]
    rcases of_mem_ipv6Text hc with rfl | hdigit
    · decide
    · exact hdigit.ne (by decide)
  · have hall : (0x20 < c.toNat ∧ c.toNat < 0x7f) ∧ endsAuthority true c = false ∧ c ≠ '@' := by
      rw [htext, List.mem_append, List.mem_cons, List.mem_singleton] at hc
      rcases hc with (rfl | hc) | rfl
      · decide
      · rcases of_mem_ipv6Text hc with rfl | ⟨n, hn, rfl⟩
        · decide
        · exact hdigits n hn
      · decide
    exact ⟨hall.1, hall.2.1, hall.2.2⟩

theorem Host.isNormal_of_parse? {h : Host} (hparse : Host.parse? cs = .ok h) : h.IsNormal := by
  unfold Host.parse? at hparse
  split at hparse
  · split_ifs at hparse
    split at hparse
    · rename_i pieces hpieces
      obtain rfl := Except.ok.inj hparse
      exact isNormal_ipv6 (of_ipv6? hpieces)
    · cases hparse
  · split at hparse
    · cases hparse
    · cases hparse
    · rename_i name hne hname
      obtain ⟨s, -, hs⟩ := Option.bind_eq_some_iff.mp hname
      obtain ⟨hsame, hchars⟩ := domain?_of_domain? hs
      split_ifs at hparse with hnumber
      · split at hparse
        · rename_i address haddress
          obtain rfl := Except.ok.inj hparse
          exact isNormal_ipv4 (ipv4?_lt haddress)
        · cases hparse
      · obtain rfl := Except.ok.inj hparse
        refine isNormal_domain hsame (fun he => ?_) hchars (Bool.eq_false_iff.mpr hnumber)
        exact hne (he ▸ rfl)

end

end ForcingData.Url
