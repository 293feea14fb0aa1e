import ForcingData.Proofs.Results
import ForcingData.Proofs.Runs
import ForcingData.Proofs.Url.Host

/-! # The part before the path, twice

User information, host and port that were read once are written so that they are read as the same
again (`Authority.IsNormal.authority?_text`). -/

namespace ForcingData.Url
open Text

/-! ### User, host and port -/

section
variable {cs before after : List Char} {scheme : String}

theorem splitAtLastSign_of_not_mem (h : '@' ∉ cs) : splitAtLastSign cs = none := by
  rw [splitAtLastSign, if_neg (by simpa using h)]

theorem splitAtLastSign_append (h : '@' ∉ after) :
    splitAtLastSign (before ++ '@' :: after) = some (before, after) := by
  have hafter := reverse_takeWhile_reverse (a := before) h
  have hlength : (before ++ '@' :: after).length - after.length - 1 = before.length := by
    simp
    omega
  rw [splitAtLastSign, if_pos (by simp)]
  simp only [hafter, hlength, List.take_left]

theorem userInfoText_user {user : List Char} (h : IsSpared escapedInUserInfo user)
    (hne : user ≠ []) : userInfoText user = String.ofList (user ++ ['@']) := by
  have hcolon : ∀ c ∈ user, (c != ':') = true := h.bne (by decide)
  have htake : user.takeWhile (· != ':') = user := List.takeWhile_eq_self_iff.mpr hcolon
  have hdrop : user.dropWhile (· != ':') = [] := List.dropWhile_eq_nil_iff.mpr hcolon
  simp [userInfoText, htake, hdrop, percentEncode_of_isSpared h, hne,
    show percentEncode escapedInUserInfo [] = [] from rfl]

theorem userInfoText_password {user password : List Char} (h : IsSpared escapedInUserInfo user)
    (h' : IsSpared escapedInUserInfo password) (hne : password ≠ []) :
    userInfoText (user ++ ':' :: password) = String.ofList (user ++ ':' :: password ++ ['@']) := by
  obtain ⟨htake, hdrop⟩ :=
    run_append (l := ':' :: password) (h.bne (d := ':') (by decide)) (by simp)
  simp [userInfoText, htake, hdrop, percentEncode_of_isSpared h, percentEncode_of_isSpared h', hne]

/-- User name and password that have been escaped, and the sign after them. -/
structure IsUserInfo (info : String) (before : List Char) : Prop where
  toList : info.toList = before ++ ['@']
  again : userInfoText before = info
  ne_nil : before ≠ []
  chars : ∀ c ∈ before, c = ':' ∨ c.toNat < 0x80 ∧ escapedInUserInfo c = false

theorem userInfoText_eq (cs : List Char) :
    userInfoText cs = "" ∨ ∃ before, IsUserInfo (userInfoText cs) before := by
  have huser := isSpared_percentEncode sparesEscapes_userInfo (cs.takeWhile (· != ':'))
  have hpassword :=
    isSpared_percentEncode sparesEscapes_userInfo ((cs.dropWhile (· != ':')).drop 1)
  rw [userInfoText]
  generalize percentEncode escapedInUserInfo (cs.takeWhile (· != ':')) = user at huser ⊢
  generalize percentEncode escapedInUserInfo ((cs.dropWhile (· != ':')).drop 1) = password
    at hpassword ⊢
  split_ifs with hneither hnone
  · exact .inl rfl
  · have hne : user ≠ [] := by
      rintro rfl
      simp [hnone] at hneither
    exact .inr ⟨user, String.toList_ofList, userInfoText_user huser hne, hne,
      fun c hc => .inr (huser c hc)⟩
  · refine .inr ⟨user ++ ':' :: password, String.toList_ofList,
      userInfoText_password huser hpassword hnone, by simp, fun c hc => ?_⟩
    rcases List.mem_append.mp hc with hc | hc
    · exact .inr (huser c hc)
    · rcases List.mem_cons.mp hc with rfl | hc
      · exact .inl rfl
      · exact .inr (hpassword c hc)

/-- The port is one that is written, and fits. -/
def IsPort (scheme : String) (n : Nat) : Prop := n ≤ 65535 ∧ defaultPort? scheme ≠ some n

theorem isPort_of_port? {n : Nat} (h : port? scheme cs = .ok (some n)) : IsPort scheme n := by
  unfold port? at h
  dsimp only at h
  split_ifs at h with hlarge hafter hdefault
  · cases h
  · obtain rfl := Option.some.inj (Except.ok.inj h)
    simp only [Bool.or_eq_true, decide_eq_true_eq, not_or] at hdefault
    exact ⟨not_lt.mp hlarge, hdefault.2⟩

theorem port?_toDigits {n : Nat} (h : IsPort scheme n) :
    port? scheme (Nat.toDigits 10 n) = .ok (some n) := by
  have hdigit : ∀ c ∈ Nat.toDigits 10 n, ('0' ≤ c && c ≤ '9') = true :=
    fun c => Nat.isDigit_of_mem_toDigits (by decide) (by decide)
  have htake : ((Nat.toDigits 10 n).takeWhile fun c => '0' ≤ c && c ≤ '9') = Nat.toDigits 10 n :=
    List.takeWhile_eq_self_iff.mpr hdigit
  have hvalue : (Nat.toDigits 10 n).foldl (fun n c => n * 10 + (c.toNat - '0'.toNat)) 0 = n := by
    simpa only [Nat.ofDigitChars, Nat.mul_comm] using Nat.ofDigitChars_ten_toDigits (n := n)
  simp only [port?, htake, hvalue, if_neg (not_lt.mpr h.1), List.drop_length]
  simp [h.2]

/-! ### The part before the path -/

/-- What stands between the slashes and the path, in its normal form. -/
structure Authority.IsNormal (scheme : String) (a : Authority) : Prop where
  userInfo : a.userInfo = "" ∨ ∃ before, IsUserInfo a.userInfo before
  host : ∃ h, a.host = some h ∧ h.IsNormal
  port : ∀ n, a.port = some n → IsPort scheme n

/-- A port with the colon before it. -/
def portChars : Option Nat → List Char
  | some n => ':' :: Nat.toDigits 10 n
  | none => []

theorem toList_authority (a : Authority) : a.text.toList =
    a.userInfo.toList ++ ((a.host.map Host.text).getD "").toList ++ portChars a.port := by
  rw [Authority.text, String.toList_append, String.toList_append]
  cases a.port with
  | none => rfl
  | some n => simp [portChars]

theorem userInfo_of_splitUserInfo? {more : Bool} {info : String} {rest : List Char}
    (h : splitUserInfo? cs more = .ok (info, rest)) :
    info = "" ∨ ∃ before, IsUserInfo info before := by
  unfold splitUserInfo? at h
  split at h
  · exact .inl (Prod.mk.inj (Except.ok.inj h)).1.symm
  · split_ifs at h
    · exact .inl (Prod.mk.inj (Except.ok.inj h)).1.symm
    · rw [← (Prod.mk.inj (Except.ok.inj h)).1]
      exact userInfoText_eq _

theorem isPort_of_portAfterHost? {n : Nat} (h : portAfterHost? scheme cs = .ok (some n)) :
    IsPort scheme n := by
  unfold portAfterHost? at h
  split at h
  · exact isPort_of_port? h
  · cases h

theorem Authority.isNormal_of_authority? (hspecial : schemeKind scheme = .special) {more : Bool}
    {a : Authority} (h : authority? scheme cs more = .ok a) : a.IsNormal scheme := by
  simp only [authority?, Except.bind_eq_ok, hspecial] at h
  obtain ⟨⟨info, hostPort⟩, hinfo, h⟩ := h
  obtain ⟨host, hhost, h⟩ := h
  have hparse : Host.parse? (splitHost false hostPort).1 = .ok host := by
    simp only [host?, ne_eq, reduceCtorEq, not_false_eq_true, decide_true, if_true] at hhost
    split_ifs at hhost
    exact hhost
  have hnormal := Host.isNormal_of_parse? hparse
  have hne : host ≠ .domain "" := by
    rintro rfl
    exact hnormal.ne_nil rfl
  rw [if_neg hne] at h
  obtain ⟨port, hport, h⟩ := Except.bind_eq_ok.mp h
  obtain rfl := Except.ok.inj h
  refine ⟨userInfo_of_splitUserInfo? hinfo, ⟨host, rfl, hnormal⟩, ?_⟩
  rintro n rfl
  exact isPort_of_portAfterHost? hport

theorem Host.IsNormal.not_mem_sign {host : Host} (h : host.IsNormal) (port : Option Nat) :
    '@' ∉ host.text.toList ++ portChars port := by
  intro hmem
  rcases List.mem_append.mp hmem with hmem | hmem
  · exact (h.chars '@' hmem).ne_sign rfl
  · cases port with
    | none => cases hmem
    | some n =>
      rcases List.mem_cons.mp hmem with he | hmem
      · cases he
      · cases Nat.isDigit_of_mem_toDigits (by decide) (by decide) hmem

/-- Characters that show, and do not end the part before the path. -/
def IsInside (cs : List Char) : Prop :=
  IsVisible cs ∧ ∀ c ∈ cs, endsAuthority true c = false

theorem isInside_nil : IsInside [] := ⟨List.forall_mem_nil _, List.forall_mem_nil _⟩

theorem IsInside.append {ds : List Char} (h : IsInside cs) (h' : IsInside ds) :
    IsInside (cs ++ ds) :=
  ⟨h.1.append h'.1, List.forall_mem_append.mpr ⟨h.2, h'.2⟩⟩

theorem isInside_singleton {c : Char} (hvisible : 0x20 < c.toNat ∧ c.toNat < 0x7f)
    (h : endsAuthority true c = false) : IsInside [c] :=
  ⟨List.forall_mem_singleton.mpr hvisible, List.forall_mem_singleton.mpr h⟩

theorem IsUserInfo.isInside {info : String} (h : IsUserInfo info before) : IsInside before := by
  have hspared {c : Char} (hc : c.toNat < 0x80 ∧ escapedInUserInfo c = false) :
      (0x20 < c.toNat ∧ c.toNat < 0x7f) ∧ endsAuthority true c = false := by
    have hvisible := IsSpared.isVisible_userInfo (List.forall_mem_singleton.mpr hc) c (by simp)
    refine ⟨hvisible, ?_⟩
    have hne {d : Char} (hd : escapedInUserInfo d = true) : c ≠ d := by
      rintro rfl
      simp [hd] at hc
    simp [endsAuthority, hne (d := '/') (by decide), hne (d := '?') (by decide),
      hne (d := '#') (by decide), hne (d := '\\') (by decide)]
  have hcolon : (0x20 < ':'.toNat ∧ ':'.toNat < 0x7f) ∧ endsAuthority true ':' = false := by decide
  have hall : ∀ c ∈ before, (0x20 < c.toNat ∧ c.toNat < 0x7f) ∧ endsAuthority true c = false := by
    intro c hc
    rcases h.chars c hc with rfl | hc
    · exact hcolon
    · exact hspared hc
  exact ⟨fun c hc => (hall c hc).1, fun c hc => (hall c hc).2⟩

theorem isInside_toDigits (n : Nat) : IsInside (Nat.toDigits 10 n) := by
  have hall : ∀ d < 10, (0x20 < (Nat.digitChar d).toNat ∧ (Nat.digitChar d).toNat < 0x7f) ∧
      endsAuthority true (Nat.digitChar d) = false := by decide
  have hdigits : ∀ c ∈ Nat.toDigits 10 n, (0x20 < c.toNat ∧ c.toNat < 0x7f) ∧
      endsAuthority true c = false := by
    intro c hc
    obtain ⟨d, hd, rfl⟩ := exists_digitChar_of_mem_toDigits (by decide) hc
    exact hall d hd
  exact ⟨fun c hc => (hdigits c hc).1, fun c hc => (hdigits c hc).2⟩

section
variable {a : Authority} (h : a.IsNormal scheme)
include h

theorem Authority.IsNormal.isInside : IsInside a.text.toList := by
  obtain ⟨host, hhost, hnormal⟩ := h.host
  rw [toList_authority, hhost]
  refine (IsInside.append ?_ ?_).append ?_
  · rcases h.userInfo with hempty | ⟨before, hbefore⟩
    · rw [hempty]
      exact isInside_nil
    · rw [hbefore.toList]
      exact hbefore.isInside.append (isInside_singleton (by decide) (by decide))
  · exact ⟨fun c hc => (hnormal.chars c hc).visible, fun c hc => (hnormal.chars c hc).inside⟩
  · cases a.port with
    | none => exact isInside_nil
    | some n =>
      exact (isInside_singleton (c := ':') (by decide) (by decide)).append (isInside_toDigits n)

theorem Authority.IsNormal.ne_nil : a.text.toList ≠ [] := by
  obtain ⟨host, hhost, hnormal⟩ := h.host
  simp [toList_authority, hhost, hnormal.ne_nil]

theorem Authority.IsNormal.portAfterHost? :
    portAfterHost? scheme (portChars a.port) = .ok a.port := by
  cases hport : a.port with
  | none => rfl
  | some n => exact port?_toDigits (h.port n hport)

theorem Authority.IsNormal.authority?_text (hspecial : schemeKind scheme = .special) (more : Bool) :
    authority? scheme a.text.toList more = .ok a := by
  obtain ⟨host, hhost, hnormal⟩ := h.host
  have htext : a.text.toList = a.userInfo.toList ++ (host.text.toList ++ portChars a.port) := by
    rw [toList_authority, hhost, List.append_assoc]
    rfl
  have hsign := hnormal.not_mem_sign a.port
  have hsplit : splitUserInfo? a.text.toList more =
      .ok (a.userInfo, host.text.toList ++ portChars a.port) := by
    rw [htext, splitUserInfo?]
    rcases h.userInfo with hempty | ⟨before, hbefore⟩
    · rw [hempty, String.toList_empty, List.nil_append, splitAtLastSign_of_not_mem hsign]
    · rw [hbefore.toList, List.append_assoc, List.singleton_append, splitAtLastSign_append hsign]
      simp [hbefore.ne_nil, hbefore.again]
  have hscan : splitHost false (host.text.toList ++ portChars a.port) =
      (host.text.toList, portChars a.port) := by
    refine hnormal.splitHost _ ?_
    cases a.port <;> simp [portChars]
  have hne : host ≠ .domain "" := by
    rintro rfl
    exact hnormal.ne_nil rfl
  have hread : host? (decide (schemeKind scheme ≠ .other)) host.text.toList = .ok host := by
    simp [host?, hspecial, hnormal.ne_nil, hnormal.parse?]
  simp only [authority?, hsplit, bind, Except.bind, hscan, hread, if_neg hne, h.portAfterHost?]
  show Except.ok (⟨a.userInfo, some host, a.port⟩ : Authority) = .ok a
  rw [← hhost]

end
end

end ForcingData.Url
