import ForcingData.Proofs.Text.Blank
import ForcingData.Proofs.Url.Directory
import ForcingData.Vocabulary.Loader

/-! # References, twice

The text of a remote source is a reference to the same source, and the files of a source are in the
directory that its root is the URL of (`parse?_text_of_remote`). This fails for one kind of
references alone, to which `losesSlash` applies: the slash that is put after a version of the
official repository ends up in a query or in a fragment, and a file beside the root is not in the
version's directory. -/

namespace ForcingData.CvSource
open Text Url Vocabularies

/-- What is read of a version: tabs and line breaks say nothing. -/
def written (version : List Char) : List Char :=
  version.filter fun c => c ≠ '\t' && c ≠ '\n' && c ≠ '\r'

/-- What stands before a query or a fragment. -/
def beforeMarks (cs : List Char) : List Char := cs.takeWhile fun c => c ≠ '?' && c ≠ '#'

/-- A query or a fragment begins right after a name of a version's path, so that the slash after the
version does not belong to the path. -/
def hidesSlash (version : List Char) : Bool :=
  let version := written version
  beforeMarks version ≠ version && endName (beforeMarks version) ≠ []

/-- The reference is one to a version that hides the slash after it. -/
def losesSlash (reference : String) : Bool :=
  (dropPrefix? "gh:".toList (trim reference).toList).any hidesSlash

section
variable {reference : String} {root : Url} {version : List Char}

theorem significant_official (version : List Char) :
    significant (officialRoot ++ String.ofList version ++ "/").toList =
      officialRoot.toList ++ written version ++ ['/'] := by
  have hhead : officialRoot.toList = 'h' :: officialRoot.toList.tail := by decide +kernel
  have hall : (officialRoot.toList.filter fun c => c ≠ '\t' && c ≠ '\n' && c ≠ '\r') =
      officialRoot.toList := by decide +kernel
  have hfront : ((officialRoot ++ String.ofList version ++ "/").toList.dropWhile fun c =>
      decide (c.toNat ≤ 0x20)) = (officialRoot ++ String.ofList version ++ "/").toList := by
    rw [String.toList_append, String.toList_append, hhead]
    rfl
  have hback : ((officialRoot ++ String.ofList version ++ "/").toList.reverse.dropWhile fun c =>
      decide (c.toNat ≤ 0x20)) = (officialRoot ++ String.ofList version ++ "/").toList.reverse := by
    rw [String.toList_append, List.reverse_append]
    rfl
  rw [significant, hfront, hback, List.reverse_reverse, String.toList_append, String.toList_append,
    String.toList_ofList, List.filter_append, List.filter_append, hall]
  rfl

theorem splitTail_fst (cs : List Char) : (splitTail cs).1 = beforeMarks cs := by
  rw [splitTail, beforeMarks]
  dsimp only
  rw [List.takeWhile_takeWhile]
  refine congrArg (List.takeWhile · cs) (funext fun c => ?_)
  simp [bne, Bool.beq_eq_decide_eq]

theorem afterSlashes_official {tail : List Char} (htail : tail.head? = some '/') :
    afterSlashes "https" ("raw.githubusercontent.com".toList ++ tail) =
      .ok (assemble "https" (some ⟨"", some (.domain "raw.githubusercontent.com"), none⟩)
        (routeAfter .special (beforeMarks tail)) (splitTail tail).2.1 (splitTail tail).2.2) := by
  have hauthority (more : Bool) : authority? "https" "raw.githubusercontent.com".toList more =
      .ok ⟨"", some (.domain "raw.githubusercontent.com"), none⟩ := by
    cases more <;> decide +kernel
  have hspecial : schemeKind "https" = .special := by decide
  have hinside : ("raw.githubusercontent.com".toList.all (!endsAuthority true ·)) = true := by
    decide +kernel
  obtain ⟨htake, -⟩ := run_append (l := tail) (List.all_eq_true.mp hinside)
    (by simp [htail, endsAuthority])
  rw [afterSlashes]
  simp only [hspecial, ne_eq, reduceCtorEq, not_false_eq_true, decide_true, htake, List.drop_left,
    hauthority, ← splitTail_fst]
  rfl

/-- A version is always read as the URL of its path in the official repository. -/
theorem parse?_official (version : List Char) : ∃ query fragment,
    Url.parse? (officialRoot ++ String.ofList version ++ "/") = .ok ⟨"https",
      some ⟨"", some (.domain "raw.githubusercontent.com"), none⟩,
      .segments (segmentsOf .special
        ("PCMDI/input4MIPs_CVs".toList ++ '/' :: beforeMarks (written version ++ ['/']))),
      query, fragment⟩ := by
  have hsplit (rest : List Char) : splitScheme? (officialRoot.toList ++ rest) = some ("https",
      "//raw.githubusercontent.com/PCMDI/input4MIPs_CVs/".toList ++ rest) := rfl
  have hslashes (rest : List Char) :
      ("//raw.githubusercontent.com/PCMDI/input4MIPs_CVs/".toList ++ rest).dropWhile
          (isSlash true) =
        "raw.githubusercontent.com".toList ++
          '/' :: ("PCMDI/input4MIPs_CVs".toList ++ '/' :: rest) := rfl
  have hspecial : schemeKind "https" = .special := by decide
  rw [Url.parse?, significant_official, List.append_assoc, hsplit]
  simp only [hspecial, hslashes, afterSlashes_official List.head?_cons]
  exact ⟨_, _, rfl⟩

/-- The root of a source is a version of the official repository, or else an address that is given
and ends in a slash. -/
theorem cases_of_parse? (h : parse? reference = .ok (.remote root)) :
    (∃ version, dropPrefix? "gh:".toList (trim reference).toList = some version ∧
      Url.parse? (officialRoot ++ String.ofList version ++ "/") = .ok root) ∨
    (dropPrefix? "gh:".toList (trim reference).toList = none ∧
      ∃ url : Url, url.IsWeb ∧ root = url.asDirectory) := by
  simp only [parse?] at h
  split_ifs at h
  split at h
  · rename_i version hversion
    refine .inl ⟨version, hversion, ?_⟩
    unfold ofVersion? at h
    split_ifs at h
    split at h
    · rename_i hparse
      obtain rfl := remote.inj (Except.ok.inj h)
      exact hparse
    · cases h
  · rename_i hnone
    refine .inr ⟨hnone, ?_⟩
    split at h
    · rename_i url hparse
      split_ifs at h with hweb hfile
      · have hroot : url.asDirectory = root := remote.inj (Except.ok.inj h)
        exact ⟨url, isWeb_of_parse? hparse (by simpa using hweb), hroot.symm⟩
      · split at h <;> cases h
      · cases h
    · cases h

theorem isWeb_of_parse? (h : parse? reference = .ok (.remote root)) : root.IsWeb := by
  rcases cases_of_parse? h with ⟨version, -, hparse⟩ | ⟨-, url, hurl, rfl⟩
  · obtain ⟨query, fragment, hofficial⟩ := parse?_official version
    obtain rfl := Except.ok.inj (hofficial.symm.trans hparse)
    exact Url.isWeb_of_parse? hparse (.inr rfl)
  · exact hurl.asDirectory

theorem endName_official (version : List Char) :
    endName ("PCMDI/input4MIPs_CVs".toList ++ '/' :: beforeMarks (version ++ ['/'])) =
      if beforeMarks version = version then [] else endName (beforeMarks version) := by
  rw [endName_append_slash]
  split_ifs with hwhole
  · have hall : ∀ c ∈ version ++ ['/'], (c ≠ '?' && c ≠ '#') = true :=
      List.forall_mem_append.mpr ⟨List.takeWhile_eq_self_iff.mp hwhole, by simp⟩
    rw [beforeMarks, List.takeWhile_eq_self_iff.mpr hall, endName_append_slash]
    decide
  · have hshort : (beforeMarks version).length ≠ version.length := fun he =>
      hwhole ((List.takeWhile_prefix _).eq_of_length he)
    unfold beforeMarks at hshort ⊢
    rw [List.takeWhile_append, if_neg hshort]

/-- The root of a source is a directory, unless its version hides the slash after it. -/
theorem isDirectory_iff (h : parse? reference = .ok (.remote root)) :
    root.IsDirectory ↔ losesSlash reference = false := by
  rcases cases_of_parse? h with ⟨version, hversion, hparse⟩ | ⟨hnone, url, hurl, rfl⟩
  · obtain ⟨query, fragment, hofficial⟩ := parse?_official version
    obtain rfl := Except.ok.inj (hofficial.symm.trans hparse)
    have hlast := getLast?_segmentsOf
      ("PCMDI/input4MIPs_CVs".toList ++ '/' :: beforeMarks (written version ++ ['/']))
    -- only the last name counts, and it is found before the first mark
    obtain ⟨names, hnames⟩ := List.getLast?_eq_some_iff.mp hlast
    rw [Url.isDirectory_iff (congrArg Route.segments hnames), endName_official, losesSlash,
      hversion]
    simp only [Option.any_some, hidesSlash]
    split_ifs with hwhole <;> simp [hwhole]
  · exact iff_of_true hurl.isDirectory_asDirectory (by rw [losesSlash, hnone]; rfl)

/-- The text of a source is a reference to it, but for a slash at its end. -/
theorem parse?_text (h : root.IsWeb) :
    parse? (remote root).text = .ok (.remote root.asDirectory) := by
  obtain ⟨a, ha, -⟩ := h.authority
  obtain ⟨names, hroute, hne, -⟩ := h.route
  have hblank : ∀ c ∈ root.text.toList, isBlank c = false := by
    intro c hc
    have hvisible := h.isVisible c hc
    simp only [isBlank, inRanges, blankRanges, List.any_cons, List.any_nil]
    simp
    omega
  have htrim : trim root.text = root.text := by
    have htrimmed : IsTrimmed root.text.toList :=
      ⟨fun c hc => hblank c (List.mem_of_mem_head? hc),
        fun c hc => hblank c (List.mem_of_mem_getLast? hc)⟩
    have htrim := trimChars_eq Blank.nil htrimmed Blank.nil
    rw [List.nil_append, List.append_nil] at htrim
    rw [trim, htrim, String.ofList_toList]
  have hversion : dropPrefix? "gh:".toList root.text.toList = none := by
    rw [toList_text ha hroute hne]
    rcases h.scheme with he | he <;> rw [he] <;> rfl
  have hempty : root.text ≠ "" := by
    intro he
    have hnil := congrArg String.toList he
    rw [toList_text ha hroute hne] at hnil
    simp at hnil
  have hweb : (root.scheme = "http" || root.scheme = "https") = true := by simpa using h.scheme
  simp only [parse?, text, htrim, if_neg hempty, hversion, h.parse?_text, if_pos hweb]

theorem isSegment_of_mem_allFiles {file : String × Bool} (h : file ∈ allFiles) :
    IsSegment file.1.toList := by
  have hall : (allFiles.all fun file =>
      (file.1.toList.all fun c => c.toNat < 0x80 && !escapedInPath c && !isSlash true c) &&
        !isDoubleDot file.1.toList && !isSingleDot file.1.toList) = true := by decide +kernel
  have hfile := List.all_eq_true.mp hall file h
  simp only [Bool.and_eq_true, List.all_eq_true, decide_eq_true_eq, Bool.not_eq_true'] at hfile
  obtain ⟨⟨hchars, hdouble⟩, hsingle⟩ := hfile
  exact ⟨fun c hc => (hchars c hc).1, fun c hc => (hchars c hc).2, hdouble, hsingle⟩

/-- What a remote source is written as is a reference to the same root, with a slash at the end of
its path where it has none. It has one, its text is a reference to it and every file is in it,
unless the reference is one to a version that hides the slash after it. -/
theorem parse?_text_of_remote (h : parse? reference = .ok (.remote root)) :
    parse? (remote root).text = .ok (.remote root.asDirectory) ∧
      (parse? (remote root).text = .ok (.remote root) ↔ losesSlash reference = false) ∧
      (root.route.text.toList.getLast? = some '/' ↔ losesSlash reference = false) ∧
      ∀ file ∈ allFiles, ((root.beside file.1).route.text = root.route.text ++ file.1 ↔
        losesSlash reference = false) := by
  have hweb := isWeb_of_parse? h
  have hdirectory := isDirectory_iff h
  have htext := parse?_text hweb
  refine ⟨htext, ?_, hweb.getLast?_route_iff.trans hdirectory, fun file hfile =>
    (hweb.text_beside_iff (isSegment_of_mem_allFiles hfile)).trans hdirectory⟩
  rw [htext, Except.ok.injEq, remote.injEq, hweb.asDirectory_eq_iff, hdirectory]

end

/-- The URL of a path in the official repository. -/
def official (names : List String) (fragment : Option String) : Url where
  scheme := "https"
  authority := some ⟨"", some (.domain "raw.githubusercontent.com"), none⟩
  route := .segments ("PCMDI" :: "input4MIPs_CVs" :: names)
  query := none
  fragment := fragment

/-- A tag, whose source is stable, and a branch with a sign in its name, whose source is not. -/
theorem parse?_text_of_remote_sample :
    (parse? "gh:v6.5.0" = .ok (.remote (official ["v6.5.0", ""] none)) ∧
      parse? (official ["v6.5.0", ""] none).text = .ok (.remote (official ["v6.5.0", ""] none))) ∧
    (parse? "gh:fix#12" = .ok (.remote (official ["fix"] (some "12/"))) ∧
      parse? (official ["fix"] (some "12/")).text =
        .ok (.remote (official ["fix", ""] (some "12/"))) ∧
      (official ["fix"] (some "12/")).route.text.toList.getLast? ≠ some '/') := by
  have hstable : parse? "gh:v6.5.0" = .ok (.remote (official ["v6.5.0", ""] none)) := by
    decide +kernel
  have hlost : parse? "gh:fix#12" = .ok (.remote (official ["fix"] (some "12/"))) := by
    decide +kernel
  have hslash : losesSlash "gh:fix#12" ≠ false := by decide +kernel
  have ⟨_, hkept, _⟩ := parse?_text_of_remote hstable
  have ⟨htext, _, hend, _⟩ := parse?_text_of_remote hlost
  exact ⟨⟨hstable, hkept.mpr (by decide +kernel)⟩, hlost, htext, mt hend.mp hslash⟩

end ForcingData.CvSource
