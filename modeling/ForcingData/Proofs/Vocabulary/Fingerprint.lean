import ForcingData.Proofs.Dict
import ForcingData.Proofs.FileTree.Disk
import ForcingData.Proofs.Json.Control
import ForcingData.Proofs.Results
import ForcingData.Vocabulary.Loader
import Mathlib.Data.UInt

/-! # What the fingerprint tells apart

In the message that is hashed a zero byte ends every name and every content. Files that are read are
JSON and hold no zero byte (`Tree.zero_notMem_of_ofBytes?`); where the other files hold none either,
the message determines all files (`fingerprintBytes_inj`). Nothing is asked of files that are not
read: one with zero bytes in it can take in the file after it, and the message stays the same
(`exists_same_fingerprintBytes`). The files that are loaded from a source are all read
(`unreadZeroFree_of_load`). -/

namespace ForcingData
open Json

/-! ### Bytes of texts -/

theorem ByteArray.toList_loop (b : ByteArray) (i : Nat) (acc : List UInt8) :
    ByteArray.toList.loop b i acc = acc.reverse ++ b.data.toList.drop i := by
  fun_induction ByteArray.toList.loop b i acc with
  | case1 i acc h ih =>
    have hget : b.data.toList.drop i = b.get! i :: b.data.toList.drop (i + 1) := by
      rw [List.drop_eq_getElem_cons (by simpa using h)]
      simp [ByteArray.get!, getElem!_pos b.data i h]
    rw [ih, hget]
    simp
  | case2 i acc h =>
    have h : b.data.toList.length ≤ i := by simpa using h
    simp [List.drop_eq_nil_of_le h]

theorem ByteArray.toList_eq (b : ByteArray) : b.toList = b.data.toList := toList_loop b 0 []

theorem ByteArray.toList_inj {b b' : ByteArray} : b.toList = b'.toList ↔ b = b' := by
  rw [toList_eq, toList_eq, Array.toList_inj]
  exact ⟨fun h => ByteArray.ext h, congrArg ByteArray.data⟩

theorem toUTF8_toList (s : String) : s.toUTF8.toList = s.toList.flatMap String.utf8EncodeChar := by
  rw [ByteArray.toList_eq, String.toUTF8, ← String.utf8Encode_toList, List.utf8Encode,
    List.data_toByteArray]

theorem zero_mem_utf8EncodeChar {c : Char} : 0 ∈ String.utf8EncodeChar c ↔ c = '\x00' := by
  refine ⟨fun h => ?_, fun h => by subst h; simp [String.utf8EncodeChar]⟩
  have hv : c.val.toNat = 0 := by
    unfold String.utf8EncodeChar at h
    extract_lets v at h
    split_ifs at h <;>
      simp only [List.mem_cons, List.not_mem_nil, or_false, ← UInt8.toNat_inj, UInt8.toNat_ofNat',
        UInt8.toNat_zero] at h <;>
      omega
  exact Char.ext (UInt32.toNat_inj.mp hv)

theorem zero_mem_toUTF8 {s : String} : 0 ∈ s.toUTF8.toList ↔ '\x00' ∈ s.toList := by
  simp only [toUTF8_toList, List.mem_flatMap, zero_mem_utf8EncodeChar, exists_eq_right]

theorem Json.Tree.zero_notMem_of_ofBytes? {b : ByteArray} {t : Tree}
    (h : Tree.ofBytes? b = some t) : 0 ∉ b.toList := by
  obtain ⟨s, hs, ht⟩ := Option.bind_eq_some_iff.mp h
  obtain ⟨hvalid, hs⟩ := Option.dite_none_right_eq_some.mp hs
  obtain rfl : b = s.toUTF8 := congrArg String.toUTF8 (Option.some.inj hs)
  rw [zero_mem_toUTF8]
  exact Tree.notMem_of_parse? ⟨by decide, rfl⟩ ht

namespace Vocabularies
variable {source : String} {files : RawFiles} {v : Vocabularies}

/-! ### Files that are read -/

theorem exists_tree_of_parseFile {α : Type} {file : String} {content : ByteArray}
    {shape? : Tree → Option α} {a : α} (h : parseFile source file content shape? = .ok a) :
    ∃ t, Tree.ofBytes? content = some t := by
  unfold parseFile at h
  split at h
  · rename_i hbind
    obtain ⟨t, ht, -⟩ := Option.bind_eq_some_iff.mp hbind
    exact ⟨t, ht⟩
  · cases h

theorem requireFile_eq_ok {α : Type} {file : String} {shape? : Tree → Option α} {a : α} :
    requireFile source files file shape? = .ok a ↔
      ∃ content, files.get? file = some content ∧ parseFile source file content shape? = .ok a := by
  unfold requireFile
  cases files.get? file <;> simp

theorem exists_simpleSets_iff {cs : List Category} :
    (∃ sets, simpleSets source files cs = .ok sets) ↔
      ∀ c ∈ cs, ∀ file ∈ c.simpleFile?, ∀ content ∈ files.get? file,
        ∃ names, parseFile source file content (simpleNames? c) = .ok names := by
  induction cs with
  | nil => simp [simpleSets]
  | cons c cs ih =>
    rw [List.forall_mem_cons, ← ih, simpleSets]
    split
    · rename_i hnone
      refine (and_iff_right fun file hfile content hcontent => ?_).symm
      rw [Option.mem_def] at hfile hcontent
      simp [hfile, hcontent] at hnone
    · rename_i file content hsome
      obtain ⟨_, hfile, hget⟩ := Option.bind_eq_some_iff.mp hsome
      obtain ⟨_, hcontent, he⟩ := Option.map_eq_some_iff.mp hget
      obtain ⟨rfl, rfl⟩ := Prod.mk.inj he
      simp only [Except.bind_eq_ok, Except.pure_eq_ok, hfile, hcontent, Option.mem_some_iff,
        forall_eq']
      constructor
      · rintro ⟨_, names, hnames, sets, hsets, -⟩
        exact ⟨⟨names, hnames⟩, ⟨sets, hsets⟩⟩
      · rintro ⟨⟨names, hnames⟩, sets, hsets⟩
        exact ⟨_, names, hnames, sets, hsets, rfl⟩

/-- Every file that is read is as it has to be. -/
structure AreAccepted (source : String) (files : RawFiles) : Prop where
  activities : ∃ activities, requireFile source files activityFile
    (single? "activity_id" (Tree.dict? Activity.ofTree?)) = .ok activities
  institutions : ∃ institutions, requireFile source files institutionFile
    (single? "institution_id" (Tree.list? Tree.string?)) = .ok institutions
  licenses : ∃ licenses, requireFile source files licenseFile
    (single? "license" (Tree.dict? License.ofTree?)) = .ok licenses
  sources : ∃ sources, requireFile source files sourceFile
    (single? "source_id" (Tree.dict? Source.ofTree?)) = .ok sources
  drs : ∃ record, requireFile source files drsFile (single? "DRS" DrsRecord.ofTree?) = .ok record ∧
    ∃ drs, Drs.ofTemplates? record.directoryTemplate record.fileNameTemplate = .ok drs
  simple : ∃ sets, simpleSets source files Category.all = .ok sets

theorem exists_ofFiles?_iff : (∃ v, ofFiles? source files = .ok v) ↔ AreAccepted source files := by
  simp only [ofFiles?, Except.bind_eq_ok]
  constructor
  · rintro ⟨v, a, ha, i, hi, l, hl, s, hs, record, hrecord, h⟩
    split at h
    · rename_i drs hdrs
      simp only [Except.bind_eq_ok] at h
      obtain ⟨_, _, sets, hsets, _⟩ := h
      exact ⟨⟨a, ha⟩, ⟨i, hi⟩, ⟨l, hl⟩, ⟨s, hs⟩, ⟨record, hrecord, drs, hdrs⟩, ⟨sets, hsets⟩⟩
    · cases h
  · rintro ⟨⟨a, ha⟩, ⟨i, hi⟩, ⟨l, hl⟩, ⟨s, hs⟩, ⟨record, hrecord, drs, hdrs⟩, ⟨sets, hsets⟩⟩
    apply Exists.intro
    refine ⟨a, ha, i, hi, l, hl, s, hs, record, hrecord, ?_⟩
    rw [hdrs]
    exact Except.bind_eq_ok.mpr ⟨drs, rfl, Except.bind_eq_ok.mpr ⟨sets, hsets, rfl⟩⟩

theorem exists_tree_of_requireFile {α : Type} {file : String} {shape? : Tree → Option α}
    (h : ∃ a, requireFile source files file shape? = .ok a) {content : ByteArray}
    (hget : files.get? file = some content) : ∃ t, Tree.ofBytes? content = some t := by
  obtain ⟨a, ha⟩ := h
  obtain ⟨_, hc, hparse⟩ := requireFile_eq_ok.mp ha
  obtain rfl := Option.some.inj (hget.symm.trans hc)
  exact exists_tree_of_parseFile hparse

theorem AreAccepted.exists_tree (h : AreAccepted source files) {file : String}
    {content : ByteArray} (hf : file ∈ requiredFiles ++ optionalFiles)
    (hget : files.get? file = some content) : ∃ t, Tree.ofBytes? content = some t := by
  rcases List.mem_append.mp hf with hf | hf
  · simp only [requiredFiles, List.mem_cons, List.not_mem_nil, or_false] at hf
    rcases hf with rfl | rfl | rfl | rfl | rfl
    · exact exists_tree_of_requireFile h.activities hget
    · obtain ⟨record, hrecord, -⟩ := h.drs
      exact exists_tree_of_requireFile ⟨record, hrecord⟩ hget
    · exact exists_tree_of_requireFile h.institutions hget
    · exact exists_tree_of_requireFile h.licenses hget
    · exact exists_tree_of_requireFile h.sources hget
  · obtain ⟨c, hc, hfile⟩ := List.mem_filterMap.mp hf
    obtain ⟨names, hnames⟩ := exists_simpleSets_iff.mp h.simple c hc file hfile content hget
    exact exists_tree_of_parseFile hnames

theorem AreAccepted.mono {files' : RawFiles} (h : AreAccepted source files)
    (hreq : ∀ file ∈ requiredFiles, files'.get? file = files.get? file)
    (hopt : ∀ file ∈ optionalFiles, ∀ content,
      files'.get? file = some content → files.get? file = some content) :
    AreAccepted source files' := by
  have hrequire {α : Type} {file : String} (hf : file ∈ requiredFiles) (shape? : Tree → Option α) :
      requireFile source files' file shape? = requireFile source files file shape? := by
    rw [requireFile, hreq file hf, requireFile]
  obtain ⟨ha, hi, hl, hs, hd, hsets⟩ := h
  refine ⟨by rwa [hrequire (by decide)], by rwa [hrequire (by decide)],
    by rwa [hrequire (by decide)], by rwa [hrequire (by decide)], by rwa [hrequire (by decide)],
    exists_simpleSets_iff.mpr fun c hc file hfile content hcontent => ?_⟩
  have hmem : file ∈ optionalFiles := List.mem_filterMap.mpr ⟨c, hc, hfile⟩
  exact exists_simpleSets_iff.mp hsets c hc file hfile content (hopt file hmem content hcontent)

/-! ### The message -/

/-- A file whose name and content hold no zero byte. -/
def ZeroFree (e : String × ByteArray) : Prop := '\x00' ∉ e.1.toList ∧ 0 ∉ e.2.toList

instance (e : String × ByteArray) : Decidable (ZeroFree e) :=
  inferInstanceAs (Decidable ('\x00' ∉ e.1.toList ∧ 0 ∉ e.2.toList))

def message (entries : List (String × ByteArray)) : List UInt8 :=
  entries.flatMap fun (name, content) => name.toUTF8.toList ++ 0 :: content.toList ++ [0]

theorem fingerprintBytes_eq (files : RawFiles) :
    fingerprintBytes files = message files.toList := rfl

theorem message_cons (e : String × ByteArray) (entries : List (String × ByteArray)) :
    message (e :: entries) =
      e.1.toUTF8.toList ++ 0 :: (e.2.toList ++ 0 :: message entries) := by
  simp [message]

theorem message_inj : ∀ {entries entries' : List (String × ByteArray)},
    (∀ e ∈ entries, ZeroFree e) → (∀ e ∈ entries', ZeroFree e) →
      message entries = message entries' → entries = entries'
  | [], [], _, _, _ => rfl
  | [], e :: _, _, _, h => by simp [message] at h
  | e :: _, [], _, _, h => by simp [message] at h
  | e :: entries, e' :: entries', hz, hz', h => by
    obtain ⟨⟨hname, hcontent⟩, hz⟩ := List.forall_mem_cons.mp hz
    obtain ⟨⟨hname', hcontent'⟩, hz'⟩ := List.forall_mem_cons.mp hz'
    rw [← zero_mem_toUTF8] at hname hname'
    rw [message_cons, message_cons] at h
    obtain ⟨hn, h⟩ := first_unique hname hname' h
    obtain ⟨hc, h⟩ := first_unique hcontent hcontent' h
    have he : e = e' :=
      Prod.ext (String.toByteArray_inj.mp (ByteArray.toList_inj.mp hn)) (ByteArray.toList_inj.mp hc)
    rw [he, message_inj hz hz' h]

theorem zero_notMem_of_mem_files {file : String} (h : file ∈ requiredFiles ++ optionalFiles) :
    '\x00' ∉ file.toList := by
  revert h file
  decide

/-- What is asked of files that are not read to tell them apart. -/
def UnreadZeroFree (files : RawFiles) : Prop :=
  ∀ e ∈ files.toList, e.1 ∉ requiredFiles ++ optionalFiles → ZeroFree e

/-- If none of the files that are not read holds a zero byte, the message says which files there
are and what is in them. -/
theorem fingerprintBytes_inj {source' : String} {files' : RawFiles} {v' : Vocabularies}
    (h : ofFiles? source files = .ok v) (h' : ofFiles? source' files' = .ok v')
    (hz : UnreadZeroFree files) (hz' : UnreadZeroFree files') :
    fingerprintBytes files = fingerprintBytes files' ↔ files = files' := by
  have zeroFree {source : String} {files : RawFiles} {v : Vocabularies}
      (h : ofFiles? source files = .ok v) (hz : UnreadZeroFree files) :
      ∀ e ∈ files.toList, ZeroFree e := by
    intro e he
    by_cases hread : e.1 ∈ requiredFiles ++ optionalFiles
    · obtain ⟨t, ht⟩ := (exists_ofFiles?_iff.mp ⟨v, h⟩).exists_tree hread (files.mem_toList.mp he)
      exact ⟨zero_notMem_of_mem_files hread, Tree.zero_notMem_of_ofBytes? ht⟩
    · exact hz e he hread
  refine ⟨fun heq => Dict.ext ?_, congrArg fingerprintBytes⟩
  exact message_inj (zeroFree h hz) (zeroFree h' hz') heq

/-- The files that have to be there, one that may be, and one that is not read. -/
def sampleFiles : RawFiles where
  toList := [
    (drsFile,
      "\x7b\"DRS\":\x7b\"directory_path_template\":\"\",\"filename_template\":\"\"\x7d\x7d".toUTF8),
    (activityFile, "\x7b\"activity_id\": \x7b\x7d\x7d".toUTF8),
    (institutionFile, "\x7b\"institution_id\": []\x7d".toUTF8),
    (licenseFile, "\x7b\"license\": \x7b\x7d\x7d".toUTF8),
    ("input4MIPs_readme.md", "x".toUTF8),
    ("input4MIPs_realm.json", "\x7b\x7d".toUTF8),
    (sourceFile, "\x7b\"source_id\": \x7b\x7d\x7d".toUTF8)]
  sorted := by decide

theorem areAccepted_sampleFiles : AreAccepted "cvs" sampleFiles :=
  exists_ofFiles?_iff.mp (Except.exists_eq_ok_of_isOk (by decide +kernel))

/-- The sample without the file that may be there. -/
def withoutRealms : RawFiles := sampleFiles.erase "input4MIPs_realm.json"

theorem areAccepted_withoutRealms : AreAccepted "cvs" withoutRealms := by
  refine areAccepted_sampleFiles.mono (fun file hf => ?_) fun file _ content h => ?_
  · have hne : file ≠ "input4MIPs_realm.json" := by
      rintro rfl
      revert hf
      decide
    rw [withoutRealms, Dict.get?_erase, if_neg hne]
  · rw [withoutRealms, Dict.get?_erase] at h
    split at h
    · cases h
    · exact h

theorem fingerprintBytes_inj_sample : ∃ v v', ofFiles? "cvs" sampleFiles = .ok v ∧
    ofFiles? "cvs" withoutRealms = .ok v' ∧ UnreadZeroFree sampleFiles ∧
    UnreadZeroFree withoutRealms ∧
    fingerprintBytes sampleFiles ≠ fingerprintBytes withoutRealms := by
  obtain ⟨v, hv⟩ := exists_ofFiles?_iff.mpr areAccepted_sampleFiles
  obtain ⟨v', hv'⟩ := exists_ofFiles?_iff.mpr areAccepted_withoutRealms
  have hall : ∀ e ∈ sampleFiles.toList, ZeroFree e := by decide +kernel
  have hz : UnreadZeroFree sampleFiles := fun e he _ => hall e he
  have hz' : UnreadZeroFree withoutRealms := fun e he _ => hall e (List.mem_filter.mp he).1
  refine ⟨v, v', hv, hv', hz, hz', fun h => ?_⟩
  have hget := congrArg (Dict.get? · "input4MIPs_realm.json") <|
    (fingerprintBytes_inj hv hv' hz hz').mp h
  rw [withoutRealms, Dict.get?_erase, if_pos rfl] at hget
  cases hget

/-! ### Files that take in others -/

/-- A file with the next one, name and content, written to its end. -/
def absorb (e next : String × ByteArray) : String × ByteArray :=
  (e.1, e.2 ++ [0].toByteArray ++ next.1.toUTF8 ++ [0].toByteArray ++ next.2)

section
variable {before after : List (String × ByteArray)} {e next : String × ByteArray}

theorem message_absorb :
    message (before ++ absorb e next :: after) = message (before ++ e :: next :: after) := by
  simp [message, absorb, ByteArray.toList_eq]

theorem mem_of_mem_absorb {x : String × ByteArray} (he : x.1 ≠ e.1)
    (h : x ∈ before ++ absorb e next :: after) : x ∈ before ++ e :: next :: after := by
  simp only [List.mem_append, List.mem_cons] at h ⊢
  rcases h with h | rfl | h
  · exact .inl h
  · exact absurd rfl he
  · exact .inr (.inr (.inr h))

theorem mem_absorb {x : String × ByteArray} (he : x.1 ≠ e.1) (hnext : x.1 ≠ next.1)
    (h : x ∈ before ++ e :: next :: after) : x ∈ before ++ absorb e next :: after := by
  simp only [List.mem_append, List.mem_cons] at h ⊢
  rcases h with h | rfl | rfl | h
  · exact .inl h
  · exact absurd rfl he
  · exact absurd rfl hnext
  · exact .inr (.inr h)

theorem sorted_absorb
    (h : (before ++ e :: next :: after).Pairwise fun a b => compare a.1 b.1 = .lt) :
    (before ++ absorb e next :: after).Pairwise fun a b => compare a.1 b.1 = .lt := by
  have hsub : (before ++ e :: after).Sublist (before ++ e :: next :: after) :=
    ((List.sublist_cons_self ..).cons_cons e).append_left before
  have hkeys : ((before ++ absorb e next :: after).map (·.1)).Pairwise (compare · · = .lt) := by
    simpa [absorb] using List.pairwise_map.mpr (h.sublist hsub)
  exact List.pairwise_map.mp hkeys

/-- A file that is not read can take in the file after it, if that is not required: these are other
files, they are accepted as well, and the message is the same. -/
theorem exists_same_fingerprintBytes (h : ofFiles? source files = .ok v)
    (hfiles : files.toList = before ++ e :: next :: after)
    (he : e.1 ∉ requiredFiles ++ optionalFiles) (hnext : next.1 ∉ requiredFiles) :
    ∃ files' v', ofFiles? source files' = .ok v' ∧ files' ≠ files ∧
      fingerprintBytes files' = fingerprintBytes files := by
  let files' : RawFiles := ⟨before ++ absorb e next :: after, sorted_absorb (hfiles ▸ files.sorted)⟩
  have ne {file : String} (hf : file ∈ requiredFiles ++ optionalFiles) : file ≠ e.1 :=
    fun heq => he (heq ▸ hf)
  have hget {file : String} (hf : file ∈ requiredFiles ++ optionalFiles) {content : ByteArray} :
      files'.get? file = some content → files.get? file = some content := by
    rw [← Dict.mem_toList, ← Dict.mem_toList, hfiles]
    exact mem_of_mem_absorb (ne hf)
  have hreq : ∀ file ∈ requiredFiles, files'.get? file = files.get? file := by
    intro file hf
    have hread := List.mem_append_left optionalFiles hf
    refine Option.ext fun content => ⟨hget hread, ?_⟩
    rw [← Dict.mem_toList, ← Dict.mem_toList, hfiles]
    exact mem_absorb (ne hread) fun heq => hnext (heq ▸ hf)
  obtain ⟨v', hv'⟩ := exists_ofFiles?_iff.mpr <| (exists_ofFiles?_iff.mp ⟨v, h⟩).mono hreq
    fun file hf _ => hget (List.mem_append_right requiredFiles hf)
  refine ⟨files', v', hv', fun heq => ?_, ?_⟩
  · have hlength := congrArg (fun d : RawFiles => d.toList.length) heq
    simp [files', hfiles] at hlength
  · rw [fingerprintBytes_eq, fingerprintBytes_eq, hfiles]
    exact message_absorb

example : ∃ files' v', ofFiles? "cvs" files' = .ok v' ∧ files' ≠ sampleFiles ∧
    fingerprintBytes files' = fingerprintBytes sampleFiles := by
  obtain ⟨v, hv⟩ := exists_ofFiles?_iff.mpr areAccepted_sampleFiles
  have hfiles : sampleFiles.toList = sampleFiles.toList.take 4 ++ _ :: _ :: [_] := rfl
  exact exists_same_fingerprintBytes hv hfiles (by decide) (by decide)

end

/-! ### Files of a source -/

section
variable {cvs : CvSource} {network : Network} {cache : Path} {force : Bool} {t t' : FileTree}

theorem mem_of_readFiles {wanted : List (String × Bool)} {files : RawFiles}
    (h : (readFiles cvs network cache force wanted).on t = (.ok files, t')) {file : String}
    {content : ByteArray} (hget : files.get? file = some content) : file ∈ wanted.map (·.1) := by
  rw [readFiles, Disk.on_bind] at h
  split at h
  · cases h
    rw [Dict.get?_ofList] at hget
    obtain ⟨e, he, -⟩ := Option.map_eq_some_iff.mp hget
    obtain ⟨⟨f, found⟩, hf, hcontent⟩ :=
      List.mem_filterMap.mp (List.mem_reverse.mp (List.mem_of_find?_eq_some he))
    obtain ⟨_, -, rfl⟩ := Option.map_eq_some_iff.mp hcontent
    obtain rfl : f.1 = file := by simpa using List.find?_some he
    exact List.mem_map_of_mem (List.of_mem_zip hf).1
  · cases h

theorem unreadZeroFree_of_load (h : (load cvs network cache force).on t = (.ok v, t')) :
    ∃ files, ofFiles? cvs.text files = .ok v ∧ UnreadZeroFree files := by
  rw [load, Disk.on_bind] at h
  split at h
  · rename_i files t₁ hread
    rw [Disk.on_ask] at h
    refine ⟨files, congrArg Prod.fst h, fun e he hunread => ?_⟩
    refine absurd ?_ hunread
    simpa [allFiles] using mem_of_readFiles hread (files.mem_toList.mp he)
  · cases h

end
end Vocabularies
end ForcingData
