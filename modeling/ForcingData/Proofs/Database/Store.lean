import ForcingData.Database.Basic
import ForcingData.Proofs.Database.Record
import ForcingData.Proofs.FileTree.Inside
import ForcingData.Proofs.FileTree.Replace
import ForcingData.Proofs.Hash.Digest
import Mathlib.Data.String.Basic

/-! # Stored entries

What the directory of a database holds, as a map from record names to entries. `Holds` is kept by
`upsert`, and `on_upsert` says all that an upsert can do to the map. -/

namespace ForcingData

/-! ### Names of records -/

/-- A character that takes one byte and may stand in the name of a file. -/
def Path.isPlainChar (c : Char) : Bool := c.toNat ≤ 127 && c ≠ '/' && c ≠ '\x00'

namespace Hash

theorem isPlainChar_hexDigit (n : Nat) : Path.isPlainChar (hexDigit n) = true := by
  have h : ∀ m < 16, Path.isPlainChar ((Nat.toDigits 16 m).headD '0') = true := by decide
  exact h (n % 16) (Nat.mod_lt n (by decide))

theorem isPlainChar_of_mem_hexOfByte {b : UInt8} {c : Char} (h : c ∈ hexOfByte b) :
    Path.isPlainChar c = true := by
  rcases List.mem_cons.mp h with rfl | h
  · exact isPlainChar_hexDigit _
  · rw [List.mem_singleton.mp h]
    exact isPlainChar_hexDigit _

theorem Digest.isPlainChar_of_mem_hex {x : Digest} {c : Char} (h : c ∈ x.hex.toList) :
    Path.isPlainChar c = true := by
  rw [hex, String.toList_ofList] at h
  obtain ⟨w, _, h⟩ := List.mem_flatMap.mp h
  obtain ⟨b, _, h⟩ := List.mem_flatMap.mp h
  exact isPlainChar_of_mem_hexOfByte h

end Hash

namespace Database
open FileTree

theorem recordName_toList (p : Path) : (recordName p).toList =
    (Hash.sha256Hex p.text.toUTF8).toList ++ ['.', 'j', 's', 'o', 'n'] := by
  rw [recordName, String.toList_append]
  rfl

theorem length_recordName (p : Path) : (recordName p).toList.length = 69 := by
  rw [recordName_toList, List.length_append, Hash.sha256Hex, Hash.Digest.length_hex]
  rfl

theorem isPlainChar_of_mem_recordName {p : Path} {c : Char} (h : c ∈ (recordName p).toList) :
    Path.isPlainChar c = true := by
  rw [recordName_toList, List.mem_append] at h
  rcases h with h | h
  · exact Hash.Digest.isPlainChar_of_mem_hex h
  · have hall : ['.', 'j', 's', 'o', 'n'].all Path.isPlainChar = true := rfl
    exact List.all_eq_true.mp hall c h

theorem isName_recordName (p : Path) : Path.IsName (recordName p) := by
  refine ⟨fun he => ?_, fun hm => ?_⟩
  · have hlength := length_recordName p
    rw [he] at hlength
    simp at hlength
  · cases isPlainChar_of_mem_recordName hm

theorem utf8Len_of_forall : ∀ {cs : List Char}, (∀ c ∈ cs, Path.isPlainChar c = true) →
    String.utf8Len cs = cs.length
  | [], _ => rfl
  | c :: cs, h => by
    have hc := h c (List.mem_cons_self ..)
    simp only [Path.isPlainChar, Bool.and_eq_true, decide_eq_true_eq] at hc
    have hle : c.val ≤ 0x7F := by
      rw [UInt32.le_iff_toNat_le]
      exact hc.1.1
    have hsize : c.utf8Size = 1 := if_pos hle
    rw [String.utf8Len, hsize, utf8Len_of_forall fun d hd => h d (List.mem_cons_of_mem _ hd),
      List.length_cons]

theorem utf8ByteSize_recordName (p : Path) : (recordName p).utf8ByteSize = 69 := by
  rw [← String.utf8Len_toList, utf8Len_of_forall fun c hc => isPlainChar_of_mem_recordName hc,
    length_recordName]

theorem isStep_recordName (p : Path) : IsStep (recordName p) := by
  have hlength := length_recordName p
  refine ⟨fun he => ?_, fun he => ?_, ?_⟩
  · rw [he] at hlength
    simp at hlength
  · rw [he] at hlength
    simp at hlength
  · rw [utf8ByteSize_recordName]
    decide

theorem refused?_recordPath {db : Database} (hd : refused? db.directory = none)
    (hshort : db.directory.text.utf8ByteSize + 70 ≤ pathLimit) (p : Path) :
    refused? (db.recordPath p) = none := by
  refine refused?_join hd (isName_recordName p) (fun hm => ?_) ?_
  · cases isPlainChar_of_mem_recordName hm
  · rw [utf8ByteSize_recordName]
    exact hshort

/-! ### Records in the directory -/

/-- Is a file with this name in the directory taken for a record? -/
def IsRecord (db : Database) (name : String) : Prop :=
  (db.directory.join ⟨name⟩).extension? = some "json"

theorem isRecord_recordName (db : Database) (p : Path) : db.IsRecord (recordName p) := by
  have hs := isStep_recordName p
  have hchars : Path.extensionChars (recordName p).toList = some ['j', 's', 'o', 'n'] := by
    unfold Path.extensionChars
    have hlength := length_recordName p
    have hext : ((recordName p).toList.reverse.takeWhile (· != '.')).reverse =
        ['j', 's', 'o', 'n'] := by
      rw [recordName_toList, List.reverse_append]
      rfl
    simp only [hext]
    rw [if_neg (by simp only [List.length_cons, List.length_nil]; omega)]
  rw [IsRecord, Path.extension?_join _ (isName_recordName p) hs.not_here hs.not_up, hchars]
  rfl

theorem all_eq_ok {db : Database} {t : FileTree} {es : List Entry} : db.all t = .ok es ↔ ∃ l read,
    (t.locate db.directory = .ok l ∧ t.isDirectoryAt l = true) ∧
      (db.records (t.namesAt l)).mapM (readRecord · t) = .ok read ∧ sortByPath read = es := by
  rw [all, Except.bind_eq_ok]
  constructor
  · rintro ⟨names, hnames, h⟩
    obtain ⟨read, hread, h⟩ := Except.bind_eq_ok.mp h
    have hsorted : sortByPath read = es := Except.pure_eq_ok.mp h
    cases hn : t.names db.directory with
    | error err =>
      rw [hn] at hnames
      cases hnames
    | ok names' =>
      rw [hn] at hnames
      cases hnames
      obtain ⟨l, hl, hd, rfl⟩ := exists_of_names_eq_ok hn
      exact ⟨l, read, ⟨hl, hd⟩, hread, hsorted⟩
  · rintro ⟨l, read, ⟨hl, hd⟩, hread, hsorted⟩
    refine ⟨t.namesAt l, by rw [names_eq_ok hl hd]; rfl, ?_⟩
    exact Except.bind_eq_ok.mpr ⟨read, hread, Except.pure_eq_ok.mpr hsorted⟩

theorem mem_records_iff {db : Database} {names : List String} {record : Path} :
    record ∈ db.records names ↔
      ∃ name ∈ names, db.IsRecord name ∧ record = db.directory.join ⟨name⟩ := by
  simp only [records, List.mem_filter, List.mem_map, decide_eq_true_eq]
  constructor
  · rintro ⟨⟨name, hname, rfl⟩, hrecord⟩
    exact ⟨name, hname, hrecord, rfl⟩
  · rintro ⟨name, hname, hrecord, rfl⟩
    exact ⟨⟨name, hname, rfl⟩, hrecord⟩

/-- The file with this name is the record of the entry. -/
structure RecordAt (db : Database) (l : Location) (t : FileTree) (name : String) (e : Entry) :
    Prop where
  node : t.node? (l ++ [name]) = some (.file (recordContent e))
  isName : name = recordName e.path
  timed : e.IsTimed
  allowed : refused? (db.directory.join ⟨name⟩) = none

/-- The directory is at the location, and what is taken for a record there is one. -/
structure StoreInv (db : Database) (l : Location) (t : FileTree) : Prop where
  located : t.locate db.directory = .ok l
  isDirectory : t.isDirectoryAt l = true
  record : ∀ name n, db.IsRecord name → t.node? (l ++ [name]) = some n →
    ∃ e, db.RecordAt l t name e

section
variable {db : Database} {l : Location} {t : FileTree} {name : String} {e : Entry}

namespace StoreInv
variable (h : StoreInv db l t)
include h

theorem readRecord_eq (hr : db.RecordAt l t name e) :
    readRecord (db.directory.join ⟨name⟩) t = .ok e := by
  have hname : Path.IsName name := hr.isName ▸ isName_recordName _
  have hstep : IsStep name := hr.isName ▸ isStep_recordName _
  have hread := read_join h.located h.isDirectory hname hstep hr.allowed hr.node
  have he := entryOf?_recordContent hr.timed
  unfold entryOf? at he
  rw [readRecord, hread]
  simp only [he]

theorem get?_of_recordAt {p : Path} (hr : db.RecordAt l t (recordName p) e) :
    db.get? t p = .ok (some e) := by
  have hexists : t.exists? (db.recordPath p) = true :=
    exists?_join h.located h.isDirectory (isName_recordName p) (isStep_recordName p) hr.allowed
      hr.node
  rw [get?]
  simp only [hexists, if_true]
  rw [recordPath, h.readRecord_eq hr]
  rfl

theorem get?_of_nothing {p : Path} (hn : t.node? (l ++ [recordName p]) = none) :
    db.get? t p = .ok none := by
  have hexists : t.exists? (db.recordPath p) = false :=
    exists?_join_nothing h.located h.isDirectory (isName_recordName p) (isStep_recordName p) hn
  rw [get?]
  simp only [hexists]
  rfl

theorem get?_cases (p : Path) :
    t.node? (l ++ [recordName p]) = none ∧ db.get? t p = .ok none ∨
      ∃ e, db.RecordAt l t (recordName p) e ∧ db.get? t p = .ok (some e) := by
  cases hn : t.node? (l ++ [recordName p]) with
  | none => exact .inl ⟨rfl, h.get?_of_nothing hn⟩
  | some n =>
    obtain ⟨e, he⟩ := h.record _ n (db.isRecord_recordName p) hn
    exact .inr ⟨e, he, h.get?_of_recordAt he⟩

theorem get?_eq_some {p : Path} :
    db.get? t p = .ok (some e) ↔ db.RecordAt l t (recordName p) e := by
  refine ⟨fun hget => ?_, h.get?_of_recordAt⟩
  rcases h.get?_cases p with ⟨_, hnone⟩ | ⟨e', he', hsome⟩
  · rw [hget] at hnone
    cases hnone
  · rw [hget] at hsome
    cases hsome
    exact he'

theorem mem_records {record : Path} : record ∈ db.records (t.namesAt l) ↔
    ∃ name e, db.RecordAt l t name e ∧ record = db.directory.join ⟨name⟩ := by
  rw [mem_records_iff]
  constructor
  · rintro ⟨name, hname, hrecord, rfl⟩
    obtain ⟨n, hn⟩ := Option.isSome_iff_exists.mp (mem_namesAt.mp hname)
    obtain ⟨e, he⟩ := h.record name n hrecord hn
    exact ⟨name, e, he, rfl⟩
  · rintro ⟨name, e, he, rfl⟩
    refine ⟨name, mem_namesAt_of_node he.node, ?_, rfl⟩
    exact he.isName ▸ db.isRecord_recordName _

theorem exists_all : ∃ es, db.all t = .ok es ∧
    ∀ e, e ∈ es ↔ db.get? t e.path = .ok (some e) := by
  have hread : ∀ record ∈ db.records (t.namesAt l), ∃ e, readRecord record t = .ok e := by
    intro record hrecord
    obtain ⟨name, e, he, rfl⟩ := h.mem_records.mp hrecord
    exact ⟨e, h.readRecord_eq he⟩
  obtain ⟨es, hes⟩ := Except.exists_mapM_eq_ok hread
  have hall := all_eq_ok.mpr ⟨l, es, ⟨h.located, h.isDirectory⟩, hes, rfl⟩
  refine ⟨sortByPath es, hall, fun e => ?_⟩
  rw [sortByPath, List.mem_mergeSort, Except.mem_of_mapM_eq_ok hes, h.get?_eq_some]
  constructor
  · rintro ⟨record, hrecord, hr⟩
    obtain ⟨name, e', he', rfl⟩ := h.mem_records.mp hrecord
    rw [h.readRecord_eq he'] at hr
    cases hr
    exact he'.isName ▸ he'
  · intro he
    exact ⟨_, h.mem_records.mpr ⟨_, e, he, rfl⟩, h.readRecord_eq he⟩

end StoreInv

theorem exists_storeInv_of_all_nil (h : db.all t = .ok []) :
    ∃ l, StoreInv db l t ∧ ∀ p, db.get? t p = .ok none := by
  obtain ⟨l, es, ⟨hl, hd⟩, hes, hsorted⟩ := all_eq_ok.mp h
  have hnil : es = [] := by
    have hlength := congrArg List.length hsorted
    rwa [sortByPath, List.length_mergeSort, List.length_nil, List.length_eq_zero_iff] at hlength
  subst hnil
  have hrecords : db.records (t.namesAt l) = [] :=
    List.forall₂_nil_right_iff.mp (Except.mapM_eq_ok.mp hes)
  have hnone : ∀ name n, db.IsRecord name → t.node? (l ++ [name]) ≠ some n := by
    intro name n hrecord hn
    have hname : name ∈ t.namesAt l := mem_namesAt_of_node hn
    have hmem := mem_records_iff.mpr ⟨name, hname, hrecord, rfl⟩
    rw [hrecords] at hmem
    cases hmem
  have hinv : StoreInv db l t := ⟨hl, hd, fun name n hr hn => absurd hn (hnone name n hr)⟩
  refine ⟨l, hinv, fun p => hinv.get?_of_nothing ?_⟩
  cases hn : t.node? (l ++ [recordName p]) with
  | none => rfl
  | some n => exact absurd hn (hnone _ n (db.isRecord_recordName p))

/-! ### Writing a record -/

/-- The tree with the record of an entry in it. -/
def withRecord (l : Location) (t : FileTree) (e : Entry) : FileTree :=
  t.put (l ++ [recordName e.path]) (.file (recordContent e))

theorem node?_withRecord (e : Entry) (k : Location) : (withRecord l t e).node? k =
    if k = l ++ [recordName e.path] then some (.file (recordContent e)) else t.node? k :=
  node?_put t (by simp) _ k

namespace StoreInv
variable (h : StoreInv db l t)
include h

/-- Where a record is written, there is no directory and no link. -/
theorem node?_recordName {p : Path} {n : Node} (hn : t.node? (l ++ [recordName p]) = some n) :
    ∃ content, n = .file content := by
  obtain ⟨e, he⟩ := h.record _ n (db.isRecord_recordName p) hn
  rw [he.node] at hn
  exact ⟨_, (Option.some.inj hn).symm⟩

theorem withRecord (he : e.IsTimed) (hallowed : refused? (db.recordPath e.path) = none) :
    StoreInv db l (withRecord l t e) where
  located := by
    obtain ⟨hrefused, hleads⟩ := locateWith_eq_ok.mp h.located
    refine locateWith_eq_ok.mpr ⟨hrefused, hleads.of_keeps (fun k n hn hfile => ?_) rfl
      h.isDirectory⟩
    rw [node?_withRecord]
    split
    · rename_i hk
      subst hk
      obtain ⟨content, rfl⟩ := h.node?_recordName hn
      exact absurd rfl (hfile content)
    · exact hn
  isDirectory := by
    rw [isDirectoryAt_iff, node?_withRecord, if_neg (by simp)]
    exact isDirectoryAt_iff.mp h.isDirectory
  record := by
    intro name n hrecord hn
    rw [node?_withRecord] at hn
    split at hn
    · rename_i hk
      obtain rfl : name = recordName e.path := by simpa using hk
      exact ⟨e, by rw [node?_withRecord, if_pos rfl], rfl, he, hallowed⟩
    · rename_i hk
      obtain ⟨e', he'⟩ := h.record name n hrecord hn
      exact ⟨e', by rw [node?_withRecord, if_neg hk, he'.node], he'.isName, he'.timed, he'.allowed⟩

theorem get?_withRecord (he : e.IsTimed) (hallowed : refused? (db.recordPath e.path) = none)
    (p : Path) : db.get? (Database.withRecord l t e) p =
      if recordName p = recordName e.path then .ok (some e) else db.get? t p := by
  have h' := h.withRecord he hallowed
  split
  · rename_i hp
    refine h'.get?_of_recordAt ⟨?_, hp, he, ?_⟩
    · rw [node?_withRecord, hp, if_pos rfl]
    · rw [hp]
      exact hallowed
  · rename_i hp
    have hk : l ++ [recordName p] ≠ l ++ [recordName e.path] := by simpa using hp
    rcases h.get?_cases p with ⟨hn, hget⟩ | ⟨e', he', hget⟩
    · rw [hget]
      refine h'.get?_of_nothing ?_
      rw [node?_withRecord, if_neg hk, hn]
    · rw [hget]
      refine h'.get?_of_recordAt ⟨?_, he'.isName, he'.timed, he'.allowed⟩
      rw [node?_withRecord, if_neg hk, he'.node]

theorem node?_put_recordName {k : Location} (hk : t.node? k = none) {content : ByteArray}
    {p : Path} {n : Node} (hn : (t.put k (.file content)).node? (l ++ [recordName p]) = some n) :
    ∃ content, n = .file content := by
  rw [node?_put t (ne_nil_of_node?_eq_none hk)] at hn
  split at hn
  · exact ⟨content, (Option.some.inj hn).symm⟩
  · exact h.node?_recordName hn

theorem locate_put {k : Location} (hk : t.node? k = none) (n : Node) :
    (t.put k n).locate db.directory = .ok l ∧ (t.put k n).isDirectoryAt l = true := by
  have hne : l ≠ k := by
    rintro rfl
    have hd := isDirectoryAt_iff.mp h.isDirectory
    rw [hk] at hd
    cases hd
  refine ⟨?_, ?_⟩
  · obtain ⟨hrefused, hleads⟩ := locateWith_eq_ok.mp h.located
    exact locateWith_eq_ok.mpr ⟨hrefused, hleads.put_other hk _ hne⟩
  · rw [isDirectoryAt_iff, node?_put t (ne_nil_of_node?_eq_none hk), if_neg hne]
    exact isDirectoryAt_iff.mp h.isDirectory

/-- A record is where its path says, also while there is a temporary file. -/
theorem locateWith_recordPath {k : Location} (hk : t.node? k = none) (content : ByteArray)
    {p : Path} (hallowed : refused? (db.recordPath p) = none) :
    (t.put k (.file content)).locateWith ⟨false, true⟩ (db.recordPath p) =
      .ok (l ++ [recordName p]) := by
  obtain ⟨hlocated, hd⟩ := h.locate_put hk (.file content)
  have hname := isName_recordName p
  have hstep := isStep_recordName p
  rw [recordPath] at hallowed ⊢
  cases hn : (t.put k (.file content)).node? (l ++ [recordName p]) with
  | none =>
    rw [locateWith_join_nothing hlocated hd hname hstep hallowed hn]
    rfl
  | some n =>
    obtain ⟨_, rfl⟩ := h.node?_put_recordName hk hn
    exact locateWith_join_node hlocated hd hname hstep hallowed hn nofun _

/-- A record is written as a whole or not at all. -/
theorem on_writeRecord (e : Entry) :
    (∃ err, (db.writeRecord e).on t = (.error err, t)) ∨
      refused? (db.recordPath e.path) = none ∧
        (db.writeRecord e).on t = (.ok (), Database.withRecord l t e) := by
  rw [writeRecord]
  simp only [Disk.on_withError]
  rcases on_replace t (db.recordPath e.path) (recordContent e) with
    ⟨err, herr⟩ | ⟨k, target, hk, hfound, hok⟩
  · rw [herr]
    exact .inl ⟨_, rfl⟩
  · have hallowed := (locateWith_eq_ok.mp hfound).1
    rw [h.locateWith_recordPath hk _ hallowed] at hfound
    obtain rfl := Except.ok.inj hfound
    rw [hok]
    exact .inr ⟨hallowed, rfl⟩

/-- A record is written where no temporary file is left over and no path is too long. -/
theorem on_writeRecord_eq_ok (hroot : directoryOf (db.recordPath e.path) = db.directory)
    (hshort : db.directory.text.utf8ByteSize + 70 ≤ pathLimit)
    (hfree : t.node? (l ++ [".tmp0"]) = none) :
    (db.writeRecord e).on t = (.ok (), Database.withRecord l t e) := by
  have hname : Path.IsName ".tmp0" := ⟨by decide, by decide⟩
  have hstep : IsStep ".tmp0" := ⟨by decide, by decide, by decide⟩
  have hdirectory := (locateWith_eq_ok.mp h.located).1
  have hallowed := refused?_recordPath hdirectory hshort e.path
  have htemporary : t.freeLocation ((directoryOf (db.recordPath e.path)).join ⟨".tmp0"⟩) =
      .ok (l ++ [".tmp0"]) := by
    rw [hroot]
    refine freeLocation_eq_ok.mpr ⟨?_, hfree⟩
    rw [locateWith_join_nothing h.located h.isDirectory hname hstep ?_ hfree]
    · rfl
    · refine refused?_join hdirectory hname (by decide) (Nat.le_trans ?_ hshort)
      rw [show ".tmp0".utf8ByteSize = 5 by decide]
      omega
  -- the rename finds the place of the record, and no directory is there
  have hfound := h.locateWith_recordPath hfree (recordContent e) hallowed
  have hnode : (t.put (l ++ [".tmp0"]) (.file (recordContent e))).isDirectoryAt
      (l ++ [recordName e.path]) = false := by
    rw [Bool.eq_false_iff, Ne, isDirectoryAt_iff]
    intro hd
    obtain ⟨_, hfile⟩ := h.node?_put_recordName hfree hd
    cases hfile
  rw [writeRecord]
  simp only [Disk.on_withError]
  rw [on_replace_eq_ok htemporary hfound hnode]
  rfl

end StoreInv

/-! ### Storing an entry -/

/-- What storing an entry can do. -/
inductive Upserts (db : Database) (l : Location) (t : FileTree) (e : Entry) :
    Except DatabaseError Stored × FileTree → Prop
  | failed (err : DatabaseError) : Upserts db l t e (.error err, t)
  | created (hnone : db.get? t e.path = .ok none)
      (hallowed : refused? (db.recordPath e.path) = none) :
      Upserts db l t e (.ok .created, withRecord l t e)
  | unchanged {existing : Entry} (hsome : db.get? t e.path = .ok (some existing))
      (hsame : existing.sameState e = true) : Upserts db l t e (.ok .unchanged, t)
  | updated {existing : Entry} (hsome : db.get? t e.path = .ok (some existing))
      (hchanged : existing.sameState e = false)
      (hallowed : refused? (db.recordPath e.path) = none) :
      Upserts db l t e (.ok .updated, withRecord l t (e.revise existing))

theorem on_upsert_of_none (hnone : db.get? t e.path = .ok none) : (db.upsert e).on t =
    (((db.writeRecord e).on t).1.map fun _ => .created, ((db.writeRecord e).on t).2) := by
  rw [upsert, Disk.on_bind, Disk.on_ask]
  simp only [hnone]
  rw [Disk.on_bind]
  rcases (db.writeRecord e).on t with ⟨_ | _, t'⟩ <;> rfl

theorem on_upsert_of_changed {existing : Entry} (hsome : db.get? t e.path = .ok (some existing))
    (hchanged : existing.sameState e = false) : (db.upsert e).on t =
    (((db.writeRecord (e.revise existing)).on t).1.map fun _ => .updated,
      ((db.writeRecord (e.revise existing)).on t).2) := by
  rw [upsert, Disk.on_bind, Disk.on_ask]
  simp only [hsome, hchanged, Bool.false_eq_true, if_false]
  rw [Disk.on_bind]
  rcases (db.writeRecord (e.revise existing)).on t with ⟨_ | _, t'⟩ <;> rfl

theorem StoreInv.on_upsert (h : StoreInv db l t) (e : Entry) :
    Upserts db l t e ((db.upsert e).on t) := by
  rcases h.get?_cases e.path with ⟨_, hnone⟩ | ⟨existing, _, hsome⟩
  · rw [on_upsert_of_none hnone]
    rcases h.on_writeRecord e with ⟨err, hw⟩ | ⟨hallowed, hw⟩
    · rw [hw]
      exact .failed err
    · rw [hw]
      exact .created hnone hallowed
  · cases hsame : existing.sameState e with
    | true =>
      rw [upsert, Disk.on_bind, Disk.on_ask]
      simp only [hsome, hsame, if_true]
      exact .unchanged hsome hsame
    | false =>
      rw [on_upsert_of_changed hsome hsame]
      rcases h.on_writeRecord (e.revise existing) with ⟨err, hw⟩ | ⟨hallowed, hw⟩
      · rw [hw]
        exact .failed err
      · rw [hw]
        exact .updated hsome hsame hallowed

end

end Database
end ForcingData
