import ForcingData.Proofs.Database.Commute
import ForcingData.Proofs.FileTree.DeadEnd
import ForcingData.Proofs.FileTree.Find
import ForcingData.Proofs.Time.Reading

/-! # What readers of a database see

A temporary file makes no difference to readers, whatever is in it (`get?_put_temporary`,
`all_put_temporary`). Where a record is replaced, they see this record and the others as before
(`get?_put_record`, `exists_all_put_record`). A link that is a record has to lead to a file. -/

namespace ForcingData

theorem Dict.filterMap_keys_insert {κ β γ : Type} [Ord κ] [Std.TransOrd κ] [Std.LawfulEqOrd κ]
    (d : Dict κ β) (k : κ) (v : β) {f : κ → Option γ} (hf : f k = none) :
    (d.insert k v).keys.filterMap f = d.keys.filterMap f := by
  show ((insertEntry k v d.toList).map (·.1)).filterMap f = (d.toList.map (·.1)).filterMap f
  induction d.toList with
  | nil => simp [insertEntry, hf]
  | cons e rest ih =>
    rw [insertEntry]
    split
    · rw [List.map_cons, List.filterMap_cons_none hf]
    · rfl
    · rw [List.map_cons, List.map_cons, List.filterMap_cons, List.filterMap_cons, ih]

theorem Except.mapM_eq_ok_congr {ε α β : Type} {f g : α → Except ε β} {l : List α} {r : List β}
    (h : ∀ a ∈ l, ∀ b, f a = .ok b ↔ g a = .ok b) : l.mapM f = .ok r ↔ l.mapM g = .ok r := by
  rw [mapM_eq_ok, mapM_eq_ok]
  have hmono {f g : α → Except ε β} (h : ∀ a ∈ l, ∀ b, f a = .ok b → g a = .ok b)
      (hall : List.Forall₂ (fun a b => f a = .ok b) l r) :
      List.Forall₂ (fun a b => g a = .ok b) l r :=
    ((List.forall₂_and_left ..).mpr ⟨h, hall⟩).imp fun a b hab => hab.1 b hab.2
  exact ⟨hmono fun a ha b => (h a ha b).mp, hmono fun a ha b => (h a ha b).mpr⟩

theorem Except.exists_of_mapM_eq_ok {ε α β : Type} {f : α → Except ε β} {l : List α} {r : List β}
    (h : l.mapM f = .ok r) : ∀ a ∈ l, ∃ b, f a = .ok b :=
  ((List.forall₂_and_left ..).mp ((mapM_eq_ok.mp h).imp fun _ b hb => ⟨⟨b, hb⟩, hb⟩)).1

/-! ### Entries that are read -/

namespace Json.Record
variable {r : Record} {name : String} {α : Type} {item? : Tree → Option α} {a b : α}

theorem exists_of_required (h : r.required name item? = some a) : ∃ t, item? t = some a := by
  obtain ⟨t, -, ht⟩ := Option.bind_eq_some_iff.mp h
  exact ⟨t, ht⟩

theorem exists_of_withDefault (h : r.withDefault name b item? = some a) :
    a = b ∨ ∃ t, item? t = some a := by
  rw [withDefault] at h
  split at h
  · exact .inr ⟨_, h⟩
  · exact .inl (Option.some.inj h).symm

end Json.Record

open Json

theorem isValid_of_instantUtc? {t : Tree} {time : Instant} (h : instantUtc? t = some time) :
    time.IsValid := by
  obtain ⟨s, -, hs⟩ := Option.bind_eq_some_iff.mp h
  exact Instant.isValid_of_parseUtc? hs

theorem HistoryItem.isValid_of_ofTree? {t : Tree} {item : HistoryItem}
    (h : HistoryItem.ofTree? t = some item) : item.timestamp.IsValid := by
  simp only [ofTree?, Option.bind_eq_bind, Option.bind_eq_some_iff] at h
  obtain ⟨_, _, _, _, time, htime, _, _, _, _, _, _, _, _, h⟩ := h
  cases h
  obtain ⟨t, ht⟩ := Record.exists_of_required htime
  exact isValid_of_instantUtc? ht

namespace Entry

theorem isTimed_of_ofTree? {t : Tree} {e : Entry} (h : Entry.ofTree? t = some e) :
    e.IsTimed := by
  rw [ofTree?] at h
  -- field by field; only two of them hold times
  obtain ⟨r, -, h⟩ := Option.bind_eq_some_iff.mp h
  obtain ⟨path, -, h⟩ := Option.bind_eq_some_iff.mp h
  obtain ⟨sha256, -, h⟩ := Option.bind_eq_some_iff.mp h
  obtain ⟨masterId, -, h⟩ := Option.bind_eq_some_iff.mp h
  obtain ⟨time, htime, h⟩ := Option.bind_eq_some_iff.mp h
  obtain ⟨status, -, h⟩ := Option.bind_eq_some_iff.mp h
  obtain ⟨metadata, -, h⟩ := Option.bind_eq_some_iff.mp h
  obtain ⟨attributes, -, h⟩ := Option.bind_eq_some_iff.mp h
  obtain ⟨version, -, h⟩ := Option.bind_eq_some_iff.mp h
  obtain ⟨findings, -, h⟩ := Option.bind_eq_some_iff.mp h
  obtain ⟨history, hhistory, h⟩ := Option.bind_eq_some_iff.mp h
  obtain ⟨revision, -, h⟩ := Option.bind_eq_some_iff.mp h
  obtain ⟨doi, -, h⟩ := Option.bind_eq_some_iff.mp h
  obtain ⟨comment, -, h⟩ := Option.bind_eq_some_iff.mp h
  obtain ⟨publication, -, h⟩ := Option.bind_eq_some_iff.mp h
  cases h
  obtain ⟨t, ht⟩ := Record.exists_of_required htime
  refine ⟨isValid_of_instantUtc? ht, ?_⟩
  rcases Record.exists_of_withDefault hhistory with rfl | ⟨t, ht⟩
  · exact fun _ hitem => absurd hitem List.not_mem_nil
  · cases t with
    | array items =>
      have hall := (Option.mapM_eq_some.mp ht).flip.imp fun item t h =>
        And.intro (HistoryItem.isValid_of_ofTree? h) h
      exact ((List.forall₂_and_left ..).mp hall).1
    | _ => cases ht

end Entry

namespace Database
open FileTree
variable {db : Database} {t : FileTree} {k : Location} {p : Path} {e new : Entry}
  {content : ByteArray} {name : String} {es : List Entry} {record : Path}

theorem readRecord_eq_ok : readRecord record t = .ok e ↔
    ∃ content, t.lookup record = .ok (.file content) ∧ entryOf? content = some e := by
  have hread : ∀ content, t.read record = .ok content ↔ t.lookup record = .ok (.file content) := by
    intro content
    rw [FileTree.read, Except.bind_eq_ok]
    constructor
    · rintro ⟨n, hn, h⟩
      cases n with
      | file content' =>
        cases h
        exact hn
      | directory | link => cases h
    · exact fun h => ⟨_, h, rfl⟩
  simp only [← hread, readRecord]
  cases t.read record with
  | error err => simp
  | ok content =>
    simp only [Except.ok.injEq, exists_eq_left', entryOf?]
    split
    · rename_i h
      rw [h, Except.ok.injEq, Option.some.injEq]
    · rename_i h
      simp [h]

theorem isTimed_of_readRecord (h : readRecord record t = .ok e) : e.IsTimed := by
  obtain ⟨_, -, h⟩ := readRecord_eq_ok.mp h
  obtain ⟨_, -, h⟩ := Option.bind_eq_some_iff.mp h
  exact Entry.isTimed_of_ofTree? h

theorem isTimed_of_get? (h : db.get? t p = .ok (some e)) : e.IsTimed := by
  rw [get?] at h
  split at h
  · cases hr : readRecord (db.recordPath p) t with
    | error err =>
      rw [hr] at h
      cases h
    | ok e' =>
      rw [hr] at h
      cases h
      exact isTimed_of_readRecord hr
  · cases h

theorem get?_of_lookup_iff {t' : FileTree} (h : ∀ n, t'.lookup (db.recordPath p) = .ok n ↔
    t.lookup (db.recordPath p) = .ok n) : db.get? t' p = db.get? t p := by
  cases hl : t.lookup (db.recordPath p) with
  | ok n => exact get?_of_lookup (((h n).mpr hl).trans hl.symm)
  | error err =>
    cases hl' : t'.lookup (db.recordPath p) with
    | ok n => cases hl.symm.trans ((h n).mp hl')
    | error err' => rw [get?_of_lookup_error hl, get?_of_lookup_error hl']

/-! ### Names of records -/

theorem isRecord_iff (db : Database) (hname : IsNodeName name) :
    db.IsRecord name ↔ Path.extensionChars name.toList = some ['j', 's', 'o', 'n'] := by
  have hjson : String.ofList ['j', 's', 'o', 'n'] = "json" := by decide
  rw [IsRecord, Path.extension?_join _ hname.isName hname.not_here hname.not_up,
    Option.map_eq_some_iff]
  constructor
  · rintro ⟨cs, hcs, htext⟩
    rw [hcs, String.ofList_injective (htext.trans hjson.symm)]
  · exact fun h => ⟨_, h, hjson⟩

theorem isNodeName_recordName (p : Path) : IsNodeName (recordName p) :=
  have hs := isStep_recordName p
  ⟨isName_recordName p, hs.not_here, hs.not_up⟩

/-- A name that files beside the records may have: not one of a record. -/
def IsBeside (name : String) : Prop :=
  Path.extensionChars name.toList ≠ some ['j', 's', 'o', 'n']

instance : DecidablePred IsBeside := fun name =>
  inferInstanceAs (Decidable (Path.extensionChars name.toList ≠ some ['j', 's', 'o', 'n']))

/-- A record that is a symbolic link leads to a file. -/
def LinksToFiles (db : Database) (t : FileTree) : Prop :=
  ∀ name, IsNodeName name → db.IsRecord name → ∀ k target,
    t.locateWith ⟨false, true⟩ (db.directory.join ⟨name⟩) = .ok k →
    t.node? k = some (.link target) → t.isFile (db.directory.join ⟨name⟩) = true

theorem exists?_of_isFile (h : t.isFile p = true) : t.exists? p = true := by
  rw [isFile] at h
  rw [exists?]
  cases hl : t.lookup p with
  | ok n => rfl
  | error e =>
    rw [hl] at h
    cases h

/-! ### A temporary file -/

section
variable (hlinks : db.LinksToFiles t) (hnothing : t.node? k = none) {temporary : String}
  (hlast : k.getLast? = some temporary) (hname : IsNodeName temporary)
  (hbeside : IsBeside temporary)
include hlinks hnothing hlast hname hbeside

theorem lookup_put_temporary (content : ByteArray) {name : String} (hname' : IsNodeName name)
    (hrecord : db.IsRecord name) (n : Node) :
    (t.put k (.file content)).lookup (db.directory.join ⟨name⟩) = .ok n ↔
      t.lookup (db.directory.join ⟨name⟩) = .ok n := by
  have hend := IsEnd.of_nothing hnothing
  refine (hend.lookup_put content _).resolve_left (fun hl => ?_) n
  obtain ⟨names, hsteps⟩ := exists_steps_join db.directory hname'.isName
  rcases last_or_link_of_put hsteps hend.ne_nil hname'.not_here hname'.not_up hl with
    hlast' | ⟨m, target, hm, hlink⟩
  · obtain rfl := Option.some.inj (hlast.symm.trans hlast')
    exact hbeside ((db.isRecord_iff hname).mp hrecord)
  · have hexists := exists?_of_isFile (hlinks name hname' hrecord m target hm hlink)
    rw [hend.not_exists_of_put hnothing hl] at hexists
    cases hexists

theorem get?_put_temporary (content : ByteArray) (p : Path) :
    db.get? (t.put k (.file content)) p = db.get? t p :=
  get?_of_lookup_iff fun n => lookup_put_temporary hlinks hnothing hlast hname hbeside content
    (isNodeName_recordName p) (db.isRecord_recordName p) n

omit hlinks hnothing in
theorem records_put_temporary (content : ByteArray) (l : Location) :
    db.records ((t.put k (.file content)).namesAt l) = db.records (t.namesAt l) := by
  have hrecords (t : FileTree) : db.records (t.namesAt l) = t.nodes.keys.filterMap fun k =>
      (Option.map (fun name => db.directory.join ⟨name⟩)
        (if k.dropLast = l then k.getLast? else none)).filter (·.extension? = some "json") := by
    rw [records, namesAt, List.map_filterMap, List.filter_filterMap]
  rw [hrecords, hrecords]
  refine Dict.filterMap_keys_insert _ _ _ ?_
  split
  · rw [hlast, Option.map_some, Option.filter_eq_none_iff]
    intro record hrecord
    obtain rfl := Option.some.inj hrecord
    simpa [IsRecord] using (db.isRecord_iff hname).not.mpr hbeside
  · rfl

theorem all_put_temporary (hnamed : t.IsNamed) (content : ByteArray) (es : List Entry) :
    db.all (t.put k (.file content)) = .ok es ↔ db.all t = .ok es := by
  rw [all_eq_ok, all_eq_ok]
  refine exists_congr fun l => exists_congr fun read => ?_
  rw [(IsEnd.of_nothing hnothing).locate_put_directory, records_put_temporary hlast hname hbeside]
  refine and_congr_right fun _ => and_congr_left fun _ => ?_
  refine Except.mapM_eq_ok_congr fun record hr x => ?_
  obtain ⟨name, hmem, hrecord, rfl⟩ := mem_records_iff.mp hr
  have hname' := isNodeName_of_mem_namesAt hnamed hmem
  simp only [readRecord_eq_ok,
    lookup_put_temporary hlinks hnothing hlast hname hbeside content hname' hrecord]

end

/-! ### A new record -/

theorem mem_records_put_record (db : Database) (t : FileTree) (l : Location) (p : Path) (n : Node)
    (record : Path) : record ∈ db.records ((t.put (l ++ [recordName p]) n).namesAt l) ↔
      record ∈ db.records (t.namesAt l) ∨ record = db.recordPath p := by
  have hnames : ∀ name, name ∈ (t.put (l ++ [recordName p]) n).namesAt l ↔
      name ∈ t.namesAt l ∨ name = recordName p := by
    intro name
    rw [mem_namesAt, mem_namesAt, node?_put t (by simp)]
    by_cases hname : name = recordName p
    · simp [hname]
    · simp [hname]
  simp only [mem_records_iff, hnames]
  constructor
  · rintro ⟨name, hname | rfl, hrecord, rfl⟩
    · exact .inl ⟨name, hname, hrecord, rfl⟩
    · exact .inr rfl
  · rintro (⟨name, hname, hrecord, rfl⟩ | rfl)
    · exact ⟨name, .inl hname, hrecord, rfl⟩
    · exact ⟨_, .inr rfl, db.isRecord_recordName p, rfl⟩

section
variable (hlinks : db.LinksToFiles t) (hk : db.place? t p = .ok k)
  (hd : t.node? k ≠ some .directory)
include hlinks hk hd

theorem isEnd_place : t.IsEnd k := by
  obtain ⟨names, hsteps⟩ := db.exists_steps_recordPath p
  exact .of_isFile hsteps (isStep_recordName p) hk hd fun target hlink =>
    hlinks _ (isNodeName_recordName p) (db.isRecord_recordName p) k target hk hlink

theorem get?_put_record_other (content : ByteArray) {q : Path}
    (hname : recordName q ≠ recordName p) (hlink : db.NotLinked t q) :
    db.get? (t.put k (.file content)) q = db.get? t q := by
  have hend := isEnd_place hlinks hk hd
  refine get?_of_lookup_iff ((hend.lookup_put content _).resolve_left fun hl => ?_)
  obtain ⟨names, hsteps⟩ := db.exists_steps_recordPath q
  have hs := isStep_recordName q
  rcases last_or_link_of_put hsteps hend.ne_nil hs.not_here hs.not_up hl with
    hlast | ⟨m, target, hm, htarget⟩
  · exact hname (Option.some.inj (hlast.symm.trans (getLast?_place hk)))
  · exact hlink m hm target htarget

theorem lookup_put_record_self (content : ByteArray) :
    (t.put k (.file content)).lookup (db.recordPath p) = .ok (.file content) := by
  have hend := isEnd_place hlinks hk hd
  obtain ⟨names, hsteps⟩ := db.exists_steps_recordPath p
  exact lookup_put_self hend.ne_nil (hend.locate_put_self hsteps (isStep_recordName p) hk _)

variable (hnew : new.IsTimed)
include hnew

theorem get?_put_record (q : Path) :
    db.get? (t.put k (.file (recordContent new))) q = db.get? t q ∨
      db.get? (t.put k (.file (recordContent new))) q = .ok (some new) := by
  have hend := isEnd_place hlinks hk hd
  rcases hend.lookup_put (recordContent new) (db.recordPath q) with hl | hsame
  · exact .inr (get?_of_lookup_record hnew (lookup_put_self hend.ne_nil hl))
  · exact .inl (get?_of_lookup_iff hsame)

/-- A record that can be read holds what it held before, or the new entry. -/
theorem readRecord_put_record (record : Path) :
    readRecord record (t.put k (.file (recordContent new))) = .ok new ∨
      ∀ x, readRecord record (t.put k (.file (recordContent new))) = .ok x ↔
        readRecord record t = .ok x := by
  have hend := isEnd_place hlinks hk hd
  rcases hend.lookup_put (recordContent new) record with hl | hsame
  · have hlookup := lookup_put_self hend.ne_nil hl
    exact .inl (readRecord_eq_ok.mpr ⟨_, hlookup, entryOf?_recordContent hnew⟩)
  · exact .inr fun x => by simp only [readRecord_eq_ok, hsame]

/-- All records can be read if they could be read before; none is lost, and the new one is there. -/
theorem exists_all_put_record (hall : db.all t = .ok es) :
    ∃ es', db.all (t.put k (.file (recordContent new))) = .ok es' ∧ new ∈ es' ∧
      (∀ x ∈ es', x = new ∨ x ∈ es) ∧
      ∀ x ∈ es, x ∈ es' ∨ ∃ record, readRecord record t = .ok x ∧
        readRecord record (t.put k (.file (recordContent new))) = .ok new := by
  have hend := isEnd_place hlinks hk hd
  have hread := readRecord_put_record hlinks hk hd hnew
  obtain ⟨l, read, hdir, hrecords, rfl⟩ := all_eq_ok.mp hall
  have hdir' := (hend.locate_put_directory (recordContent new)).mpr hdir
  obtain rfl : k = l ++ [recordName p] := Except.ok.inj
    (hk.symm.trans (place?_of_locate hdir.1 hdir.2 (locateWith_eq_ok.mp hk).1))
  have hself : readRecord (db.recordPath p)
      (t.put (l ++ [recordName p]) (.file (recordContent new))) = .ok new := by
    have hlookup := lookup_put_record_self hlinks hk hd (recordContent new)
    exact readRecord_eq_ok.mpr ⟨_, hlookup, entryOf?_recordContent hnew⟩
  have hmem := db.mem_records_put_record t l p (.file (recordContent new))
  generalize t.put (l ++ [recordName p]) (.file (recordContent new)) = t' at *
  -- every record can be read: it is the new one, or what it held is unchanged
  have hreadable : ∀ record ∈ db.records (t'.namesAt l), ∃ x, readRecord record t' = .ok x := by
    intro record hr
    rcases hread record with hnew' | hsame
    · exact ⟨new, hnew'⟩
    · rcases (hmem record).mp hr with hr | rfl
      · obtain ⟨x, hx⟩ := Except.exists_of_mapM_eq_ok hrecords record hr
        exact ⟨x, (hsame x).mpr hx⟩
      · exact ⟨new, hself⟩
  obtain ⟨read', hread'⟩ := Except.exists_mapM_eq_ok hreadable
  refine ⟨sortByPath read', all_eq_ok.mpr ⟨l, read', hdir', hread', rfl⟩, ?_, ?_, ?_⟩
  all_goals simp only [sortByPath, List.mem_mergeSort, Except.mem_of_mapM_eq_ok hread',
    Except.mem_of_mapM_eq_ok hrecords]
  · exact ⟨_, (hmem _).mpr (.inr rfl), hself⟩
  · rintro x ⟨record, hr, hx⟩
    rcases hread record with hnew' | hsame
    · exact .inl (Except.ok.inj (hx.symm.trans hnew'))
    · rcases (hmem record).mp hr with hr | rfl
      · exact .inr ⟨record, hr, (hsame x).mp hx⟩
      · exact .inl (Except.ok.inj (hx.symm.trans hself))
  · rintro x ⟨record, hr, hx⟩
    rcases hread record with hnew' | hsame
    · exact .inr ⟨record, hx, hnew'⟩
    · exact .inl ⟨record, (hmem _).mpr (.inl hr), (hsame x).mpr hx⟩

end

end Database
end ForcingData
