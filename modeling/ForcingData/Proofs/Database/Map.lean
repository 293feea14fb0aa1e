import ForcingData.Proofs.Database.Revisions
import ForcingData.Proofs.FileTree.Find
import Mathlib.Data.List.Induction

/-! # A database as a map

After any upserts into an empty database an entry is found for every path that was upserted, and it
is the last one that was written for that path; reading all entries gives each of them once, in the
order of the paths. This takes no two of the paths to be hashed to one digest:
`Filled.faithful`. -/

namespace ForcingData

/-- What is stored if the entry is upserted where this is stored already. -/
def Entry.onto (e : Entry) : Option Entry → Entry
  | none => e
  | some existing => if existing.sameState e then existing else e.revise existing

namespace Database
open FileTree
variable {db : Database} {l : Location} {t t' : FileTree} {e : Entry} {es : List Entry}

/-- No two of the paths are hashed to the same digest. -/
def HashedApart (paths : List Path) : Prop :=
  ∀ p ∈ paths, ∀ q ∈ paths,
    Hash.sha256 p.text.toUTF8.toList = Hash.sha256 q.text.toUTF8.toList → p = q

theorem HashedApart.mono {paths paths' : List Path} (h : HashedApart paths')
    (hsub : paths ⊆ paths') : HashedApart paths :=
  fun p hp q hq => h p (hsub hp) q (hsub hq)

theorem HashedApart.recordName_inj {paths : List Path} (h : HashedApart paths) {p q : Path}
    (hp : p ∈ paths) (hq : q ∈ paths) (heq : recordName p = recordName q) : p = q := by
  refine h p hp q hq (Hash.Digest.hex_inj (String.toList_inj.mp ?_))
  have hnames := congrArg String.toList heq
  rw [recordName_toList, recordName_toList] at hnames
  exact List.append_cancel_right hnames

/-! ### Storing entries -/

/-- What was written last for each path, if the entries were upserted one after the other. -/
def written (es : List Entry) : Path → Option Entry :=
  es.foldl (fun m e => Function.update m e.path (some (e.onto (m e.path)))) fun _ => none

/-- The entries were upserted one after the other, each with success, into a database that was
empty; in between anything beside the records may have changed. -/
inductive Filled (db : Database) : List Entry → FileTree → Prop
  | empty {t : FileTree} (h : db.all t = .ok []) : Filled db [] t
  | outside {es : List Entry} {t t' : FileTree} (h : Filled db es t)
      (hsame : db.SameRecords t t') : Filled db es t'
  | upsert {es : List Entry} {t t' : FileTree} {e : Entry} {stored : Stored} (h : Filled db es t)
      (he : e.IsTimed) (hon : (db.upsert e).on t = (.ok stored, t')) : Filled db (es ++ [e]) t'

theorem written_concat (es : List Entry) (e : Entry) :
    written (es ++ [e]) = Function.update (written es) e.path (some (e.onto (written es e.path))) :=
  List.foldl_concat ..

theorem path_onto (e : Entry) {x : Option Entry} (hx : ∀ m, x = some m → m.path = e.path) :
    (e.onto x).path = e.path := by
  cases x with
  | none => rfl
  | some m =>
    show (if m.sameState e then m else e.revise m).path = e.path
    split
    · exact hx m rfl
    · rfl

theorem path_of_written : ∀ {p : Path}, written es p = some e → e.path = p := by
  induction es using List.reverseRecOn generalizing e with
  | nil => exact nofun
  | append_singleton es last ih =>
    intro p h
    rw [written_concat] at h
    by_cases hp : p = last.path
    · subst hp
      rw [Function.update_self, Option.some.injEq] at h
      rw [← h]
      exact path_onto last fun m hm => ih hm
    · rw [Function.update_of_ne hp] at h
      exact ih h

theorem written_isSome {p : Path} : (written es p).isSome = true ↔ p ∈ es.map (·.path) := by
  induction es using List.reverseRecOn with
  | nil => exact ⟨nofun, nofun⟩
  | append_singleton es e ih =>
    rw [written_concat, List.map_append, List.mem_append, ← ih]
    by_cases hp : p = e.path
    · subst hp
      simp
    · rw [Function.update_of_ne hp]
      simp [hp]

/-- A successful upsert writes one record at most, and changes no other. -/
theorem StoreInv.of_upsert (h : StoreInv db l t) (he : e.IsTimed) {stored : Stored}
    (hon : (db.upsert e).on t = (.ok stored, t')) :
    StoreInv db l t' ∧ ∀ p, db.get? t' p =
      if recordName p = recordName e.path then
        (db.get? t e.path).map fun x => some (e.onto x)
      else db.get? t p := by
  have hupserts := h.on_upsert e
  rw [hon] at hupserts
  cases hupserts with
  | created hnone hallowed =>
    refine ⟨h.withRecord he hallowed, fun p => ?_⟩
    rw [h.get?_withRecord he hallowed, hnone]
    rfl
  | @unchanged existing hsome hsame =>
    refine ⟨h, fun p => ?_⟩
    split
    · rename_i hp
      rw [get?_congr hp, hsome]
      simp only [Except.map, Entry.onto, hsame, if_true]
    · rfl
  | @updated existing hsome hchanged hallowed =>
    have htimed := (h.get?_eq_some.mp hsome).timed.revise he.timestamp
    refine ⟨h.withRecord htimed hallowed, fun p => ?_⟩
    rw [h.get?_withRecord htimed hallowed, hsome]
    simp only [Except.map, Entry.onto, hchanged, Bool.false_eq_true, if_false]
    rfl

theorem Filled.exists_storeInv (h : db.Filled es t) : ∃ l, StoreInv db l t := by
  induction h with
  | empty hall =>
    obtain ⟨l, hstore, _⟩ := exists_storeInv_of_all_nil hall
    exact ⟨l, hstore⟩
  | outside _ hsame ih =>
    obtain ⟨l, hstore⟩ := ih
    exact ⟨l, hstore.of_same hsame⟩
  | upsert _ he hon ih =>
    obtain ⟨l, hstore⟩ := ih
    exact ⟨l, (hstore.of_upsert he hon).1⟩

theorem Filled.get?_eq (h : db.Filled es t) : ∀ {p : Path},
    HashedApart (p :: es.map (·.path)) → db.get? t p = .ok (written es p) := by
  induction h with
  | empty hall =>
    intro p _
    obtain ⟨l, _, hnone⟩ := exists_storeInv_of_all_nil hall
    exact hnone p
  | outside h hsame ih =>
    intro p hp
    obtain ⟨l, hstore⟩ := h.exists_storeInv
    rw [hstore.get?_of_same hsame, ih hp]
  | @upsert es t t' e stored h he hon ih =>
    intro p hp
    obtain ⟨l, hstore⟩ := h.exists_storeInv
    have hbefore : es.map (·.path) ⊆ (es ++ [e]).map (·.path) := by simp
    have hmem : e.path ∈ (es ++ [e]).map (·.path) := by simp
    rw [(hstore.of_upsert he hon).2 p, written_concat]
    split
    · rename_i hname
      obtain rfl := hp.recordName_inj (List.mem_cons_self ..) (List.mem_cons_of_mem _ hmem) hname
      rw [Function.update_self,
        ih (hp.mono (List.cons_subset_cons _ hbefore))]
      rfl
    · rename_i hname
      have hne : p ≠ e.path := fun he => hname (he ▸ rfl)
      rw [Function.update_of_ne hne, ih (hp.mono (List.cons_subset_cons _ hbefore))]

theorem Filled.get?_upsert (h : db.Filled es t) (he : e.IsTimed) {p : Path}
    (hapart : HashedApart [p, e.path]) (hp : p ≠ e.path) :
    db.get? ((db.upsert e).on t).2 p = db.get? t p := by
  obtain ⟨l, hstore⟩ := h.exists_storeInv
  have hname : recordName p ≠ recordName e.path := fun hname =>
    hp (hapart.recordName_inj (by simp) (by simp) hname)
  have hupserts := hstore.on_upsert e
  cases hon : (db.upsert e).on t with
  | mk result t' =>
    cases result with
    | ok stored => rw [(hstore.of_upsert he hon).2 p, if_neg hname]
    | error err =>
      rw [hon] at hupserts
      cases hupserts
      rfl

/-! ### Temporary files -/

/-- A name that starts with its only dot, such as that of a temporary file, is no record's. -/
theorem not_isRecord_of_dot (db : Database) {name : String} (hname : IsNodeName name)
    {cs : List Char} (hcs : name.toList = '.' :: cs) (hdot : '.' ∉ cs) : ¬db.IsRecord name := by
  have hext : Path.extensionChars name.toList = none := hcs ▸ Path.extensionChars_of_dot hdot
  rw [IsRecord, Path.extension?_join _ hname.isName hname.not_here hname.not_up, hext]
  simp

/-- A temporary file that is left over makes no difference. -/
theorem Filled.leftOver (h : db.Filled es t) (hl : t.locate db.directory = .ok l) {name : String}
    (hname : IsNodeName name) {cs : List Char} (hcs : name.toList = '.' :: cs) (hdot : '.' ∉ cs)
    (hn : t.node? (l ++ [name]) = none) (content : ByteArray) :
    db.Filled es (t.put (l ++ [name]) (.file content)) := by
  obtain ⟨l', hstore⟩ := h.exists_storeInv
  obtain rfl : l' = l := Except.ok.inj (hstore.located.symm.trans hl)
  have hnil := ne_nil_of_node?_eq_none hn
  refine h.outside fun k hk => ?_
  obtain rfl : l' = k := Except.ok.inj (hl.symm.trans hk)
  obtain ⟨hlocated, hd⟩ := hstore.locate_put hn (.file content)
  refine ⟨hlocated, ?_, fun other hrecord => ?_⟩
  · rw [isDirectoryAt_iff.mp hd, isDirectoryAt_iff.mp hstore.isDirectory]
  · rw [node?_put t hnil, if_neg]
    intro heq
    obtain rfl : other = name := by simpa using heq
    exact db.not_isRecord_of_dot hname hcs hdot hrecord

/-! ### Reading all entries -/

theorem StoreInv.all_sorted (h : StoreInv db l t) {all : List Entry} (hall : db.all t = .ok all) :
    all.Pairwise (fun a b => compare a.path b.path ≠ .gt) ∧ (all.map (·.path)).Nodup := by
  obtain ⟨l', read, ⟨hl', -⟩, hread, rfl⟩ := all_eq_ok.mp hall
  obtain rfl : l = l' := Except.ok.inj (h.located.symm.trans hl')
  refine ⟨Path.pairwise_mergeSort _ read, ?_⟩
  -- the names of the records are different, and each tells the path of its entry
  rw [records, List.filter_map, Except.mapM_eq_ok, List.forall₂_map_left_iff] at hread
  set recordNames := (t.namesAt l).filter _
  have honce : recordNames.Nodup := (nodup_namesAt t l).filter _
  have hname : ∀ name ∈ recordNames, ∃ e, db.RecordAt l t name e := by
    intro name hmem
    obtain ⟨hmem, hrecord⟩ := List.mem_filter.mp hmem
    obtain ⟨n, hn⟩ := Option.isSome_iff_exists.mp (mem_namesAt.mp hmem)
    have hrecord : (db.directory.join ⟨name⟩).extension? = some "json" := of_decide_eq_true hrecord
    exact h.record name n hrecord hn
  have hsame : recordNames = read.map fun e => recordName e.path := by
    have hboth := (List.forall₂_and_left ..).mpr ⟨hname, hread⟩
    have heq := hboth.imp fun name e hmem => by
      obtain ⟨⟨e', he'⟩, hr⟩ := hmem
      rw [h.readRecord_eq he'] at hr
      cases hr
      exact he'.isName
    rwa [← List.forall₂_map_right_iff, List.forall₂_eq_eq_eq] at heq
  rw [hsame] at honce
  rw [sortByPath, ((read.mergeSort_perm entryLe).map _).nodup_iff]
  exact List.Nodup.of_map recordName (by rwa [List.map_map])

theorem Filled.mem_of_get? (h : db.Filled es t) : ∀ {p : Path} {e : Entry},
    db.get? t p = .ok (some e) → e.path ∈ es.map (·.path) := by
  induction h with
  | empty hall =>
    intro p e hget
    obtain ⟨_, _, hnone⟩ := exists_storeInv_of_all_nil hall
    rw [hnone p] at hget
    cases hget
  | outside h hsame ih =>
    intro p e hget
    obtain ⟨l, hstore⟩ := h.exists_storeInv
    exact ih ((hstore.get?_of_same hsame p).symm.trans hget)
  | @upsert es t t' last stored h he hon ih =>
    intro p e hget
    obtain ⟨l, hstore⟩ := h.exists_storeInv
    rw [List.map_append, List.mem_append]
    rw [(hstore.of_upsert he hon).2 p] at hget
    split at hget
    · -- what is stored for the last path comes from the entry there, or is the last one
      obtain ⟨x, hx⟩ := hstore.exists_get? last.path
      rw [hx] at hget
      obtain rfl := Option.some.inj (Except.ok.inj hget)
      cases x with
      | none => exact .inr (List.mem_singleton_self _)
      | some existing =>
        rw [Entry.onto]
        split
        · exact .inl (ih hx)
        · exact .inr (List.mem_singleton_self _)
    · exact .inl (ih hget)

theorem Filled.exists_all (h : db.Filled es t) (hapart : HashedApart (es.map (·.path))) :
    ∃ all, db.all t = .ok all ∧ all.Pairwise (fun a b => compare a.path b.path ≠ .gt) ∧
      (all.map (·.path)).Nodup ∧ ∀ e, e ∈ all ↔ written es e.path = some e := by
  obtain ⟨l, hstore⟩ := h.exists_storeInv
  obtain ⟨all, hall, hmem⟩ := hstore.exists_all
  obtain ⟨hsorted, honce⟩ := hstore.all_sorted hall
  have hwritten : ∀ p ∈ es.map (·.path), db.get? t p = .ok (written es p) := fun p hp =>
    h.get?_eq (hapart.mono (List.cons_subset.mpr ⟨hp, fun _ hq => hq⟩))
  refine ⟨all, hall, hsorted, honce, fun e => ?_⟩
  rw [hmem]
  constructor
  · intro hget
    rw [hwritten _ (h.mem_of_get? hget)] at hget
    exact Except.ok.inj hget
  · intro hlast
    rw [hwritten _ (written_isSome.mp (by rw [hlast]; rfl)), hlast]

theorem mem_map_path_of_written {all : List Entry}
    (hall : ∀ e, e ∈ all ↔ written es e.path = some e) {p : Path} :
    p ∈ all.map (·.path) ↔ p ∈ es.map (·.path) := by
  refine Iff.trans ?_ written_isSome
  rw [List.mem_map, Option.isSome_iff_exists]
  constructor
  · rintro ⟨e, he, rfl⟩
    exact ⟨e, (hall e).mp he⟩
  · rintro ⟨e, he⟩
    obtain rfl := path_of_written he
    exact ⟨e, (hall e).mpr he, rfl⟩

/-- The database is a map from paths to the entries that were written for them last. -/
theorem Filled.faithful (h : db.Filled es t) :
    (∀ p, HashedApart (p :: es.map (·.path)) → db.get? t p = .ok (written es p) ∧
      (written es p = none ↔ p ∉ es.map (·.path))) ∧
    (∀ e p, e.IsTimed → HashedApart [p, e.path] → p ≠ e.path →
      db.get? ((db.upsert e).on t).2 p = db.get? t p) ∧
    (HashedApart (es.map (·.path)) → ∃ all, db.all t = .ok all ∧
      all.Pairwise (fun a b => compare a.path b.path ≠ .gt) ∧ (all.map (·.path)).Nodup ∧
      (∀ p, p ∈ all.map (·.path) ↔ p ∈ es.map (·.path)) ∧
      ∀ e, e ∈ all ↔ written es e.path = some e) := by
  refine ⟨fun p hp => ⟨h.get?_eq hp, ?_⟩, fun e p he hapart hp => h.get?_upsert he hapart hp,
    fun hapart => ?_⟩
  · rw [← written_isSome]
    cases written es p <;> simp
  · obtain ⟨all, hall, hsorted, honce, hmem⟩ := h.exists_all hapart
    exact ⟨all, hall, hsorted, honce, fun p => mem_map_path_of_written hmem, hmem⟩

/-! ### A database of one file -/

/-- The last tree of the run above, with a temporary file that was left over. -/
def leftOverTree : FileTree :=
  secondTree.put (["db"] ++ [".tmp7"]) (.file (recordContent secondEntry))

theorem filled_sample : sampleDatabase.Filled [firstEntry, secondEntry] leftOverTree := by
  have hnothing : secondTree.node? (["db"] ++ [".tmp7"]) = none := by
    have hname : ".tmp7" ≠ recordName (secondEntry.revise firstEntry).path := fun he =>
      absurd (he ▸ length_recordName (secondEntry.revise firstEntry).path) (by decide)
    rw [secondTree, node?_withRecord, if_neg, nothing_firstTree (by decide)]
    simpa using hname
  have htimed : secondEntry.IsTimed :=
    ⟨isTimed_revised.timestamp, fun _ h => absurd h List.not_mem_nil⟩
  have hfilled := ((Filled.empty all_sampleTree).upsert isTimed_firstEntry
    on_upsert_firstEntry).upsert htimed on_upsert_secondEntry
  have hstore := storeInv_firstTree.withRecord isTimed_revised (allowed_sample _)
  have hdot : ".tmp7".toList = '.' :: ['t', 'm', 'p', '7'] := by decide
  exact hfilled.leftOver hstore.located (by decide) hdot (by decide) hnothing _

theorem faithful_sample :
    sampleDatabase.get? leftOverTree ⟨"/data/co2.nc"⟩ =
      .ok (some (secondEntry.revise firstEntry)) ∧
    sampleDatabase.get? leftOverTree ⟨"/data/ch4.nc"⟩ = .ok none ∧
    ∃ all, sampleDatabase.all leftOverTree = .ok all ∧
      all.map (·.path) = [⟨"/data/co2.nc"⟩] := by
  have hapart : HashedApart [⟨"/data/ch4.nc"⟩, ⟨"/data/co2.nc"⟩, ⟨"/data/co2.nc"⟩] := by
    unfold HashedApart
    decide +kernel
  have hpaths : [firstEntry, secondEntry].map (·.path) =
    [⟨"/data/co2.nc"⟩, ⟨"/data/co2.nc"⟩] := rfl
  obtain ⟨hget, _, hall⟩ := filled_sample.faithful
  rw [hpaths] at hget hall
  obtain ⟨all, hall, _, honce, hmem, _⟩ := hall (hapart.mono (List.subset_cons_self ..))
  refine ⟨?_, ?_, all, hall, ?_⟩
  · rw [(hget _ (hapart.mono (by simp))).1]
    decide +kernel
  · rw [(hget _ hapart).1]
    decide +kernel
  · refine List.perm_singleton.mp ((List.perm_ext_iff_of_nodup honce (by simp)).mpr fun p => ?_)
    rw [hmem]
    simp

end Database
end ForcingData
