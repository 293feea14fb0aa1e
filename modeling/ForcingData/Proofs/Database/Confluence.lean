import ForcingData.Proofs.Database.Map
import ForcingData.Proofs.Database.Writing

/-! # Making many entries at once

An entry is made of the tree as it is when its turn comes. Where no entry depends on the records of
the others, and no record is a link, the entries commute, so that all runs of the pool end in the
same database: `writeEntries_confluent`. -/

namespace ForcingData.EntryContext
open Database FileTree Pool

variable {c : EntryContext} {db : Database} {t t' : FileTree} {path : Path} {e : Entry}
  {paths order : List Path} {counts counts' : Counts}

/-! ### Files that are independent of each other -/

/-- The records of the files are different files, and no entry is made of a record. -/
structure Independent (c : EntryContext) (db : Database) (t : FileTree) (paths : List Path) :
    Prop where
  distinct : paths.Nodup
  hashed : HashedApart paths
  notLinked : ∀ path ∈ paths, db.NotLinked t path
  undisturbed : ∀ path ∈ paths, ∀ t', Beside (db.Places t paths) t t' →
    c.createOrFail t' path = c.createOrFail t path

namespace Independent
variable (h : c.Independent db t paths)
include h

theorem apart : db.Apart t paths :=
  ⟨h.distinct.map_on fun _ hp _ hq => h.hashed.recordName_inj hp hq, h.notLinked⟩

theorem entryFor_eq (hmem : path ∈ paths) (hb : Beside (db.Places t paths) t t') :
    c.entryFor t' path = c.entryFor t path := by
  rw [entryFor, entryFor, h.undisturbed path hmem t' hb]

theorem entries_eq {calls : List (Path × Entry)} (hcalls : Calls c db paths t calls) :
    calls.map (·.2) = (calls.map (·.1)).map (c.entryFor t) := by
  rw [List.map_map]
  refine List.map_congr_left fun call hmem => ?_
  obtain ⟨seen, hseen, hmade⟩ := hcalls.made call.1 call.2 hmem
  have hsub : (seen.map (·.path)).Subperm paths :=
    ((hcalls.paths_eq ▸ hseen.sublist.map _).subperm).trans hcalls.once
  have hb := beside_of_upsertAll ∅ (h.apart.of_subperm hsub)
  have hmem := hcalls.once.subset (List.mem_map_of_mem hmem)
  show call.2 = c.entryFor t call.1
  rw [hmade]
  exact h.entryFor_eq hmem (hb.mono fun k ⟨p, hp, hk⟩ => ⟨p, hsub.subset hp, hk⟩)

theorem on_writeInTurn (hb : Beside (db.Places t paths) t t') (hsub : order ⊆ paths) :
    (c.writeInTurn db counts order).on t' =
      (db.upsertAll counts (order.map (c.entryFor t))).on t' := by
  induction order generalizing t' counts with
  | nil => rfl
  | cons path order ih =>
    obtain ⟨hmem, hsub⟩ := List.cons_subset.mp hsub
    rw [writeInTurn, Disk.on_bind, Disk.on_get, List.map_cons, on_upsertAll_cons]
    simp only
    rw [Disk.on_bind, h.entryFor_eq hmem hb]
    rcases hon : (db.upsert (c.entryFor t path)).on t' with ⟨failure | stored, t₁⟩
    · rfl
    · refine ih (hb.trans ?_) hsub
      have hlink : db.NotLinked t' (c.entryFor t path).path := by
        rw [path_entryFor]
        exact (h.notLinked path hmem).beside hb
      refine (beside_of_upsert hlink hon).mono ?_
      rintro k ⟨p, hp, hk⟩
      rw [path_entryFor, List.mem_singleton] at hp
      exact ⟨path, hmem, (place?_beside hb).mp (hp ▸ hk)⟩

theorem apart_entries (hsub : order.Subperm paths) :
    db.Apart t ((order.map (c.entryFor t)).map (·.path)) := by
  rw [map_path_entryFor]
  exact h.apart.of_subperm hsub

/-- The entries may be stored in any order. -/
theorem on_upsertAll_order
    (hon : (db.upsertAll counts (paths.map (c.entryFor t))).on t = (.ok counts', t'))
    (horder : order.Perm paths) :
    (db.upsertAll counts (order.map (c.entryFor t))).on t = (.ok counts', t') :=
  on_upsertAll_perm (horder.symm.map _) (h.apart_entries (.refl paths)) hon

theorem not_error (hon : (db.upsertAll ∅ (paths.map (c.entryFor t))).on t = (.ok counts, t'))
    {calls : List (Path × Entry)} (hcalls : Calls c db paths t calls) {failure : DatabaseError}
    {t₁ : FileTree} : (db.upsertAll ∅ (calls.map (·.2))).on t ≠ (.error failure, t₁) := by
  intro herror
  obtain ⟨before, failing, after, counts₁, hsplit, hbefore, hfailing⟩ :=
    on_upsertAll_eq_error.mp herror
  obtain ⟨called, hperm, hsublist⟩ := hcalls.once
  obtain ⟨rest, hrest⟩ := hsublist.exists_perm_append
  have horder : (calls.map (·.1) ++ rest).Perm paths :=
    ((hperm.append_right rest).symm.trans hrest.symm)
  have hall := h.on_upsertAll_order hon horder
  rw [List.map_append, ← h.entries_eq hcalls, hsplit, List.append_assoc, List.cons_append] at hall
  rw [on_upsertAll_eq_error.mpr ⟨before, failing, _, counts₁, rfl, hbefore, hfailing⟩] at hall
  cases hall

/-- What is found for a file afterwards is what its own entry alone would have made of it. -/
theorem get?_of_upsertAll
    (hon : (db.upsertAll ∅ (paths.map (c.entryFor t))).on t = (.ok counts, t'))
    (hmem : path ∈ paths) : ∃ stored t₁,
      (db.upsert (c.entryFor t path)).on t = (.ok stored, t₁) ∧
        db.get? t' path = db.get? t₁ path := by
  have hperm := List.perm_cons_erase hmem
  have hall := h.on_upsertAll_order hon hperm.symm
  rw [List.map_cons] at hall
  obtain ⟨stored, t₁, hfirst, hrest⟩ := on_upsertAll_cons_eq_ok.mp hall
  have hlink := h.notLinked path hmem
  obtain ⟨k, w, heffect, rfl⟩ :=
    exists_effect ((path_entryFor c t path).symm ▸ hlink) hfirst
  have hplace : db.place? t path = .ok k := path_entryFor c t path ▸ heffect.place
  have hb := beside_withContent heffect.plain w
  have hapart : db.Apart (withContent t k w) (path :: paths.erase path) :=
    (h.apart.of_subperm hperm.symm.subperm).beside hb
  have hplace₁ := (place?_beside hb).mpr hplace
  have hentries := ((h.apart_entries (List.erase_subperm path paths)).beside hb)
  have hb₁ := beside_of_upsertAll (Counts.add ∅ stored) hentries
  rw [hrest] at hb₁
  refine ⟨stored, _, hfirst, get?_beside (hlink.beside hb) hb₁ hplace₁ (hb₁.node_eq ?_)⟩
  rw [map_path_entryFor]
  exact hapart.not_places hplace₁

end Independent

/-! ### All runs -/

/-- However the entries are made and stored, this is what it comes to. -/
structure EndsIn (c : EntryContext) (db : Database) (t : FileTree) (paths : List Path)
    (counts : Counts) (t' : FileTree) : Prop where
  inTurn : ∀ order, order.Perm paths → (c.writeInTurn db ∅ order).on t = (.ok counts, t')
  runs : ∀ n schedule, (c.writeEntries db paths n schedule).on t = (.ok counts, t')
  beside : Beside (db.Places t paths) t t'
  /-- What is found for a file is what its own entry alone would have made of it. -/
  entries : ∀ path ∈ paths, ∃ stored t₁,
    (db.upsert (c.entryFor t path)).on t = (.ok stored, t₁) ∧ db.get? t' path = db.get? t₁ path

theorem Independent.endsIn (h : c.Independent db t paths) {n : Nat} {schedule : Nat → Nat}
    (hok : (c.writeEntries db paths n schedule).on t = (.ok counts, t')) :
    c.EndsIn db t paths counts t' := by
  obtain ⟨calls, hcalls, hrun, hall⟩ := exists_calls_writeEntries c db paths n schedule t
  have hon : (db.upsertAll ∅ (paths.map (c.entryFor t))).on t = (.ok counts, t') := by
    refine on_upsertAll_perm ((hall counts t' hok).map _) (h.apart_entries hcalls.once) ?_
    rw [← h.entries_eq hcalls, ← hrun, hok]
  refine ⟨fun order horder => ?_, fun m schedule' => ?_, ?_, fun path hmem =>
    h.get?_of_upsertAll hon hmem⟩
  · rw [h.on_writeInTurn (.refl ..) horder.subset]
    exact h.on_upsertAll_order hon horder
  · obtain ⟨calls', hcalls', hrun', hall'⟩ := exists_calls_writeEntries c db paths m schedule' t
    rcases hon' : (c.writeEntries db paths m schedule').on t with ⟨failure | counts', t₁⟩
    · exact absurd (hrun'.symm.trans hon') (h.not_error hon hcalls')
    · have hsame := h.on_upsertAll_order hon (hall' counts' t₁ hon')
      rwa [← h.entries_eq hcalls', ← hrun', hon'] at hsame
  · have hb := beside_of_upsertAll ∅ (h.apart_entries (.refl paths))
    rwa [map_path_entryFor, hon] at hb

/-- A run of the pool stores entries in some order, up to the first that can not be stored; that
failure is returned then, and the entries before it stay. Without a failure there is one entry for
each file, and the counts say so. A file that can not be processed has an entry that says why. Where
the files are independent, a run without a failure comes to what every other run comes to, and
storing the entries in turn, in whatever order, so that no entry affects another. -/
theorem writeEntries_confluent (c : EntryContext) (db : Database) (paths : List Path) (n : Nat)
    (schedule : Nat → Nat) (t : FileTree) :
    (∃ calls, Calls c db paths t calls ∧
      (c.writeEntries db paths n schedule).on t = (db.upsertAll ∅ (calls.map (·.2))).on t ∧
      (∀ counts t', (c.writeEntries db paths n schedule).on t = (.ok counts, t') →
        (calls.map (·.1)).Perm paths ∧ counts.values.sum = paths.length) ∧
      ∀ failure t', (c.writeEntries db paths n schedule).on t = (.error failure, t') ↔
        ∃ before failing after counts, calls.map (·.2) = before ++ failing :: after ∧
          (db.upsertAll ∅ before).on t = (.ok counts, t') ∧
          (db.upsert failing).on t' = (.error failure, t')) ∧
    (∀ t₁ path, (∀ e, c.createEntry t₁ path ≠ .done (.ok e)) →
      ∃ reason, c.entryFor t₁ path = c.unreadableEntry path reason) ∧
    ∀ counts t', c.Independent db t paths →
      (c.writeEntries db paths n schedule).on t = (.ok counts, t') →
        c.EndsIn db t paths counts t' := by
  obtain ⟨calls, hcalls, hrun, hall⟩ := exists_calls_writeEntries c db paths n schedule t
  refine ⟨⟨calls, hcalls, hrun, fun counts t' hok => ?_, fun failure t' => ?_⟩,
    fun t₁ path => entryFor_of_failed, fun counts t' h hok => h.endsIn hok⟩
  · have hperm := hall counts t' hok
    refine ⟨hperm, ?_⟩
    rw [sum_of_upsertAll (hrun.symm.trans hok), List.length_map, ← hperm.length_eq,
      List.length_map]
    exact Nat.zero_add _
  · rw [hrun]
    exact on_upsertAll_eq_error

/-! ### Files with headers -/

/-- What is made of a file depends on the file and on what stands beside it for its header. -/
theorem createOrFail_header (hloader : c.loader = headerLoader)
    (hfile : t'.lookup path = t.lookup path)
    (hsidecar : t'.lookup (Dataset.sidecar path) = t.lookup (Dataset.sidecar path)) :
    c.createOrFail t' path = c.createOrFail t path := by
  have hread : t'.read path = t.read path := by rw [FileTree.read, FileTree.read, hfile]
  have hreadSidecar : t'.read (Dataset.sidecar path) = t.read (Dataset.sidecar path) := by
    rw [FileTree.read, FileTree.read, hsidecar]
  have hisFile : t'.isFile (Dataset.sidecar path) = t.isFile (Dataset.sidecar path) := by
    rw [isFile, isFile, hsidecar]
  have hload : loadHeader t' path = loadHeader t path := by
    have hheader : t'.read (headerPath t' path) = t.read (headerPath t path) := by
      rw [headerPath, headerPath, hisFile]
      by_cases hfound : t.isFile (Dataset.sidecar path) = true
      · rw [if_pos hfound, hreadSidecar]
      · rw [if_neg hfound, hread]
    unfold loadHeader
    rw [hheader]
  have hcreate : c.createEntry t' path = c.createEntry t path := by
    simp only [createEntry, hloader, headerLoader, hload, hashOfFile, hread]
  simp only [createOrFail, hcreate]

/-! ### Two files -/

/-- The directory of the sample database is there, and no temporary file. -/
structure IsWritable (t : FileTree) : Prop where
  directory : t.node? ["db"] = some .directory
  free : t.node? ["db", ".tmp0"] = none

namespace IsWritable
variable (h : IsWritable t)
include h

theorem isDirectoryAt : t.isDirectoryAt ["db"] = true := isDirectoryAt_iff.mpr h.directory

theorem locate : t.locate sampleDatabase.directory = .ok ["db"] :=
  locateWith_eq_ok.mpr ⟨by decide,
    .child rfl ⟨by decide, by decide, by decide⟩ h.directory nofun (.done ..)⟩

theorem place? (path : Path) :
    sampleDatabase.place? t path = .ok (["db"] ++ [recordName path]) :=
  place?_of_locate h.locate h.isDirectoryAt (allowed_sample path)

theorem put {name : String} (hname : name.toList.length = 69) (n : Node) :
    IsWritable (t.put (["db"] ++ [name]) n) := by
  have hne : name ≠ ".tmp0" := by
    rintro rfl
    revert hname
    decide
  refine ⟨?_, ?_⟩
  · rw [node?_put t (by simp), if_neg (by simp), h.directory]
  · rw [node?_put t (by simp), if_neg (by simpa using hne.symm), h.free]

theorem withRecord (e : Entry) : IsWritable (withRecord ["db"] t e) :=
  h.put (length_recordName _) _

theorem notLinked {path : Path}
    (hlink : ∀ target, t.node? (["db"] ++ [recordName path]) ≠ some (.link target)) :
    sampleDatabase.NotLinked t path := by
  intro k hk
  obtain rfl := Except.ok.inj ((h.place? path).symm.trans hk)
  exact hlink

theorem lookup_nothing {path : Path} (hn : t.node? (["db"] ++ [recordName path]) = none) :
    t.lookup (sampleDatabase.recordPath path) = .error .notFound := by
  rw [lookup_recordPath (h.notLinked (by rw [hn]; exact nofun)) (h.place? path), hn]

theorem lookup_file {path : Path} {content : ByteArray}
    (hn : t.node? (["db"] ++ [recordName path]) = some (.file content)) :
    t.lookup (sampleDatabase.recordPath path) = .ok (.file content) := by
  rw [lookup_recordPath (h.notLinked (by rw [hn]; exact nofun)) (h.place? path), hn]

theorem get?_of_nothing {path : Path} (hn : t.node? (["db"] ++ [recordName path]) = none) :
    sampleDatabase.get? t path = .ok none :=
  get?_of_lookup_error (h.lookup_nothing hn)

theorem get?_of_record {path : Path} (he : e.IsTimed)
    (hn : t.node? (["db"] ++ [recordName path]) = some (.file (recordContent e))) :
    sampleDatabase.get? t path = .ok (some e) :=
  get?_of_lookup_record he (h.lookup_file hn)

theorem on_writeRecord (hd : t.node? (["db"] ++ [recordName e.path]) ≠ some .directory) :
    (sampleDatabase.writeRecord e).on t = (.ok (), Database.withRecord ["db"] t e) := by
  have hfree : t.freeLocation (temporary sampleDatabase.directory 0) = .ok ["db", ".tmp0"] := by
    have hname : Path.IsName ".tmp0" := ⟨by decide, by decide⟩
    have hstep : IsStep ".tmp0" := ⟨by decide, by decide, by decide⟩
    refine freeLocation_eq_ok.mpr ⟨?_, h.free⟩
    exact locateWith_join_nothing h.locate h.isDirectoryAt hname hstep (by decide) h.free _
  have hnotTaken : ¬t.Taken sampleDatabase.directory 0 := by
    rw [Taken, hfree]
    simp
  refine on_writeRecord_eq_ok_iff.mpr (on_replace_iff.mpr
    ⟨["db", ".tmp0"], _, ?_, h.place? e.path, hd, rfl⟩)
  rw [directoryOf_recordPath_sample, freeName_of_taken hnotTaken (Nat.le_refl 0) (Nat.zero_le _)
    fun m _ hlt => absurd hlt (Nat.not_lt_zero m)]
  exact hfree

theorem on_upsert_created (hd : t.node? (["db"] ++ [recordName e.path]) ≠ some .directory)
    (hnone : sampleDatabase.get? t e.path = .ok none) :
    (sampleDatabase.upsert e).on t = (.ok .created, Database.withRecord ["db"] t e) := by
  rw [on_upsert_of_none hnone, h.on_writeRecord hd]
  rfl

end IsWritable

def fileA : Path := ⟨"/a.nc"⟩
def fileB : Path := ⟨"/b.nc"⟩

/-- The record of a file, which can be given as a file itself. -/
def recordA : Path := sampleDatabase.recordPath fileA

theorem recordName_fileB : recordName fileA ≠ recordName fileB := by decide +kernel

theorem recordName_recordA : recordName fileA ≠ recordName recordA := by decide +kernel

theorem hashedApart_pair {p q : Path} (h : recordName p ≠ recordName q) : HashedApart [p, q] := by
  have hne : Hash.sha256 p.text.toUTF8.toList ≠ Hash.sha256 q.text.toUTF8.toList := by
    intro heq
    exact h (by rw [recordName, recordName, Hash.sha256Hex, Hash.sha256Hex, heq])
  intro x hx y hy heq
  simp only [List.mem_cons, List.not_mem_nil, or_false] at hx hy
  rcases hx with rfl | rfl <;> rcases hy with rfl | rfl
  · rfl
  · exact absurd heq hne
  · exact absurd heq.symm hne
  · rfl

/-- Headers are looked for, on some day. -/
def headerContext : EntryContext where
  cv := FileValidation.sampleVocabularies
  frequencyKeys := .standard
  indicators := []
  loader := headerLoader
  now := ⟨⟨2024, 1, 1⟩, 0, 0⟩

theorem isValid_now : headerContext.now.IsValid :=
  ⟨by decide, by decide, by decide, .inl (by decide)⟩

theorem isWritable_sampleTree : IsWritable sampleTree :=
  ⟨by rw [node?_sampleTree, if_pos rfl], nothing_sampleTree ".tmp0"⟩

theorem notLinked_sampleTree (path : Path) : sampleDatabase.NotLinked sampleTree path :=
  isWritable_sampleTree.notLinked (by rw [nothing_sampleTree]; exact nofun)

/-- The tree with the entries for two files, the second one made when the first one is stored. -/
def afterTwo (c : EntryContext) (t : FileTree) (p q : Path) : FileTree :=
  let t₁ := Database.withRecord ["db"] t (c.entryFor t p)
  Database.withRecord ["db"] t₁ (c.entryFor t₁ q)

theorem on_writeInTurn_two (h : IsWritable t) {p q : Path} (hne : recordName p ≠ recordName q)
    (hp : t.node? (["db"] ++ [recordName p]) ≠ some .directory)
    (hgetp : sampleDatabase.get? t p = .ok none)
    (hq : t.node? (["db"] ++ [recordName q]) = none) :
    (c.writeInTurn sampleDatabase ∅ [p, q]).on t =
      (.ok (((∅ : Counts).add .created).add .created), c.afterTwo t p q) := by
  have hfirst : (sampleDatabase.upsert (c.entryFor t p)).on t =
      (.ok .created, Database.withRecord ["db"] t (c.entryFor t p)) :=
    h.on_upsert_created ((path_entryFor c t p).symm ▸ hp) ((path_entryFor c t p).symm ▸ hgetp)
  have h₁ := h.withRecord (c.entryFor t p)
  have hnone : (Database.withRecord ["db"] t (c.entryFor t p)).node?
      (["db"] ++ [recordName q]) = none := by
    rw [node?_withRecord, path_entryFor, if_neg (by simpa using hne.symm), hq]
  refine on_writeInTurn_cons_eq_ok.mpr ⟨.created, _, hfirst,
    on_writeInTurn_cons_eq_ok.mpr ⟨.created, _, h₁.on_upsert_created ?_ ?_, rfl⟩⟩
  · rw [path_entryFor, hnone]
    simp
  · rw [path_entryFor]
    exact h₁.get?_of_nothing hnone

/-- What stands beside the database is found as before. -/
theorem lookup_sampleTree (hb : Beside (sampleDatabase.Places sampleTree paths) sampleTree t')
    {p : Path} (name : String) (hallowed : refused? p = none) (hroot : p.isAbsolute = true)
    (hsteps : steps p = [] ++ [name]) (hs : IsStep name) (hname : name ≠ "db")
    (hlength : name.toList.length ≠ 69) : t'.lookup p = sampleTree.lookup p := by
  have hnone : sampleTree.node? ([] ++ [name]) = none := by
    rw [node?_sampleTree, if_neg (by simpa using hname), if_neg (by simp)]
  have hk : sampleTree.locateWith ⟨false, true⟩ p = .ok ([] ++ [name]) := by
    refine locateWith_eq_ok.mpr ⟨hallowed, ?_⟩
    rw [hsteps, origin, if_pos hroot]
    exact .nothing rfl hs hnone rfl
  refine hb.lookup_eq hs hsteps hk (fun target hlink => ?_) (hb.node_eq ?_)
  · rw [hnone] at hlink
    cases hlink
  · rintro ⟨q, _, hq⟩
    have hlast := getLast?_place hq
    rw [List.getLast?_concat] at hlast
    rw [Option.some.inj hlast] at hlength
    exact hlength (length_recordName q)

theorem independent_sample :
    headerContext.Independent sampleDatabase sampleTree [fileA, fileB] where
  distinct := by decide
  hashed := hashedApart_pair recordName_fileB
  notLinked := fun path _ => notLinked_sampleTree path
  undisturbed := by
    intro path hmem t' hb
    simp only [List.mem_cons, List.not_mem_nil, or_false] at hmem
    rcases hmem with rfl | rfl
    · refine createOrFail_header rfl ?_ ?_
      · exact lookup_sampleTree hb "a.nc" (by decide) (by decide) (by decide)
          ⟨by decide, by decide, by decide⟩ (by decide) (by decide)
      · exact lookup_sampleTree hb "a.nc.header.json" (by decide) (by decide) (by decide)
          ⟨by decide, by decide, by decide⟩ (by decide) (by decide)
    · refine createOrFail_header rfl ?_ ?_
      · exact lookup_sampleTree hb "b.nc" (by decide) (by decide) (by decide)
          ⟨by decide, by decide, by decide⟩ (by decide) (by decide)
      · exact lookup_sampleTree hb "b.nc.header.json" (by decide) (by decide) (by decide)
          ⟨by decide, by decide, by decide⟩ (by decide) (by decide)

theorem writeEntries_confluent_sample : ∃ counts t', counts.values.sum = 2 ∧
    headerContext.EndsIn sampleDatabase sampleTree [fileA, fileB] counts t' := by
  have hnone (path : Path) : sampleTree.node? (["db"] ++ [recordName path]) = none :=
    nothing_sampleTree _
  have hturn : (headerContext.writeInTurn sampleDatabase ∅ [fileA, fileB]).on sampleTree = _ :=
    on_writeInTurn_two isWritable_sampleTree recordName_fileB (by rw [hnone]; exact nofun)
      (isWritable_sampleTree.get?_of_nothing (hnone _)) (hnone _)
  obtain ⟨schedule, hrun⟩ := exists_schedule_writeInTurn hturn
  obtain ⟨⟨calls, _, _, hcounts, _⟩, _, hends⟩ := writeEntries_confluent headerContext
    sampleDatabase [fileA, fileB] 1 schedule sampleTree
  exact ⟨_, _, (hcounts _ _ hrun).2, hends _ _ independent_sample hrun⟩

/-! ### Files that are not independent -/

theorem unreadableEntry_inj {reason reason' : String}
    (h : c.unreadableEntry path reason = c.unreadableEntry path reason') : reason = reason' :=
  congrArg Finding.message (List.cons.inj (congrArg Entry.findings h)).1

theorem append_ne {s s' : String} (n : Nat) (hs : n ≤ s.toList.length) (hs' : n ≤ s'.toList.length)
    (h : s.toList.take n ≠ s'.toList.take n) (rest rest' : String) : s ++ rest ≠ s' ++ rest' := by
  intro heq
  have hchars := congrArg (fun text => text.toList.take n) heq
  simp only [String.toList_append, List.take_append_of_le_length hs,
    List.take_append_of_le_length hs'] at hchars
  exact h hchars

theorem message_unreadable (p : Path) (err : OsError) : (LoadError.unreadable p err).message =
    "Failed to read dataset '" ++ (p.text ++ ("': " ++ err.message)) := by
  rw [← String.append_assoc, ← String.append_assoc]
  rfl

theorem message_malformed (p : Path) : (LoadError.malformed p).message =
    "Failed to parse the header of dataset '" ++ (p.text ++ "': not of the expected form") := by
  rw [← String.append_assoc]
  rfl

theorem read_headerPath {content : ByteArray} (hread : t.read path = .ok content) :
    ∃ header, t.read (headerPath t path) = .ok header := by
  rw [headerPath]
  split
  · rename_i hfound
    rw [isFile] at hfound
    split at hfound
    · rename_i header hlookup
      exact ⟨header, by rw [FileTree.read, hlookup]; rfl⟩
    · cases hfound
  · exact ⟨content, hread⟩

theorem loadHeader_of_read {content : ByteArray} (hread : t.read path = .ok content) :
    loadHeader t path = .error (.malformed path) ∨ ∃ d, loadHeader t path = .ok d := by
  obtain ⟨header, hheader⟩ := read_headerPath hread
  unfold loadHeader
  rw [hheader]
  cases hd : Dataset.ofBytes? header with
  | none => exact .inl (by simp only [hd])
  | some d => exact .inr ⟨d, by simp only [hd]⟩

theorem entryFor_ne_missing (hloader : c.loader = headerLoader) {content : ByteArray}
    (hread : t.read path = .ok content) (err : OsError) :
    c.entryFor t path ≠ c.unreadableEntry path (LoadError.unreadable path err).message := by
  intro heq
  -- the entry tells of another failure, or it has a hash, which that of a missing file has not
  rcases loadHeader_of_read hread with hload | ⟨d, hload⟩
  · have hcreate : c.createEntry t path = .done (.error (.load (.malformed path))) := by
      simp only [createEntry, hloader, headerLoader, hload]
      rfl
    have hmessage : (LoadError.malformed path).message =
        (LoadError.unreadable path err).message := by
      simp only [entryFor, createOrFail, hcreate] at heq
      exact unreadableEntry_inj heq
    rw [message_malformed, message_unreadable] at hmessage
    exact append_ne 11 (by decide) (by decide) (by decide) _ _ hmessage
  · cases hmade : c.ofDataset path d with
    | aborted reason =>
      have hcreate : c.createEntry t path = .aborted reason := by
        simp only [createEntry, hloader, headerLoader, hload]
        show (c.ofDataset path d).bind _ = _
        rw [hmade]
        rfl
      have hmessage : "Processing the file panicked: " ++ reason =
          (LoadError.unreadable path err).message := by
        simp only [entryFor, createOrFail, hcreate] at heq
        exact unreadableEntry_inj heq
      rw [message_unreadable] at hmessage
      exact append_ne 1 (by decide) (by decide) (by decide) _ _ hmessage
    | done e =>
      have hcreate : c.createEntry t path =
          .done (.ok { e with sha256 := some (Hash.sha256Hex content) }) := by
        simp only [createEntry, hloader, headerLoader, hload]
        show (c.ofDataset path d).bind _ = _
        rw [hmade]
        simp only [Outcome.bind, hashOfFile, hread]
        rfl
      rw [entryFor_of_created hcreate] at heq
      cases congrArg Entry.sha256 heq

/-- The entry for a file that is missing, and that has no header beside it. -/
theorem entryFor_missing (hloader : c.loader = headerLoader)
    (hsidecar : t.isFile (Dataset.sidecar path) = false) {err : OsError}
    (hread : t.read path = .error err) :
    c.entryFor t path = c.unreadableEntry path (LoadError.unreadable path err).message := by
  have hload : loadHeader t path = .error (.unreadable path err) := by
    unfold loadHeader
    rw [headerPath]
    simp only [hsidecar, Bool.false_eq_true, if_false, hread]
  have hcreate : c.createEntry t path = .done (.error (.load (.unreadable path err))) := by
    simp only [createEntry, hloader, headerLoader, hload]
    rfl
  simp only [entryFor, createOrFail, hcreate]
  rfl

theorem isFile_sampleTree (p : Path) : sampleTree.isFile p = false := by
  rw [isFile]
  split
  · rename_i content hl
    obtain ⟨k, _, hk⟩ := Except.bind_eq_ok.mp hl
    split at hk
    · rename_i n hn
      obtain rfl := Except.ok.inj hk
      rw [node?_sampleTree] at hn
      split at hn
      · cases hn
      · split at hn <;> cases hn
    · cases hk
  · rfl

/-- The record of a file is missing before the file has an entry, and is there afterwards. -/
theorem entryFor_recordA : headerContext.entryFor sampleTree recordA ≠ headerContext.entryFor
    (Database.withRecord ["db"] sampleTree (headerContext.entryFor sampleTree fileA)) recordA := by
  have hmissing : sampleTree.read recordA = .error .notFound := by
    rw [FileTree.read, recordA, isWritable_sampleTree.lookup_nothing (nothing_sampleTree _)]
    rfl
  have hnode : (Database.withRecord ["db"] sampleTree
      (headerContext.entryFor sampleTree fileA)).node? (["db"] ++ [recordName fileA]) =
        some (.file (recordContent (headerContext.entryFor sampleTree fileA))) := by
    rw [node?_withRecord, path_entryFor, if_pos rfl]
  have hread : (Database.withRecord ["db"] sampleTree
      (headerContext.entryFor sampleTree fileA)).read recordA =
        .ok (recordContent (headerContext.entryFor sampleTree fileA)) := by
    rw [FileTree.read, recordA, (isWritable_sampleTree.withRecord _).lookup_file hnode]
    rfl
  rw [entryFor_missing rfl (isFile_sampleTree _) hmissing]
  exact (entryFor_ne_missing rfl hread .notFound).symm

theorem get?_afterTwo (h : IsWritable t) (hnow : c.now.IsValid) {p q : Path}
    (hne : recordName p ≠ recordName q) :
    sampleDatabase.get? (c.afterTwo t p q) p = .ok (some (c.entryFor t p)) ∧
      sampleDatabase.get? (c.afterTwo t p q) q = .ok (some
        (c.entryFor (Database.withRecord ["db"] t (c.entryFor t p)) q)) := by
  have h₂ : IsWritable (c.afterTwo t p q) := (h.withRecord _).withRecord _
  refine ⟨h₂.get?_of_record (isTimed_entryFor hnow) ?_,
    h₂.get?_of_record (isTimed_entryFor hnow) ?_⟩
  · rw [afterTwo, node?_withRecord, path_entryFor, if_neg (by simpa using hne), node?_withRecord,
      path_entryFor, if_pos rfl]
  · rw [afterTwo, node?_withRecord, path_entryFor, if_pos rfl]

theorem mergeSort_pair {p q : Path} (h : pathLe p q = false) :
    [p, q].mergeSort pathLe = [q, p] := by
  simp [List.mergeSort, List.MergeSort.Internal.splitInTwo, h]

theorem sorted_recordA : [recordA, fileA].mergeSort pathLe = [fileA, recordA] :=
  mergeSort_pair (by decide +kernel)

theorem sorted_fileB : [fileB, fileA].mergeSort pathLe = [fileA, fileB] :=
  mergeSort_pair (by decide)

/-- Work on every file is aborted. -/
def brokenContext : EntryContext := { headerContext with loader := fun _ _ => .aborted "broken" }

/-- The record of one file is a link to the record of the other one, which is not there yet. -/
def linkedTree : FileTree :=
  sampleTree.put (["db"] ++ [recordName fileA]) (.link ⟨recordName fileB⟩)

theorem node?_linkedTree (k : Location) : linkedTree.node? k =
    if k = ["db"] ++ [recordName fileA] then some (.link ⟨recordName fileB⟩)
    else sampleTree.node? k := node?_put _ (by simp) _ k

theorem isWritable_linkedTree : IsWritable linkedTree :=
  isWritable_sampleTree.put (length_recordName _) _

theorem nothing_linkedTree : linkedTree.node? (["db"] ++ [recordName fileB]) = none := by
  rw [node?_linkedTree, if_neg (by simpa using recordName_fileB.symm), nothing_sampleTree]

theorem locate_recordA (h : IsWritable t)
    (hlink : t.node? (["db"] ++ [recordName fileA]) = some (.link ⟨recordName fileB⟩)) :
    t.locate recordA = t.walk ⟨true, false⟩ 39 ["db"] [recordName fileB] := by
  have hname := isName_recordName fileA
  have hne : sampleDatabase.directory.text ≠ "" := by decide
  obtain ⟨names, hjoin, hsteps⟩ := steps_join hne hname
  have hdb : steps sampleDatabase.directory = ["db"] := by decide
  have hnames : names = ["db"] := by
    rw [hdb] at hsteps
    rcases hsteps with hsteps | hsteps
    · exact hsteps.symm
    · have hlast := congrArg List.getLast? hsteps
      rw [List.getLast?_concat] at hlast
      exact absurd (Option.some.inj (show some "db" = some "." from hlast)) (by decide)
  have hdirectory : t.node? ([] ++ ["db"]) = some .directory := h.directory
  rw [FileTree.locate, locateWith, recordA, allowed_sample, recordPath, hjoin, hnames,
    origin_join hne hname]
  show t.walk _ (39 + 1) [] ["db", recordName fileA] = _
  rw [walk_child rfl ⟨by decide, by decide, by decide⟩ hdirectory (by simp),
    List.nil_append, walk_link h.isDirectoryAt (isStep_recordName _) hlink fun _ => rfl,
    steps_name (isName_recordName _), List.append_nil, Path.not_isAbsolute_mk
      (isName_recordName fileB).2]
  rfl

theorem get?_through_link (h : IsWritable t)
    (hlink : t.node? (["db"] ++ [recordName fileA]) = some (.link ⟨recordName fileB⟩)) :
    (t.node? (["db"] ++ [recordName fileB]) = none →
      sampleDatabase.get? t fileA = .ok none) ∧
    ∀ e : Entry, e.IsTimed →
      t.node? (["db"] ++ [recordName fileB]) = some (.file (recordContent e)) →
        sampleDatabase.get? t fileA = .ok (some e) := by
  have hlocate := locate_recordA h hlink
  have hs := isStep_recordName fileB
  refine ⟨fun hn => ?_, fun e he hn => get?_of_lookup_record he ?_⟩
  · have hmissing : t.lookup recordA = .error .notFound := by
      rw [walk_nothing h.isDirectoryAt hs hn] at hlocate
      rw [FileTree.lookup, hlocate]
      rfl
    exact get?_of_lookup_error hmissing
  · rw [walk_child h.isDirectoryAt hs hn (by simp), walk] at hlocate
    rw [FileTree.lookup, ← recordA, hlocate]
    simp only [bind, Except.bind, hn]

/-- The first entry is read again through the link, and is then taken for that of the second. -/
theorem on_writeInTurn_linkedTree :
    (brokenContext.writeInTurn sampleDatabase ∅ [fileB, fileA]).on linkedTree =
      (.ok (((∅ : Counts).add .created).add .unchanged),
        Database.withRecord ["db"] linkedTree (brokenContext.entryFor linkedTree fileB)) := by
  have hfirst : (sampleDatabase.upsert (brokenContext.entryFor linkedTree fileB)).on linkedTree =
      (.ok .created,
        Database.withRecord ["db"] linkedTree (brokenContext.entryFor linkedTree fileB)) :=
    isWritable_linkedTree.on_upsert_created
      (by rw [path_entryFor, nothing_linkedTree]; exact nofun)
      (by rw [path_entryFor]; exact isWritable_linkedTree.get?_of_nothing nothing_linkedTree)
  generalize htree : Database.withRecord ["db"] linkedTree
    (brokenContext.entryFor linkedTree fileB) = t₁ at hfirst
  have hget : sampleDatabase.get? t₁ (brokenContext.entryFor t₁ fileA).path =
      .ok (some (brokenContext.entryFor linkedTree fileB)) := by
    rw [path_entryFor, ← htree]
    refine (get?_through_link (isWritable_linkedTree.withRecord _) ?_).2 _
      (isTimed_entryFor isValid_now) ?_
    · rw [node?_withRecord, path_entryFor, if_neg (by simpa using recordName_fileB),
        node?_linkedTree, if_pos rfl]
    · rw [node?_withRecord, path_entryFor, if_pos rfl]
  exact on_writeInTurn_cons_eq_ok.mpr ⟨.created, t₁, hfirst,
    on_writeInTurn_cons_eq_ok.mpr ⟨.unchanged, t₁, on_upsert_of_same hget rfl, rfl⟩⟩

/-- Two lists of files that are not independent. The second file of the first list has its record
under the first one, which is missing if it is looked at first. In the second list one record is a
link to the other. A run of the pool stores all entries, and yet storing them in the order of the
paths ends in other ways. -/
theorem writeEntries_not_confluent :
    ([recordA, fileA].Nodup ∧ HashedApart [recordA, fileA] ∧ ∃ schedule counts t',
      (headerContext.writeEntries sampleDatabase [recordA, fileA] 1 schedule).on sampleTree =
        (.ok counts, t') ∧
      (headerContext.writeInTurn sampleDatabase ∅ ([recordA, fileA].mergeSort pathLe)).on
        sampleTree ≠ (.ok counts, t')) ∧
    ([fileB, fileA].Nodup ∧ HashedApart [fileB, fileA] ∧ ∃ schedule counts t',
      (brokenContext.writeEntries sampleDatabase [fileB, fileA] 1 schedule).on linkedTree =
        (.ok counts, t') ∧
      (brokenContext.writeInTurn sampleDatabase ∅ ([fileB, fileA].mergeSort pathLe)).on
        linkedTree ≠ (.ok counts, t')) := by
  have hnone (path : Path) : sampleTree.node? (["db"] ++ [recordName path]) = none :=
    nothing_sampleTree _
  have hturn (p q : Path) (hne : recordName p ≠ recordName q) :
      (headerContext.writeInTurn sampleDatabase ∅ [p, q]).on sampleTree = _ :=
    on_writeInTurn_two isWritable_sampleTree hne (by rw [hnone]; exact nofun)
      (isWritable_sampleTree.get?_of_nothing (hnone p)) (hnone q)
  refine ⟨⟨by decide +kernel, hashedApart_pair recordName_recordA.symm, ?_⟩, by decide,
    hashedApart_pair recordName_fileB.symm, ?_⟩
  · obtain ⟨schedule, hrun⟩ :=
      exists_schedule_writeInTurn (hturn recordA fileA recordName_recordA.symm)
    refine ⟨schedule, _, _, hrun, fun hsorted => entryFor_recordA ?_⟩
    rw [sorted_recordA, hturn fileA recordA recordName_recordA, Prod.mk.injEq] at hsorted
    have hfirst := (get?_afterTwo isWritable_sampleTree isValid_now recordName_recordA.symm).1
    have hsecond := (get?_afterTwo isWritable_sampleTree isValid_now recordName_recordA).2
    rw [hsorted.2, hfirst] at hsecond
    exact Option.some.inj (Except.ok.inj hsecond)
  · -- through the link one entry is stored in two places, and counted otherwise
    obtain ⟨schedule, hrun⟩ := exists_schedule_writeInTurn on_writeInTurn_linkedTree
    refine ⟨schedule, _, _, hrun, fun hsorted => ?_⟩
    have hlink : linkedTree.node? (["db"] ++ [recordName fileA]) =
        some (.link ⟨recordName fileB⟩) := by rw [node?_linkedTree, if_pos rfl]
    have hother := on_writeInTurn_two (c := brokenContext) isWritable_linkedTree recordName_fileB
      (by rw [hlink]; exact nofun)
      ((get?_through_link isWritable_linkedTree hlink).1 nothing_linkedTree) nothing_linkedTree
    rw [sorted_fileB, hother, Prod.mk.injEq] at hsorted
    exact absurd (Except.ok.inj hsorted.1) (by decide)

end ForcingData.EntryContext
