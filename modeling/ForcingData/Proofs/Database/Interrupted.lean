import ForcingData.Proofs.Database.Map
import ForcingData.Proofs.Database.Readers
import ForcingData.Proofs.FileTree.Interrupted

/-! # Upserts, interrupted

The steps of an upsert, each of which may fail, and after each of which the process may die
(`Upserting.Step`); an upsert that runs takes these steps (`steps_of_upsert`). Wherever they end,
readers see the database as it was, or, once the new record was moved to its place, with this record
(`atomic`). Links among the records have to lead to files: `not_atomic_with_links`. -/

namespace ForcingData.Database.Upserting
open FileTree Relation

/-- How far an upsert has come. -/
inductive Stage
  | reading
  | writing (stored : Stored) (new : Entry) (stage : Replacing.Stage)
  | returned (result : Except DatabaseError Stored)

/-- What is stored, once a new record has taken its place. -/
def Stage.renamed? : Stage → Option Stored
  | .writing stored _ .moved => some stored
  | .returned (.ok .created) => some .created
  | .returned (.ok .updated) => some .updated
  | _ => none

/-- One step. Temporary files have no names of records. -/
inductive Step (db : Database) (e : Entry) : Stage × FileTree → Stage × FileTree → Prop
  | unreadable (t : FileTree) (err : DatabaseError) :
      Step db e (.reading, t) (.returned (.error err), t)
  /-- A record that can not be looked at, for whatever reason, counts as none. -/
  | absent (t : FileTree) : Step db e (.reading, t) (.writing .created e .start, t)
  | unchanged {t : FileTree} {existing : Entry} (h : db.get? t e.path = .ok (some existing))
      (hsame : existing.sameState e = true) :
      Step db e (.reading, t) (.returned (.ok .unchanged), t)
  | changed {t : FileTree} {existing : Entry} (h : db.get? t e.path = .ok (some existing))
      (hchanged : existing.sameState e = false) :
      Step db e (.reading, t) (.writing .updated (e.revise existing) .start, t)
  | write {stored : Stored} {new : Entry} {s s' : Replacing.Stage} {t t' : FileTree}
      (h : Replacing.Step IsBeside (db.recordPath new.path) (recordContent new) (s, t) (s', t')) :
      Step db e (.writing stored new s, t) (.writing stored new s', t')
  | written (stored : Stored) (new : Entry) (t : FileTree) :
      Step db e (.writing stored new .moved, t) (.returned (.ok stored), t)
  | notWritten (stored : Stored) (new : Entry) (err : OsError) (t : FileTree) :
      Step db e (.writing stored new (.failed err), t)
        (.returned (.error (.inaccessible (db.recordPath new.path) err)), t)

variable {db : Database} {e new : Entry} {t t' : FileTree} {a b : Stage × FileTree}
  {stage : Stage} {stored : Stored}

/-! ### What the steps keep -/

/-- The entry is what is written where this is stored. -/
def Writes (db : Database) (t : FileTree) (e : Entry) : Stored → Entry → Prop
  | .created, new => new = e
  | .updated, new => ∃ existing, db.get? t e.path = .ok (some existing) ∧
      existing.sameState e = false ∧ new = e.revise existing
  | .unchanged, _ => False

theorem Writes.path (h : Writes db t e stored new) : new.path = e.path := by
  cases stored with
  | created => rw [show new = e from h]
  | updated =>
    obtain ⟨existing, -, -, rfl⟩ := h
    rfl
  | unchanged => exact h.elim

theorem Writes.isTimed (h : Writes db t e stored new) (he : e.IsTimed) : new.IsTimed := by
  cases stored with
  | created => rwa [show new = e from h]
  | updated =>
    obtain ⟨existing, hget, -, rfl⟩ := h
    exact (isTimed_of_get? hget).revise he.timestamp
  | unchanged => exact h.elim

/-- What is there at each stage, if it was `t` before. -/
inductive Inv (db : Database) (e : Entry) (t : FileTree) : Stage × FileTree → Prop
  | reading : Inv db e t (.reading, t)
  | writing {stored : Stored} {new : Entry} {s : Replacing.Stage} {t' : FileTree}
      (hw : Writes db t e stored new)
      (hs : Replacing.Inv IsBeside (db.recordPath new.path) (recordContent new) t (s, t')) :
      Inv db e t (.writing stored new s, t')
  | unchanged : Inv db e t (.returned (.ok .unchanged), t)
  | unreadable (err : DatabaseError) : Inv db e t (.returned (.error err), t)
  | notWritten {new : Entry} {err : OsError} {t' : FileTree}
      (hs : Replacing.Inv IsBeside (db.recordPath new.path) (recordContent new) t
        (.failed err, t')) :
      Inv db e t (.returned (.error (.inaccessible (db.recordPath new.path) err)), t')
  | written {stored : Stored} {new : Entry} {t' : FileTree} (hw : Writes db t e stored new)
      (hs : Replacing.Inv IsBeside (db.recordPath new.path) (recordContent new) t (.moved, t')) :
      Inv db e t (.returned (.ok stored), t')

theorem Inv.step (h : Inv db e t a) (hs : Step db e a b) : Inv db e t b := by
  cases hs with
  | unreadable err =>
    cases h
    exact .unreadable _
  | absent =>
    cases h
    exact .writing (by rfl) .start
  | unchanged =>
    cases h
    exact .unchanged
  | changed hget hchanged =>
    cases h
    exact .writing ⟨_, hget, hchanged, rfl⟩ .start
  | write hstep =>
    cases h with
    | writing hw hs => exact .writing hw (hs.step hstep)
  | written =>
    cases h with
    | writing hw hs => exact .written hw hs
  | notWritten =>
    cases h with
    | writing hw hs => exact .notWritten hs

theorem Inv.of_steps (h : ReflTransGen (Step db e) (.reading, t) b) : Inv db e t b := by
  induction h with
  | refl => exact .reading
  | tail _ hs ih => exact ih.step hs

/-! ### What readers see -/

/-- All entries are found as before. -/
structure SeesOld (db : Database) (t t' : FileTree) : Prop where
  get : ∀ p, db.get? t' p = db.get? t p
  all : ∀ es, db.all t' = .ok es ↔ db.all t = .ok es

/-- One record is new, as a whole; all others are found as before. -/
structure SeesNew (db : Database) (t t' : FileTree) (new : Entry) : Prop where
  self : db.get? t' new.path = .ok (some new)
  get : ∀ p, db.get? t' p = db.get? t p ∨ db.get? t' p = .ok (some new)
  /-- A record may also be a link to the new one. -/
  other : ∀ p, recordName p ≠ recordName new.path → db.NotLinked t p →
    db.get? t' p = db.get? t p
  all : ∀ es, db.all t = .ok es → ∃ es', db.all t' = .ok es' ∧ new ∈ es' ∧
    (∀ x ∈ es', x = new ∨ x ∈ es) ∧
    ∀ x ∈ es, x ∈ es' ∨ ∃ record, readRecord record t = .ok x ∧ readRecord record t' = .ok new

section
variable (hlinks : db.LinksToFiles t)
include hlinks

theorem seesNew_of_moved (hnew : new.IsTimed) (h : Replacing.Inv IsBeside
    (db.recordPath new.path) (recordContent new) t (.moved, t')) : SeesNew db t t' new := by
  cases h with
  | moved hl hd =>
    have hlookup := lookup_put_record_self hlinks hl hd (recordContent new)
    exact ⟨get?_of_lookup_record hnew hlookup, get?_put_record hlinks hl hd hnew,
      fun p hname hlink => get?_put_record_other hlinks hl hd _ hname hlink,
      fun es hall => exists_all_put_record hlinks hl hd hnew hall⟩

variable (hnamed : t.IsNamed)
include hnamed

theorem seesOld_of_temporary {p temporary : Path} {k : Location}
    (hk : Replacing.Temporary IsBeside p t temporary k) (content : ByteArray) :
    SeesOld db t (t.put k (.file content)) := by
  obtain ⟨name, hbeside, hname, hlast⟩ := hk.getLast?
  exact ⟨get?_put_temporary hlinks hk.nothing hlast hname hbeside content,
    all_put_temporary hlinks hk.nothing hlast hname hbeside hnamed content⟩

theorem seesOld_of_inv {p : Path} {content : ByteArray} {s : Replacing.Stage}
    (h : Replacing.Inv IsBeside p content t (s, t')) (hs : s ≠ .moved) : SeesOld db t t' := by
  cases h with
  | start | failed => exact ⟨fun _ => rfl, fun _ => .rfl⟩
  | writing hk | failing hk | leftOver hk => exact seesOld_of_temporary hlinks hnamed hk _
  | moved => exact absurd rfl hs

/-- Wherever an upsert is interrupted, all is as before until the new record is renamed, also where
an error or `unchanged` is returned; from then on the new record is there as a whole. -/
theorem atomic (he : e.IsTimed) (h : ReflTransGen (Step db e) (.reading, t) (stage, t')) :
    (stage.renamed? = none → SeesOld db t t') ∧
    ∀ stored, stage.renamed? = some stored → ∃ new, Writes db t e stored new ∧
      SeesNew db t t' new := by
  cases Inv.of_steps h with
  | reading | unchanged | unreadable =>
    exact ⟨fun _ => ⟨fun _ => rfl, fun _ => .rfl⟩, nofun⟩
  | @writing stored new s t' hw hs =>
    by_cases hmoved : s = .moved
    · subst hmoved
      refine ⟨nofun, fun _ hstored => ?_⟩
      obtain rfl := Option.some.inj hstored
      exact ⟨new, hw, seesNew_of_moved hlinks (hw.isTimed he) hs⟩
    · refine ⟨fun _ => seesOld_of_inv hlinks hnamed hs hmoved, fun _ hstored => ?_⟩
      cases s with
      | moved => exact absurd rfl hmoved
      | _ => cases hstored
  | notWritten hs => exact ⟨fun _ => seesOld_of_inv hlinks hnamed hs nofun, nofun⟩
  | @written stored new t' hw hs =>
    have hsees := seesNew_of_moved hlinks (hw.isTimed he) hs
    cases stored with
    | created | updated =>
      refine ⟨nofun, fun _ hstored => ?_⟩
      obtain rfl := Option.some.inj hstored
      exact ⟨new, hw, hsees⟩
    | unchanged => exact hw.elim

end

/-! ### The running program -/

theorem isBeside_temporaryName (n : Nat) : IsBeside (temporaryName n) := by
  have hdot : '.' ∉ 't' :: 'm' :: 'p' :: Nat.toDigits 10 n := by
    simp only [List.mem_cons, not_or]
    refine ⟨by decide, by decide, by decide, fun hmem => ?_⟩
    have := Nat.isDigit_of_mem_toDigits (by decide) (by decide) hmem
    revert this
    decide
  rw [IsBeside, toList_temporaryName]
  exact fun h => nomatch (Path.extensionChars_of_dot hdot).symm.trans h

/-- The record is written step by step. -/
theorem steps_of_writeRecord (e new : Entry) (stored : Stored) (t : FileTree) :
    ReflTransGen (Step db e) (.writing stored new .start, t)
      (.returned (((db.writeRecord new).on t).1.map fun _ => stored),
        ((db.writeRecord new).on t).2) := by
  have hsteps := Replacing.steps_of_replace isBeside_temporaryName (db.recordPath new.path)
    (recordContent new) t
  have hlift := hsteps.lift (p := Step db e)
    (fun s : Replacing.Stage × FileTree => (.writing stored new s.1, s.2)) fun _ _ h => .write h
  rw [writeRecord]
  simp only [Disk.on_withError]
  rcases hr : (replace (db.recordPath new.path) (recordContent new)).on t with ⟨err | _, t'⟩
  · rw [hr] at hlift
    exact hlift.tail (.notWritten ..)
  · rw [hr] at hlift
    exact hlift.tail (.written ..)

/-- What `upsert` does is one way through the steps. -/
theorem steps_of_upsert (db : Database) (e : Entry) (t : FileTree) :
    ReflTransGen (Step db e) (.reading, t)
      (.returned ((db.upsert e).on t).1, ((db.upsert e).on t).2) := by
  cases hget : db.get? t e.path with
  | error err =>
    rw [upsert, Disk.on_bind, Disk.on_ask, hget]
    exact .single (.unreadable t err)
  | ok found =>
    cases found with
    | none =>
      rw [on_upsert_of_none hget]
      exact .head (.absent t) (steps_of_writeRecord e e .created t)
    | some existing =>
      cases hsame : existing.sameState e with
      | true =>
        rw [on_upsert_of_same hget hsame]
        exact .single (.unchanged hget hsame)
      | false =>
        rw [on_upsert_of_changed hget hsame]
        exact .head (.changed hget hsame) (steps_of_writeRecord e _ .updated t)

/-! ### An upsert that died -/

theorem isNamed_firstTree : firstTree.IsNamed := by
  have hsample : sampleTree.IsNamed := by decide
  refine hsample.put (fun name hname => ?_) _
  rcases List.mem_cons.mp hname with rfl | hname
  · decide
  · obtain rfl := List.mem_singleton.mp hname
    exact isNodeName_recordName _

theorem linksToFiles_firstTree : sampleDatabase.LinksToFiles firstTree := by
  intro name _ _ k target _ hlink
  rw [firstTree, node?_withRecord, node?_sampleTree] at hlink
  split_ifs at hlink <;> cases hlink

theorem isTimed_secondEntry : secondEntry.IsTimed :=
  ⟨isTimed_revised.timestamp, fun _ h => absurd h List.not_mem_nil⟩

/-- The tree with a temporary file that is written in part. -/
def tornTree : FileTree := firstTree.put (["db"] ++ [".tmpq8Zr1x"]) (.file "\x7b".toUTF8)

theorem steps_tornTree : ∃ temporary, ReflTransGen (Step sampleDatabase secondEntry)
    (.reading, firstTree)
    (.writing .updated (secondEntry.revise firstEntry) (.writing .begun temporary), tornTree) := by
  have hname : IsNodeName ".tmpq8Zr1x" := by decide
  have hstep : IsStep ".tmpq8Zr1x" := ⟨by decide, by decide, by decide⟩
  have hnothing : firstTree.node? (["db"] ++ [".tmpq8Zr1x"]) = none :=
    nothing_firstTree (by decide)
  have hslash := getLast?_join hname.isName sampleDatabase.directory
  have hfree : firstTree.freeLocation (sampleDatabase.directory.join ⟨".tmpq8Zr1x"⟩) =
      .ok (["db"] ++ [".tmpq8Zr1x"]) := by
    refine freeLocation_eq_ok.mpr ⟨?_, hnothing⟩
    rw [locateWith_join_nothing storeInv_firstTree.located storeInv_firstTree.isDirectory
      hname.isName hstep (by decide) hnothing]
    rfl
  have hcreate : firstTree.createNew _ .empty = .ok _ := createNew_eq_ok hslash hfree
  have hwrite := write_new hslash hfree .empty "\x7b".toUTF8
  rw [← directoryOf_recordPath_sample (secondEntry.revise firstEntry).path] at hcreate hwrite
  have hchanged : Step sampleDatabase secondEntry (.reading, firstTree) _ :=
    .changed get?_firstTree (by decide)
  exact ⟨_, ((ReflTransGen.single hchanged).tail
    (.write (.create hname (by decide) hcreate))).tail (.write (.writePart _ hwrite))⟩

theorem atomic_sample :
    sampleDatabase.get? tornTree ⟨"/data/co2.nc"⟩ = .ok (some firstEntry) ∧
      sampleDatabase.get? secondTree ⟨"/data/co2.nc"⟩ =
        .ok (some (secondEntry.revise firstEntry)) := by
  obtain ⟨temporary, htorn⟩ := steps_tornTree
  have hdone := steps_of_upsert sampleDatabase secondEntry firstTree
  rw [on_upsert_secondEntry] at hdone
  have hold := (atomic linksToFiles_firstTree isNamed_firstTree isTimed_secondEntry htorn).1 rfl
  obtain ⟨new, ⟨existing, hget, -, rfl⟩, hnew⟩ :=
    (atomic linksToFiles_firstTree isNamed_firstTree isTimed_secondEntry hdone).2 .updated rfl
  rw [get?_firstTree] at hget
  cases hget
  exact ⟨(hold.get _).trans get?_firstTree, hnew.self⟩

/-! ### A record that is a link -/

section
variable {t : FileTree} {ending : Ending} {here : Location} {name : String} {rest : List String}
  (hd : t.isDirectoryAt here = true) (hs : IsStep name)
  (hn : t.node? (here ++ [name]) = some (.link ⟨"."⟩))
include hd hs hn

/-- A link to the directory that it is in only takes from the links that are left. -/
theorem walk_dots (hrest : rest ≠ []) (links : Nat) : ∀ n,
    t.walk ending (links + n) here (List.replicate n name ++ rest) = t.walk ending links here rest
  | 0 => rfl
  | n + 1 => by
    rw [List.replicate_succ, List.cons_append, ← Nat.add_assoc,
      walk_link hd hs hn fun h => absurd h (by simp [hrest])]
    show t.walk ending (links + n) here ("." :: (List.replicate n name ++ rest)) = _
    rw [walk_here hd, walk_dots hrest links n]

theorem walk_no_links (hf : ending.follow = true) :
    t.walk ending 0 here [name] = .error .tooManyLinks := by
  rw [walk, if_neg (by simp [hd]), if_neg hs.not_here, if_neg hs.not_up,
    if_neg (Nat.not_lt.mpr hs.short), hn]
  simp [hf]

end

theorem walk_not_directory {t : FileTree} {ending : Ending} {links : Nat} {here : Location}
    {name : String} {rest : List String} (hd : t.isDirectoryAt here = false) :
    t.walk ending links here (name :: rest) = .error .notDirectory := by
  rw [walk, if_pos (by simp [hd])]

/-- The entry above, for another file. -/
def otherEntry : Entry := { firstEntry with path := ⟨"/data/ch4.nc"⟩ }

def otherName : String :=
  "0bda3dfcd8e820deb89877ba6949657f219980ec11c5c56999639fa4a01dae39.json"

theorem recordName_otherEntry : recordName otherEntry.path = otherName := by decide +kernel

/-- The tree above with two links to the directory of the database in it. One of them is where the
record of the other file would be. -/
def loopedTree : FileTree :=
  (firstTree.put ["db", "a"] (.link ⟨"."⟩)).put ["db", otherName] (.link ⟨"."⟩)

/-- The same database, its directory being spelt with as many links as may be taken. -/
def loopedDatabase : Database :=
  ⟨⟨"/db/" ++ otherName ++ String.join (List.replicate 39 "/a")⟩⟩

/-- The tree after the upsert: the link is replaced. -/
def blockedTree : FileTree :=
  loopedTree.put ["db", otherName] (.file (recordContent otherEntry))

theorem steps_looped : steps loopedDatabase.directory =
    "db" :: otherName :: List.replicate 39 "a" := by
  decide +kernel

theorem steps_join_looped {name : String} (hname : Path.IsName name) :
    steps (loopedDatabase.directory.join ⟨name⟩) =
      "db" :: otherName :: (List.replicate 39 "a" ++ [name]) := by
  obtain ⟨names, hjoin, hsteps⟩ := steps_join (p := loopedDatabase.directory) (by decide) hname
  rw [steps_looped] at hsteps
  rcases hsteps with rfl | hsteps
  · rw [hjoin]
    rfl
  · have hlast := congrArg List.getLast? hsteps
    rw [List.getLast?_concat] at hlast
    exact absurd hlast (by simp [List.getLast?_cons])

/-- A name that may be joined to the directory, and is no link's. -/
structure IsOther (name : String) : Prop where
  isName : Path.IsName name
  isStep : IsStep name
  noNul : '\x00' ∉ name.toList

theorem isOther_recordName (p : Path) : IsOther (recordName p) :=
  ⟨isName_recordName p, isStep_recordName p, fun h => by cases isPlainChar_of_mem_recordName h⟩

theorem locateWith_looped {t : FileTree} {name : String} (hname : IsOther name)
    (ending : Ending) : t.locateWith ending (loopedDatabase.directory.join ⟨name⟩) =
      t.walk ending linkLimit [] ("db" :: otherName :: (List.replicate 39 "a" ++ [name])) := by
  have hdirectory : refused? loopedDatabase.directory = none := by decide +kernel
  have hsize : loopedDatabase.directory.text.utf8ByteSize = 151 := by decide +kernel
  have hlimits : 151 + 1 + nameLimit ≤ pathLimit := by decide
  have hshort := hname.isStep.short
  have horigin : t.origin loopedDatabase.directory = [] := if_pos (by decide +kernel)
  rw [locateWith, refused?_join hdirectory hname.isName hname.noNul (by omega),
    steps_join_looped hname.isName, origin_join (by decide) hname.isName, horigin]

/-- A tree in which the directory is reached through these links. -/
structure Looped (t : FileTree) : Prop where
  directory : t.node? ["db"] = some .directory
  record : t.node? (["db"] ++ [otherName]) = some (.link ⟨"."⟩)
  loop : t.node? (["db"] ++ ["a"]) = some (.link ⟨"."⟩)

namespace Looped
variable {t : FileTree} (h : Looped t)
include h

theorem isDirectoryAt : t.isDirectoryAt ["db"] = true := isDirectoryAt_iff.mpr h.directory

theorem locateWith {name : String} (hname : IsOther name) (ending : Ending) :
    t.locateWith ending (loopedDatabase.directory.join ⟨name⟩) = t.walk ending 0 ["db"] [name] := by
  have hs : IsStep "db" := ⟨by decide, by decide, by decide⟩
  have hloop : IsStep "a" := ⟨by decide, by decide, by decide⟩
  have hrecord : IsStep otherName := recordName_otherEntry ▸ isStep_recordName _
  have hroot : t.isDirectoryAt [] = true := rfl
  rw [locateWith_looped hname, walk_child hroot hs h.directory (by simp)]
  calc t.walk ending linkLimit ["db"] (otherName :: (List.replicate 39 "a" ++ [name]))
      = t.walk ending 39 ["db"] (List.replicate 39 "a" ++ [name]) :=
        walk_dots h.isDirectoryAt hrecord h.record (by simp) 39 1
    _ = t.walk ending 0 ["db"] [name] :=
        walk_dots h.isDirectoryAt hloop h.loop (by simp) 0 39

theorem put {k : Location} (hk : t.node? k = none) (content : ByteArray) :
    Looped (t.put k (.file content)) := by
  have hkeep : ∀ {x n}, t.node? x = some n → (t.put k (.file content)).node? x = some n := by
    intro x n hx
    rw [node?_put_of_ne (ne_nil_of_node?_eq_none hk), hx]
    rintro rfl
    cases hk.symm.trans hx
  exact ⟨hkeep h.directory, hkeep h.record, hkeep h.loop⟩

end Looped

theorem node?_loopedTree (k : Location) : loopedTree.node? k =
    if k = ["db", otherName] then some (.link ⟨"."⟩)
    else if k = ["db", "a"] then some (.link ⟨"."⟩) else firstTree.node? k := by
  rw [loopedTree, node?_put _ (by simp), node?_put _ (by simp)]

theorem looped_loopedTree : Looped loopedTree where
  directory := by
    rw [node?_loopedTree, if_neg (by simp), if_neg (by simp)]
    exact isDirectoryAt_iff.mp storeInv_firstTree.isDirectory
  record := by
    rw [node?_loopedTree]
    exact if_pos rfl
  loop := by
    rw [node?_loopedTree, if_neg (by decide)]
    exact if_pos rfl

theorem get?_loopedTree :
    loopedDatabase.get? loopedTree firstEntry.path = .ok (some firstEntry) := by
  have hother : recordName firstEntry.path ≠ otherName := by decide +kernel
  have hloop : recordName firstEntry.path ≠ "a" := fun he =>
    absurd (he ▸ length_recordName firstEntry.path) (by decide)
  have hnode : loopedTree.node? (["db"] ++ [recordName firstEntry.path]) =
      some (.file (recordContent firstEntry)) := by
    rw [node?_loopedTree, if_neg (by simpa using hother), if_neg (by simpa using hloop),
      firstTree, node?_withRecord, if_pos rfl]
  refine get?_of_lookup_record isTimed_firstEntry (lookup_eq_ok.mpr ⟨_, ?_, hnode⟩)
  rw [recordPath, locate, looped_loopedTree.locateWith (isOther_recordName _),
    walk_child looped_loopedTree.isDirectoryAt (isStep_recordName _) hnode (by simp), walk]

theorem on_upsert_otherEntry :
    (loopedDatabase.upsert otherEntry).on loopedTree = (.ok .created, blockedTree) := by
  have hlooped := looped_loopedTree
  have hother := isOther_recordName otherEntry.path
  have hpath : loopedDatabase.recordPath otherEntry.path =
      loopedDatabase.directory.join ⟨otherName⟩ := by
    rw [recordPath, recordName_otherEntry]
  rw [recordName_otherEntry] at hother
  have hlookup : loopedTree.lookup (loopedDatabase.recordPath otherEntry.path) =
      .error .tooManyLinks := by
    rw [hpath, lookup, locate, hlooped.locateWith hother,
      walk_no_links hlooped.isDirectoryAt hother.isStep hlooped.record rfl]
    rfl
  have hnothing : loopedTree.node? (["db"] ++ [".tmp0"]) = none := by
    rw [node?_loopedTree, if_neg (by decide), if_neg (by decide)]
    exact nothing_firstTree (by decide)
  -- the temporary file is reached with no link left, the record would take one more
  have hfree : loopedTree.freeLocation
      ((directoryOf (loopedDatabase.recordPath otherEntry.path)).join ⟨".tmp0"⟩) =
        .ok (["db"] ++ [".tmp0"]) := by
    have htemporary : IsOther ".tmp0" :=
      ⟨by decide, ⟨by decide, by decide, by decide⟩, by decide⟩
    have htext : loopedDatabase.directory.text.toList =
        '/' :: loopedDatabase.directory.text.toList.tail := by decide +kernel
    have hlast : (Text.splitChars (· == '/') loopedDatabase.directory.text.toList.tail).getLast? =
        some ['a'] := by decide +kernel
    have hdirectory : directoryOf (loopedDatabase.directory.join ⟨otherName⟩) =
        loopedDatabase.directory :=
      directoryOf_join htext hlast rfl hother.isName hother.isStep.not_here
    refine freeLocation_eq_ok.mpr ⟨?_, hnothing⟩
    rw [hpath, hdirectory, hlooped.locateWith htemporary,
      walk_nothing hlooped.isDirectoryAt htemporary.isStep hnothing]
    rfl
  have hput := hlooped.put hnothing (recordContent otherEntry)
  have hplace : (loopedTree.put (["db"] ++ [".tmp0"])
      (.file (recordContent otherEntry))).locateWith ⟨false, true⟩
        (loopedDatabase.recordPath otherEntry.path) = .ok (["db"] ++ [otherName]) := by
    rw [hpath, hput.locateWith hother,
      walk_last_link hput.isDirectoryAt hother.isStep hput.record rfl]
  have hreplace := on_replace_eq_ok hfree hplace (by rw [isDirectoryAt, hput.record]; rfl)
  rw [on_upsert_of_none (get?_of_lookup_error hlookup), on_writeRecord_eq_ok_iff.mpr hreplace]
  rfl

theorem get?_blockedTree :
    loopedDatabase.get? blockedTree firstEntry.path = .ok none := by
  have hfile : blockedTree.node? (["db"] ++ [otherName]) =
      some (.file (recordContent otherEntry)) := by
    rw [blockedTree, node?_put _ (by simp)]
    exact if_pos rfl
  have hdb : blockedTree.node? ["db"] = some .directory := by
    rw [blockedTree, node?_put_of_ne (by simp) (by simp), looped_loopedTree.directory]
  have hs : IsStep "db" := ⟨by decide, by decide, by decide⟩
  have hrecord : IsStep otherName := recordName_otherEntry ▸ isStep_recordName _
  have hroot : blockedTree.isDirectoryAt [] = true := rfl
  have hblocked : blockedTree.isDirectoryAt (["db"] ++ [otherName]) = false := by
    rw [isDirectoryAt, hfile]
    rfl
  have hwalk : blockedTree.walk ⟨true, false⟩ linkLimit []
      ("db" :: otherName :: (List.replicate 39 "a" ++ [recordName firstEntry.path])) =
        .error .notDirectory := calc
    _ = blockedTree.walk ⟨true, false⟩ linkLimit ["db"]
        (otherName :: (List.replicate 39 "a" ++ [recordName firstEntry.path])) :=
      walk_child hroot hs hdb (by simp)
    _ = blockedTree.walk ⟨true, false⟩ linkLimit (["db"] ++ [otherName])
        (List.replicate 39 "a" ++ [recordName firstEntry.path]) :=
      walk_child (isDirectoryAt_iff.mpr hdb) hrecord hfile (by simp)
    _ = .error .notDirectory := walk_not_directory hblocked
  have hlookup : blockedTree.lookup (loopedDatabase.recordPath firstEntry.path) =
      .error .notDirectory := by
    rw [recordPath, lookup, locate, locateWith_looped (isOther_recordName _), hwalk]
    rfl
  exact get?_of_lookup_error hlookup

/-- The other entry could be stored, and then the first one is not found any more. -/
theorem not_atomic_with_links : ¬∀ (db : Database) (e : Entry) (t t' : FileTree) (stage : Stage),
    t.IsNamed → e.IsTimed → ReflTransGen (Step db e) (.reading, t) (stage, t') →
      (stage.renamed? = none → SeesOld db t t') ∧
      ∀ stored, stage.renamed? = some stored → ∃ new, Writes db t e stored new ∧
        SeesNew db t t' new := by
  intro hall
  have hnamed : loopedTree.IsNamed := by
    have hlink {name : String} (hname : IsNodeName name) :
        ∀ x ∈ ["db", name], IsNodeName x := by
      intro x hx
      rcases List.mem_cons.mp hx with rfl | hx
      · decide
      · exact List.mem_singleton.mp hx ▸ hname
    have hname : IsNodeName otherName := recordName_otherEntry ▸ isNodeName_recordName _
    exact (isNamed_firstTree.put (hlink (by decide)) _).put (hlink hname) _
  have htimed : otherEntry.IsTimed := ⟨isTimed_firstEntry.timestamp, nofun⟩
  have hsteps := steps_of_upsert loopedDatabase otherEntry loopedTree
  rw [on_upsert_otherEntry] at hsteps
  obtain ⟨new, -, hsees⟩ := (hall _ _ _ _ _ hnamed htimed hsteps).2 .created rfl
  rcases hsees.get firstEntry.path with hget | hget
  · rw [get?_blockedTree, get?_loopedTree] at hget
    cases hget
  · rw [get?_blockedTree] at hget
    cases hget

end ForcingData.Database.Upserting
