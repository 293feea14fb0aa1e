import ForcingData.Database.Check
import ForcingData.Proofs.Database.Chain
import ForcingData.Proofs.Database.Store
import ForcingData.Proofs.Pool.Collect

/-! # Revisions

A database that starts out empty, where entries are stored one after the other while everything
beside the records may change. What is stored can be out of date, but no state that was ever stored
is lost: `Run.every_state_recorded`. -/

namespace ForcingData

namespace Database
open FileTree
variable {db : Database} {l : Location} {t t' : FileTree} {past : List FileTree} {n : Nat}
  {e : Entry}

/-! ### Validated entries -/

/-- What a validation returns are stored entries with other findings. -/
theorem exists_of_mem_validate {workers : Nat} {schedule : Nat → Nat} {now : Instant}
    {es : List Entry} (h : db.validate t workers schedule now = .ok es) (he : e ∈ es) :
    ∃ stored, db.all t = .ok stored ∧
      ∃ e' ∈ stored, ∃ findings, e = e'.withValidation findings now := by
  obtain ⟨stored, hstored, h⟩ := Except.bind_eq_ok.mp h
  obtain rfl := Except.pure_eq_ok.mp h
  rw [validateEntries, sortByPath, List.mem_mergeSort] at he
  obtain ⟨e', he', rfl⟩ := Pool.mem_collect he
  exact ⟨stored, hstored, e', he', _, rfl⟩

/-! ### Runs -/

/-- The database is where it was, with the records that it had. -/
def SameRecords (db : Database) (t t' : FileTree) : Prop :=
  ∀ l, t.locate db.directory = .ok l → t'.locate db.directory = .ok l ∧
    t'.node? l = t.node? l ∧
    ∀ name, db.IsRecord name → t'.node? (l ++ [name]) = t.node? (l ++ [name])

/-- What may be stored: a first entry for a file, or one that a validation of the database has
returned, on any of these trees. The times are such as a clock gives. -/
inductive Offered (db : Database) (trees : List FileTree) (e : Entry) : Prop
  | first (h : e.IsFirst) (htime : e.timestamp.IsValid)
  | validated {t : FileTree} (ht : t ∈ trees) {workers : Nat} {schedule : Nat → Nat}
      {now : Instant} (htime : now.IsValid) {es : List Entry}
      (hes : db.validate t workers schedule now = .ok es) (he : e ∈ es)

/-- The trees so far, the last one first, after so many calls of `upsert`. -/
inductive Run (db : Database) : Nat → List FileTree → Prop
  | start {t : FileTree} (h : db.all t = .ok []) : Run db 0 [t]
  | outside {n : Nat} {t t' : FileTree} {past : List FileTree} (h : Run db n (t :: past))
      (hsame : db.SameRecords t t') : Run db n (t' :: t :: past)
  | upsert {n : Nat} {t : FileTree} {past : List FileTree} {e : Entry}
      (h : Run db n (t :: past)) (he : db.Offered (t :: past) e) :
      Run db (n + 1) (((db.upsert e).on t).2 :: t :: past)

/-! ### One step -/

/-- What becomes of the entry for a path in one step. -/
inductive Next : Option Entry → Option Entry → Prop
  | same (x : Option Entry) : Next x x
  | first {e : Entry} (h : e.IsFirst) : Next none (some e)
  | revised {e previous : Entry} (h : previous.sameState e = false) :
      Next (some previous) (some (e.revise previous))

/-- The database takes a step from one tree to another. -/
structure Step (db : Database) (l : Location) (t t' : FileTree) : Prop where
  store : StoreInv db l t'
  next : ∀ p, ∃ x y, db.get? t p = .ok x ∧ db.get? t' p = .ok y ∧ Next x y

theorem RecordAt.congr {name : String} (h : db.RecordAt l t name e)
    (hnode : t'.node? (l ++ [name]) = t.node? (l ++ [name])) : db.RecordAt l t' name e :=
  ⟨hnode.trans h.node, h.isName, h.timed, h.allowed⟩

theorem StoreInv.of_same (h : StoreInv db l t) (hsame : db.SameRecords t t') :
    StoreInv db l t' := by
  obtain ⟨hlocated, hroot, hnode⟩ := hsame l h.located
  refine ⟨hlocated, ?_, fun name n hrecord hn => ?_⟩
  · rw [isDirectoryAt_iff, hroot]
    exact isDirectoryAt_iff.mp h.isDirectory
  · have hname := hnode name hrecord
    rw [hname] at hn
    obtain ⟨e, he⟩ := h.record name n hrecord hn
    exact ⟨e, he.congr hname⟩

theorem StoreInv.get?_of_same (h : StoreInv db l t) (hsame : db.SameRecords t t') (p : Path) :
    db.get? t' p = db.get? t p := by
  have h' := h.of_same hsame
  have hnode := (hsame l h.located).2.2 _ (db.isRecord_recordName p)
  rcases h.get?_cases p with ⟨hn, hget⟩ | ⟨e, he, hget⟩
  · rw [hget, h'.get?_of_nothing (hnode.trans hn)]
  · rw [hget, h'.get?_of_recordAt (he.congr hnode)]

theorem StoreInv.exists_get? (h : StoreInv db l t) (p : Path) : ∃ x, db.get? t p = .ok x := by
  rcases h.get?_cases p with ⟨_, hget⟩ | ⟨_, _, hget⟩
  · exact ⟨_, hget⟩
  · exact ⟨_, hget⟩

theorem StoreInv.step_of_same (h : StoreInv db l t) (hsame : db.SameRecords t t') :
    Step db l t t' := by
  refine ⟨h.of_same hsame, fun p => ?_⟩
  obtain ⟨x, hx⟩ := h.exists_get? p
  exact ⟨x, x, hx, (h.get?_of_same hsame p).trans hx, .same x⟩

theorem StoreInv.step_refl (h : StoreInv db l t) : Step db l t t :=
  h.step_of_same fun _ hl => ⟨hl, rfl, fun _ _ => rfl⟩

theorem get?_congr {p q : Path} (h : recordName p = recordName q) : db.get? t p = db.get? t q := by
  rw [get?, get?, recordPath, recordPath, h]

theorem StoreInv.step_withRecord (h : StoreInv db l t) (he : e.IsTimed)
    (hallowed : refused? (db.recordPath e.path) = none) {x : Option Entry}
    (hx : db.get? t e.path = .ok x) (hnext : Next x (some e)) :
    Step db l t (Database.withRecord l t e) := by
  refine ⟨h.withRecord he hallowed, fun p => ?_⟩
  rw [h.get?_withRecord he hallowed]
  split
  · rename_i hp
    rw [get?_congr hp]
    exact ⟨_, _, hx, rfl, hnext⟩
  · obtain ⟨y, hy⟩ := h.exists_get? p
    exact ⟨y, y, hy, hy, .same y⟩

/-- Storing an entry with a valid time is a step, if it is a first one where there is none. -/
theorem StoreInv.step_upsert (h : StoreInv db l t) (htime : e.timestamp.IsValid)
    (hfirst : db.get? t e.path = .ok none → e.IsFirst) :
    Step db l t ((db.upsert e).on t).2 := by
  have hupserts := h.on_upsert e
  generalize (db.upsert e).on t = result at hupserts
  cases hupserts with
  | failed err => exact h.step_refl
  | unchanged => exact h.step_refl
  | created hnone hallowed =>
    have hf := hfirst hnone
    refine h.step_withRecord ⟨htime, fun item hitem => ?_⟩ hallowed hnone (.first hf)
    rw [hf.history] at hitem
    cases hitem
  | @updated existing hsome hchanged hallowed =>
    have hexisting := (h.get?_eq_some.mp hsome).timed
    exact h.step_withRecord (hexisting.revise htime) hallowed hsome (.revised hchanged)

section
variable {x y : Option Entry}

theorem Next.isChained (h : Next x (some e))
    (hx : ∀ m, x = some m → m.IsChained ∧ m.revision.toNat + 1 < 2 ^ 32) : e.IsChained := by
  cases h with
  | same => exact (hx e rfl).1
  | first hf => exact hf.isChained
  | revised hchanged =>
    obtain ⟨hc, hlt⟩ := hx _ rfl
    exact Entry.isChained_revise hc hchanged hlt

theorem Next.follows (h : Next (some e) y) : ∃ e', y = some e' ∧ e'.Follows e := by
  cases h with
  | same => exact ⟨e, rfl, .refl e⟩
  | revised => exact ⟨_, rfl, Entry.follows_revise _ e⟩

theorem Next.mem_history (h : Next x (some e)) {item : HistoryItem} (hitem : item ∈ e.history) :
    ∃ m, x = some m ∧ (item ∈ m.history ∨ m.historyItem = item) := by
  cases h with
  | same => exact ⟨e, rfl, .inl hitem⟩
  | first hf =>
    rw [hf.history] at hitem
    cases hitem
  | @revised _ previous =>
    refine ⟨previous, rfl, ?_⟩
    rcases List.mem_append.mp hitem with hitem | hitem
    · exact .inl hitem
    · exact .inr (List.mem_singleton.mp hitem).symm

theorem Next.length_history (h : Next x (some e)) :
    e.history.length = 0 ∨ ∃ m, x = some m ∧ e.history.length ≤ m.history.length + 1 := by
  cases h with
  | same => exact .inr ⟨e, rfl, Nat.le_succ _⟩
  | first hf => exact .inl (by rw [hf.history]; rfl)
  | @revised _ previous =>
    refine .inr ⟨previous, rfl, ?_⟩
    rw [Entry.history_revise, Entry.states, List.length_append]
    rfl

end

/-! ### All steps -/

/-- Every entry in the last tree comes from the entries before it, of which none is lost. -/
structure RunInv (db : Database) (l : Location) (t : FileTree) (past : List FileTree) : Prop where
  store : ∀ t' ∈ t :: past, StoreInv db l t'
  chained : ∀ t' ∈ t :: past, ∀ p e, db.get? t' p = .ok (some e) → e.IsChained
  follows : ∀ t' ∈ t :: past, ∀ p e', db.get? t' p = .ok (some e') →
    ∃ e, db.get? t p = .ok (some e) ∧ e.Follows e'
  stored : ∀ p e, db.get? t p = .ok (some e) → ∀ item ∈ e.history,
    ∃ t' ∈ past, ∃ e', db.get? t' p = .ok (some e') ∧ e'.historyItem = item

theorem RunInv.step (h : RunInv db l t past) (hstep : Step db l t t')
    (hlt : ∀ p e, db.get? t p = .ok (some e) → e.revision.toNat + 1 < 2 ^ 32) :
    RunInv db l t' (t :: past) where
  store := by
    intro s hs
    -- the new state is one step away; all others are those of the run before
    rcases List.mem_cons.mp hs with rfl | hs
    · exact hstep.store
    · exact h.store s hs
  chained := by
    intro s hs p e he
    rcases List.mem_cons.mp hs with rfl | hs
    · obtain ⟨x, y, hx, hy, hnext⟩ := hstep.next p
      rw [he] at hy
      cases hy
      refine hnext.isChained fun m hm => ?_
      subst hm
      exact ⟨h.chained t (List.mem_cons_self ..) p m hx, hlt p m hx⟩
    · exact h.chained s hs p e he
  follows := by
    intro s hs p e' he'
    rcases List.mem_cons.mp hs with rfl | hs
    · exact ⟨e', he', .refl e'⟩
    · obtain ⟨m, hm, hfollows⟩ := h.follows s hs p e' he'
      obtain ⟨x, y, hx, hy, hnext⟩ := hstep.next p
      rw [hm] at hx
      cases hx
      obtain ⟨e, rfl, hlater⟩ := hnext.follows
      exact ⟨e, hy, hlater.trans hfollows⟩
  stored := by
    intro p e he item hitem
    obtain ⟨x, y, hx, hy, hnext⟩ := hstep.next p
    rw [he] at hy
    cases hy
    obtain ⟨m, rfl, hold | hlast⟩ := hnext.mem_history hitem
    · obtain ⟨s, hs, e', he', heq⟩ := h.stored p m hx item hold
      exact ⟨s, List.mem_cons_of_mem _ hs, e', he', heq⟩
    · exact ⟨t, List.mem_cons_self .., m, hx, hlast⟩

theorem RunInv.revision_lt (h : RunInv db l t past) {bound : Nat}
    (hbound : ∀ p e, db.get? t p = .ok (some e) → e.history.length < bound)
    (hle : bound < 2 ^ 32) (p : Path) (e : Entry) (he : db.get? t p = .ok (some e)) :
    e.revision.toNat + 1 < 2 ^ 32 := by
  have := hbound p e he
  rw [(h.chained t (List.mem_cons_self ..) p e he).revision]
  omega

theorem Step.length_history (h : Step db l t t') {bound : Nat}
    (hbound : ∀ p e, db.get? t p = .ok (some e) → e.history.length < bound) {p : Path}
    (he : db.get? t' p = .ok (some e)) : e.history.length < bound + 1 := by
  obtain ⟨x, y, hx, hy, hnext⟩ := h.next p
  rw [he] at hy
  cases hy
  rcases hnext.length_history with hzero | ⟨m, rfl, hle⟩
  · omega
  · have := hbound p m hx
    omega

theorem RunInv.of_offered (h : RunInv db l t past) (he : db.Offered (t :: past) e) :
    e.timestamp.IsValid ∧ (db.get? t e.path = .ok none → e.IsFirst) := by
  cases he with
  | first hf htime => exact ⟨htime, fun _ => hf⟩
  | @validated s hs workers schedule now htime es hes he =>
    obtain ⟨stored, hstored, e', he', findings, rfl⟩ := exists_of_mem_validate hes he
    obtain ⟨all, hall, hmem⟩ := (h.store s hs).exists_all
    rw [hstored] at hall
    cases hall
    -- the path of a validated entry has had an entry since then
    obtain ⟨later, hlater, _⟩ := h.follows s hs _ e' ((hmem e').mp he')
    refine ⟨htime, fun hnone => ?_⟩
    rw [show (e'.withValidation findings now).path = e'.path from rfl, hlater] at hnone
    cases hnone

theorem Run.exists_inv {trees : List FileTree} (h : Run db n trees) (hn : n < 2 ^ 32) :
    ∃ l t past, trees = t :: past ∧ RunInv db l t past ∧
      ∀ p e, db.get? t p = .ok (some e) → e.history.length < n := by
  induction h with
  | @start t hall =>
    obtain ⟨l, hstore, hnone⟩ := exists_storeInv_of_all_nil hall
    have hempty : ∀ p e, db.get? t p ≠ .ok (some e) := by
      intro p e he
      rw [hnone p] at he
      cases he
    refine ⟨l, t, [], rfl, ⟨?_, ?_, ?_, ?_⟩, ?_⟩
    · exact fun s hs => List.mem_singleton.mp hs ▸ hstore
    · exact fun s hs p e he => absurd (List.mem_singleton.mp hs ▸ he) (hempty p e)
    · exact fun s hs p e he => absurd (List.mem_singleton.mp hs ▸ he) (hempty p e)
    · exact fun p e he => absurd he (hempty p e)
    · exact fun p e he => absurd he (hempty p e)
  -- other files do not touch the records
  | @outside n t t' past _ hsame ih =>
    obtain ⟨l, _, _, heq, hinv, hbound⟩ := ih hn
    cases heq
    have hstore := hinv.store t (List.mem_cons_self ..)
    refine ⟨l, t', t :: past, rfl, hinv.step (hstore.step_of_same hsame) ?_, fun p e he => ?_⟩
    · exact hinv.revision_lt hbound hn
    · exact hbound p e ((hstore.get?_of_same hsame p).symm.trans he)
  | @upsert n t past e _ he ih =>
    obtain ⟨l, _, _, heq, hinv, hbound⟩ := ih (Nat.lt_of_succ_lt hn)
    cases heq
    obtain ⟨htime, hfirst⟩ := hinv.of_offered he
    have hstep := (hinv.store t (List.mem_cons_self ..)).step_upsert htime hfirst
    refine ⟨l, _, t :: past, rfl, hinv.step hstep ?_, fun p e he => ?_⟩
    · exact hinv.revision_lt hbound (Nat.lt_of_succ_lt hn)
    · exact hstep.length_history hbound he

/-! ### What is recorded -/

/-- The entry for a path holds all that was stored for it before, and nothing else. -/
structure Recorded (db : Database) (past : List FileTree) (p : Path) (e : Entry) : Prop where
  chained : e.IsChained
  follows : ∀ t ∈ past, ∀ e', db.get? t p = .ok (some e') → e.Follows e'
  history : ∀ t ∈ past, ∀ e', db.get? t p = .ok (some e') → e'.history <+: e.history
  numbered : ∀ t ∈ past, ∀ e', db.get? t p = .ok (some e') →
    e'.revision.toNat < e.history.length → e.history[e'.revision.toNat]? = some e'.historyItem
  stored : ∀ i item, e.history[i]? = some item → ∃ t ∈ past, ∃ e',
    db.get? t p = .ok (some e') ∧ e'.revision.toNat = i ∧ e'.historyItem = item

theorem RunInv.recorded (h : RunInv db l t past) {p : Path}
    (he : db.get? t p = .ok (some e)) : db.Recorded past p e := by
  have hfollows : ∀ s ∈ past, ∀ e', db.get? s p = .ok (some e') → e.Follows e' := by
    intro s hs e' he'
    obtain ⟨last, hlast, hf⟩ := h.follows s (List.mem_cons_of_mem _ hs) p e' he'
    rw [he] at hlast
    cases hlast
    exact hf
  have hchained := h.chained t (List.mem_cons_self ..) p e he
  refine ⟨hchained, hfollows, fun s hs e' he' => (hfollows s hs e' he').history, ?_, ?_⟩
  · intro s hs e' he' hlt
    exact (hfollows s hs e' he').getElem?_history
      (h.chained s (List.mem_cons_of_mem _ hs) p e' he') hlt
  · intro i item hi
    obtain ⟨s, hs, e', he', heq⟩ := h.stored p e he item (List.mem_of_getElem? hi)
    refine ⟨s, hs, e', he', ?_, heq⟩
    rw [← hchained.numbered i item hi, ← heq]
    rfl

/-- After every call of a run, every stored entry is numbered, holds its whole history, and has lost
nothing. -/
theorem Run.every_state_recorded (h : Run db n (t :: past)) (hn : n < 2 ^ 32) :
    (∃ es, db.all t = .ok es ∧ ∀ e, e ∈ es ↔ db.get? t e.path = .ok (some e)) ∧
      (∀ p, ∃ x, db.get? t p = .ok x ∧ ∀ e, x = some e → db.Recorded past p e) ∧
      ∀ t' ∈ past, ∀ p e', db.get? t' p = .ok (some e') →
        ∃ e, db.get? t p = .ok (some e) ∧ e.Follows e' := by
  obtain ⟨l, _, _, heq, hinv, _⟩ := h.exists_inv hn
  cases heq
  have hstore := hinv.store t (List.mem_cons_self ..)
  refine ⟨hstore.exists_all, fun p => ?_, fun t' ht' => ?_⟩
  · obtain ⟨x, hx⟩ := hstore.exists_get? p
    exact ⟨x, hx, fun e he => hinv.recorded (hx.trans (he ▸ rfl))⟩
  · exact hinv.follows t' (List.mem_cons_of_mem _ ht')

/-! ### A run -/

def sampleDatabase : Database := ⟨⟨"/db"⟩⟩

/-- Nothing but the directory of the database. -/
def sampleTree : FileTree := FileTree.put ⟨∅, []⟩ ["db"] .directory

/-- An entry for a file as it was found on a day. -/
def sampleEntry (day : Nat) (status : EntryStatus) : Entry :=
  { Entry.blank ⟨"/data/co2.nc"⟩ ⟨⟨2024, 1, day⟩, 0, 0⟩ with status }

theorem node?_sampleTree (k : Location) : sampleTree.node? k =
    if k = ["db"] then some .directory else if k = [] then some .directory else none := by
  rw [sampleTree, node?_put _ (List.cons_ne_nil _ _), node?]
  rfl

theorem nothing_sampleTree (name : String) : sampleTree.node? (["db"] ++ [name]) = none := by
  rw [node?_sampleTree, if_neg (by simp), if_neg (by simp)]

theorem storeInv_sampleTree : StoreInv sampleDatabase ["db"] sampleTree := by
  have hroot : sampleTree.node? ["db"] = some .directory := by rw [node?_sampleTree, if_pos rfl]
  refine ⟨locateWith_eq_ok.mpr ⟨by decide, ?_⟩, isDirectoryAt_iff.mpr hroot, ?_⟩
  · exact .child rfl ⟨by decide, by decide, by decide⟩ hroot nofun (.done ..)
  · intro name n _ hn
    rw [nothing_sampleTree] at hn
    cases hn

theorem directoryOf_recordPath_sample (p : Path) :
    directoryOf (sampleDatabase.recordPath p) = sampleDatabase.directory := by
  have htext : sampleDatabase.directory.text.toList = '/' :: ['d', 'b'] := by decide
  exact directoryOf_join htext rfl rfl (isName_recordName p) (isStep_recordName p).not_here

def firstEntry : Entry := sampleEntry 1 .notValidated
def secondEntry : Entry := sampleEntry 2 .passed

theorem isTimed_firstEntry : firstEntry.IsTimed :=
  ⟨⟨by decide, by decide, by decide, .inl (by decide)⟩, nofun⟩

theorem isTimed_revised : (secondEntry.revise firstEntry).IsTimed :=
  isTimed_firstEntry.revise ⟨by decide, by decide, by decide, .inl (by decide)⟩

theorem allowed_sample (p : Path) : refused? (sampleDatabase.recordPath p) = none :=
  refused?_recordPath (by decide) (by decide) p

/-- The tree after the first entry. -/
def firstTree : FileTree := Database.withRecord ["db"] sampleTree firstEntry

theorem on_upsert_firstEntry :
    (sampleDatabase.upsert firstEntry).on sampleTree = (.ok .created, firstTree) := by
  rw [on_upsert_of_none (storeInv_sampleTree.get?_of_nothing (nothing_sampleTree _)),
    storeInv_sampleTree.on_writeRecord_eq_ok (directoryOf_recordPath_sample _) (by decide)
      (nothing_sampleTree _)]
  rfl

theorem storeInv_firstTree : StoreInv sampleDatabase ["db"] firstTree :=
  storeInv_sampleTree.withRecord isTimed_firstEntry (allowed_sample _)

theorem nothing_firstTree {name : String} (h : name.toList.length ≠ 69) :
    firstTree.node? (["db"] ++ [name]) = none := by
  have hname : name ≠ recordName firstEntry.path := fun he => h (he ▸ length_recordName _)
  rw [firstTree, node?_withRecord, if_neg (by simpa using hname), nothing_sampleTree]

theorem get?_firstTree :
    sampleDatabase.get? firstTree secondEntry.path = .ok (some firstEntry) := by
  rw [firstTree, storeInv_sampleTree.get?_withRecord isTimed_firstEntry (allowed_sample _)]
  exact if_pos rfl

/-- The tree after the second entry. -/
def secondTree : FileTree :=
  Database.withRecord ["db"] firstTree (secondEntry.revise firstEntry)

theorem on_upsert_secondEntry :
    (sampleDatabase.upsert secondEntry).on firstTree = (.ok .updated, secondTree) := by
  rw [on_upsert_of_changed get?_firstTree (by decide),
    storeInv_firstTree.on_writeRecord_eq_ok (directoryOf_recordPath_sample _) (by decide)
      (nothing_firstTree (by decide))]
  rfl

theorem all_sampleTree : sampleDatabase.all sampleTree = .ok [] := by
  obtain ⟨es, hes, hmem⟩ := storeInv_sampleTree.exists_all
  have hempty : es = [] := by
    refine List.eq_nil_iff_forall_not_mem.mpr fun e he => ?_
    have hget := (hmem e).mp he
    rw [storeInv_sampleTree.get?_of_nothing (nothing_sampleTree _)] at hget
    cases hget
  rw [hes, hempty]

theorem run_sample : Run sampleDatabase 2 [secondTree, firstTree, sampleTree] := by
  have hfirst := (Run.start all_sampleTree).upsert (.first ⟨rfl, rfl⟩ isTimed_firstEntry.timestamp)
  rw [on_upsert_firstEntry] at hfirst
  have hsecond := hfirst.upsert (e := secondEntry) (.first ⟨rfl, rfl⟩ isTimed_revised.timestamp)
  rwa [on_upsert_secondEntry] at hsecond

theorem every_state_recorded_sample : ∃ e,
    sampleDatabase.get? secondTree secondEntry.path = .ok (some e) ∧ e.revision = 1 ∧
      sampleDatabase.Recorded [firstTree, sampleTree] secondEntry.path e := by
  have hget : sampleDatabase.get? secondTree secondEntry.path =
      .ok (some (secondEntry.revise firstEntry)) := by
    rw [secondTree, storeInv_firstTree.get?_withRecord isTimed_revised (allowed_sample _)]
    exact if_pos rfl
  obtain ⟨x, hx, hrecorded⟩ := (run_sample.every_state_recorded (by decide)).2.1 secondEntry.path
  rw [hget] at hx
  exact ⟨_, hget, rfl, hrecorded _ (Except.ok.inj hx).symm⟩

end Database
end ForcingData
