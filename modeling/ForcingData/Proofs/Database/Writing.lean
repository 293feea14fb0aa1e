import ForcingData.Database.Creation
import ForcingData.Proofs.Database.Commute
import ForcingData.Proofs.Pool.Delivery
import ForcingData.Proofs.Validation.Placing

/-! # Runs that store entries

A run of the pool stores the entries that it has made one after the other, up to the first failure
(`exists_calls_writeEntries`), and an entry is made of the tree as it is then. Making and storing
one entry after the other, in turn, is one of these runs (`exists_schedule_writeInTurn`). -/

namespace ForcingData

/-- How a run ends that has come to this. -/
def EntryContext.Progress.outcome (p : Progress) : Except DatabaseError Counts × FileTree :=
  match p.failure with
  | some failure => (.error failure, p.tree)
  | none => (.ok p.counts, p.tree)

namespace EntryContext
open Database FileTree Pool

/-! ### One file -/

/-- The entry for a file, whatever becomes of the work on it. -/
def entryFor (c : EntryContext) (t : FileTree) (path : Path) : Entry :=
  (c.createOrFail t path).recover (c.recoverEntry path)

/-- Stores the entries for the files one after the other, each being made when it is its turn. -/
def writeInTurn (c : EntryContext) (db : Database) (counts : Counts) :
    List Path → Disk DatabaseError Counts
  | [] => return counts
  | path :: rest => do
    let t ← get
    let stored ← db.upsert (c.entryFor t path)
    c.writeInTurn db (counts.add stored) rest

variable {c : EntryContext} {db : Database} {t t' t₀ : FileTree} {path : Path} {e : Entry}
  {paths order : List Path} {counts counts' : Counts} {n : Nat} {schedule : Nat → Nat}

theorem exists_ofDataset_of_createEntry (h : c.createEntry t path = .done (.ok e)) :
    ∃ d made hash, c.loader t path = .done (.ok d) ∧ c.ofDataset path d = .done made ∧
      e = { made with sha256 := some hash } := by
  obtain ⟨loaded, hload, h⟩ := Outcome.bind_eq_done.mp h
  cases loaded with
  | error err => cases h
  | ok d =>
    obtain ⟨made, hmade, h⟩ := Outcome.bind_eq_done.mp h
    split at h
    · cases h
    · cases h
      exact ⟨d, made, _, hload, hmade, rfl⟩

theorem of_createEntry (h : c.createEntry t path = .done (.ok e)) :
    e.path = path ∧ e.timestamp = c.now ∧ e.history = [] := by
  obtain ⟨_, _, _, _, hmade, rfl⟩ := exists_ofDataset_of_createEntry h
  obtain ⟨consistency, _, hmade⟩ := Outcome.bind_eq_done.mp hmade
  cases hmade
  exact ⟨rfl, rfl, rfl⟩

theorem entryFor_of_failed (h : ∀ e, c.createEntry t path ≠ .done (.ok e)) :
    ∃ reason, c.entryFor t path = c.unreadableEntry path reason := by
  unfold entryFor createOrFail
  cases hmade : c.createEntry t path with
  | aborted message => exact ⟨_, rfl⟩
  | done result =>
    cases result with
    | ok e => exact absurd hmade (h e)
    | error err => exact ⟨_, rfl⟩

theorem entryFor_of_created (h : c.createEntry t path = .done (.ok e)) :
    c.entryFor t path = e := by
  rw [entryFor, createOrFail, h]
  rfl

theorem of_entryFor (c : EntryContext) (t : FileTree) (path : Path) :
    (c.entryFor t path).path = path ∧ (c.entryFor t path).timestamp = c.now ∧
      (c.entryFor t path).history = [] := by
  by_cases h : ∃ e, c.createEntry t path = .done (.ok e)
  · obtain ⟨e, he⟩ := h
    rw [entryFor_of_created he]
    exact of_createEntry he
  · obtain ⟨reason, hreason⟩ := entryFor_of_failed fun e he => h ⟨e, he⟩
    rw [hreason]
    exact ⟨rfl, rfl, rfl⟩

@[simp] theorem path_entryFor (c : EntryContext) (t : FileTree) (path : Path) :
    (c.entryFor t path).path = path := (c.of_entryFor t path).1

theorem isTimed_entryFor (h : c.now.IsValid) : (c.entryFor t path).IsTimed := by
  obtain ⟨-, htime, hhistory⟩ := c.of_entryFor t path
  refine ⟨htime ▸ h, fun item hitem => ?_⟩
  rw [hhistory] at hitem
  cases hitem

theorem on_writeInTurn_cons_eq_ok :
    (c.writeInTurn db counts (path :: order)).on t = (.ok counts', t') ↔
      ∃ stored t₁, (db.upsert (c.entryFor t path)).on t = (.ok stored, t₁) ∧
        (c.writeInTurn db (counts.add stored) order).on t₁ = (.ok counts', t') := by
  rw [writeInTurn, Disk.on_bind, Disk.on_get]
  simp only
  rw [Disk.on_bind]
  rcases (db.upsert (c.entryFor t path)).on t with ⟨failure | stored, t₁⟩ <;> simp

theorem map_path_entryFor (c : EntryContext) (t : FileTree) (paths : List Path) :
    (paths.map (c.entryFor t)).map (·.path) = paths := by
  simp [Function.comp_def]

/-! ### Runs of the pool -/

/-- What the workers do with each file, and what is done with each entry. -/
def storing (c : EntryContext) (db : Database) : Job Progress Path Entry :=
  ⟨fun p path => c.createOrFail p.tree path, c.recoverEntry, Progress.store db⟩

theorem on_writeEntries (c : EntryContext) (db : Database) (paths : List Path) (n : Nat)
    (schedule : Nat → Nat) (t : FileTree) : (c.writeEntries db paths n schedule).on t =
      (run n schedule (c.storing db) paths ⟨t, ∅, none⟩).1.outcome := rfl

theorem worldAfter_of_failed {p : Progress} (h : p.failure.isSome = true) (es : List Entry) :
    (c.storing db).worldAfter p es = p := by
  induction es with
  | nil => rfl
  | cons e es ih =>
    have hstore : (c.storing db).sink p e = (p, true) := if_pos h
    rw [Job.worldAfter, List.foldl_cons, hstore]
    exact ih

theorem sink_of_upsert {stored : Stored} (h : (db.upsert e).on t = (.ok stored, t')) :
    (c.storing db).sink ⟨t, counts, none⟩ e = (⟨t', counts.add stored, none⟩, false) := by
  simp [storing, Progress.store, h]

theorem outcome_worldAfter (es : List Entry) :
    ((c.storing db).worldAfter ⟨t, counts, none⟩ es).outcome = (db.upsertAll counts es).on t := by
  induction es generalizing t counts with
  | nil => rfl
  | cons e es ih =>
    rw [on_upsertAll_cons, Job.worldAfter, List.foldl_cons, ← Job.worldAfter]
    rcases hon : (db.upsert e).on t with ⟨failure | stored, tree⟩
    · have hsink : (c.storing db).sink ⟨t, counts, none⟩ e =
          (⟨tree, counts, some failure⟩, true) := by
        simp [storing, Progress.store, hon]
      rw [hsink, worldAfter_of_failed rfl]
      rfl
    · rw [sink_of_upsert hon]
      exact ih

theorem tree_worldAfter (es : List Entry) :
    ((c.storing db).worldAfter ⟨t, counts, none⟩ es).tree = ((db.upsertAll counts es).on t).2 := by
  rw [← outcome_worldAfter (c := c), Progress.outcome]
  split <;> rfl

theorem failed_of_sunk {s₀ s : State Progress Path Entry} {es : List (Event Path Entry)}
    (h : Trace (c.storing db) s₀ es s) {e : Entry} (hmem : .sunk e true ∈ es) :
    s.world.failure.isSome = true := by
  have hstore (p : Progress) (e : Entry) :
      ((c.storing db).sink p e).2 = ((c.storing db).sink p e).1.failure.isSome := by
    show (Progress.store db p e).2 = (Progress.store db p e).1.failure.isSome
    unfold Progress.store
    split
    · rename_i hfailed
      exact hfailed.symm
    · rcases (db.upsert e).on p.tree with ⟨_ | _, _⟩ <;> rfl
  have hkeep (p : Progress) (e : Entry) (hp : p.failure.isSome = true) :
      ((c.storing db).sink p e).1 = p := congrArg Prod.fst (if_pos hp)
  -- the stop was asked for in an earlier step, and the failure is kept, or in this one
  induction h with
  | start => cases hmem
  | step _ hstep ih =>
    rcases List.mem_append.mp hmem with hmem | hmem
    · have hfailed := ih hmem
      cases hstep with
      | sink =>
        simp only
        rw [hkeep _ _ hfailed]
        exact hfailed
      | _ => exact hfailed
    · cases hstep with
      | @sink result rest _ _ =>
        obtain ⟨-, hstop⟩ := Event.sunk.inj (List.mem_singleton.mp hmem)
        exact (hstore _ _).symm.trans hstop.symm
      | _ => cases List.mem_singleton.mp hmem

/-- The entries that are stored in a run, each with the file that it is for. -/
structure Calls (c : EntryContext) (db : Database) (paths : List Path) (t : FileTree)
    (calls : List (Path × Entry)) : Prop where
  once : (calls.map (·.1)).Subperm paths
  /-- An entry is made in a tree where some of the entries before it are stored. -/
  made : ∀ path e, (path, e) ∈ calls → ∃ seen, seen <+: calls.map (·.2) ∧
    e = c.entryFor ((db.upsertAll ∅ seen).on t).2 path

theorem exists_calls_writeEntries (c : EntryContext) (db : Database) (paths : List Path) (n : Nat)
    (schedule : Nat → Nat) (t : FileTree) : ∃ calls, Calls c db paths t calls ∧
      (c.writeEntries db paths n schedule).on t = (db.upsertAll ∅ (calls.map (·.2))).on t ∧
      ∀ counts t', (c.writeEntries db paths n schedule).on t = (.ok counts, t') →
        (calls.map (·.1)).Perm paths := by
  obtain ⟨es, s, h, hend, hrun⟩ :=
    exists_trace_run n schedule (c.storing db) paths ⟨t, ∅, none⟩
  obtain ⟨calls, hcalls, _⟩ := h.exists_calls hend
  have hon := on_writeEntries c db paths n schedule t
  rw [hrun] at hon
  refine ⟨calls, ⟨hcalls.once, fun path e hmem => ?_⟩, ?_, fun counts t' hok => ?_⟩
  · obtain ⟨seen, hseen, hmade⟩ := hcalls.outcome path e hmem
    refine ⟨seen, hcalls.sunk ▸ hseen, ?_⟩
    rw [← tree_worldAfter (c := c)]
    exact Outcome.eq_recover.mpr hmade
  · rw [hon, h.world_eq, ← hcalls.sunk]
    exact outcome_worldAfter _
  · refine hcalls.begun.trans (h.begun_perm hend (workers_pos n paths) ?_)
    refine Bool.eq_false_iff.mpr fun hup => ?_
    obtain ⟨e, he⟩ := h.flag.asked.mpr (.inr hup)
    obtain ⟨failure, hfailure⟩ := Option.isSome_iff_exists.mp (failed_of_sunk h he)
    rw [hon, Progress.outcome, hfailure] at hok
    cases hok

theorem Calls.paths_eq {calls : List (Path × Entry)} (h : Calls c db paths t calls) :
    (calls.map (·.2)).map (·.path) = calls.map (·.1) := by
  rw [List.map_map]
  refine List.map_congr_left fun call hmem => ?_
  obtain ⟨seen, _, hmade⟩ := h.made call.1 call.2 hmem
  show call.2.path = call.1
  rw [hmade, path_entryFor]

/-- One worker that is always waited for makes the entries in turn. -/
theorem exists_trace_writeInTurn {s₀ : State Progress Path Entry} {es : List (Event Path Entry)}
    (h : Trace (c.storing db) s₀ es ⟨order, [.idle], [], false, false, ⟨t, counts, none⟩⟩)
    (hon : (c.writeInTurn db counts order).on t = (.ok counts', t')) :
    ∃ es', Trace (c.storing db) s₀ es' ⟨[], [.gone], [], false, false, ⟨t', counts', none⟩⟩ := by
  induction order generalizing t counts es with
  | nil =>
    cases hon
    exact ⟨_, h.step (.leave (i := 0) rfl rfl)⟩
  | cons path order ih =>
    obtain ⟨stored, t₁, hstored, hrest⟩ := on_writeInTurn_cons_eq_ok.mp hon
    have hsink : (c.storing db).sink ⟨t, counts, none⟩
        ((c.storing db).result ⟨t, counts, none⟩ path) =
          (⟨t₁, counts.add stored, none⟩, false) := sink_of_upsert hstored
    have hsent := h.step (.take (i := 0) rfl rfl) |>.step (.begin (i := 0) rfl rfl)
      |>.step (.work (i := 0) rfl) |>.step (.send (i := 0) rfl)
    have hsunk := hsent.step (.sink rfl rfl)
    simp only [hsink] at hsunk
    exact ih hsunk hrest

theorem exists_schedule_writeInTurn
    (h : (c.writeInTurn db ∅ paths).on t = (.ok counts, t')) :
    ∃ schedule, (c.writeEntries db paths 1 schedule).on t = (.ok counts, t') := by
  have hstart : Trace (c.storing db) (.start 1 paths ⟨t, ∅, none⟩) []
      ⟨paths, [.idle], [], false, false, ⟨t, ∅, none⟩⟩ := .start
  obtain ⟨es, htrace⟩ := exists_trace_writeInTurn hstart h
  obtain ⟨schedule, hschedule⟩ := htrace.exists_schedule ⟨by simp, rfl, rfl⟩
  have hone : workers 1 paths = 1 := by
    rw [workers]
    omega
  refine ⟨schedule, ?_⟩
  rw [on_writeEntries, run, hone]
  simp only [hschedule]
  rfl

end EntryContext
end ForcingData
