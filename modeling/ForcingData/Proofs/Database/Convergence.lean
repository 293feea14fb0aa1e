import ForcingData.Proofs.Database.Commute
import ForcingData.Proofs.Database.Map
import ForcingData.Proofs.Database.Rechecking

/-! # Validating a database again

A validated entry is stored only if its status has changed; otherwise what was found for it before
stays. So after a validation some entries are new and some are not, but all are alike in what a
check goes by (`checkedLike_refreshed`), and all have the status that was found. The next validation
finds no other status, and stores nothing: `Filled.validate_converges`. -/

namespace ForcingData

theorem EntryStatus.ofStatus_congr {s s' : Status}
    (h : ofStatus s = .failed ↔ ofStatus s' = .failed) : ofStatus s = ofStatus s' := by
  cases s <;> cases s' <;> simp_all [ofStatus]

/-- Alike in all that a check goes by. -/
structure Entry.CheckedLike (e e' : Entry) : Prop where
  path : e'.path = e.path
  sha256 : e'.sha256 = e.sha256
  trackingId : e'.trackingId? = e.trackingId?
  others : Database.otherFindings e' = Database.otherFindings e

namespace Database
open FileTree
variable {db : Database} {l : Location} {t t' : FileTree} {e e' : Entry} {es es' : List Entry}
  {now now' : Instant} {counts counts' : Counts}

/-! ### What a check goes by -/

/-- When an entry fails. -/
theorem failed_checkEntry_iff : (checkEntry t es now e).status = .failed ↔
    (∃ f ∈ otherFindings e, f.isFail = true) ∨
      (¬∃ recorded, e.sha256 = some recorded ∧ hashOfFile t e.path = .ok recorded) ∨
      ∃ id, e.trackingId? = some id ∧ 1 < (owners es id).length := by
  rw [(rechecked_checkEntry t es now e).status, findings_checkEntry, ← isFail_checkHash,
    ← isFail_checkTrackingId, Bool.not_eq_false]
  simp only [List.mem_append, List.mem_singleton, or_and_right, exists_or, exists_eq_left, or_assoc]

theorem status_checkEntry_congr (h : e.CheckedLike e')
    (hids : (es'.map (·.trackingId?)).Perm (es.map (·.trackingId?)))
    (hfile : hashOfFile t' e.path = hashOfFile t e.path) :
    (checkEntry t' es' now' e').status = (checkEntry t es now e).status := by
  have hiff : (checkEntry t' es' now' e').status = .failed ↔
      (checkEntry t es now e).status = .failed := by
    rw [failed_checkEntry_iff, failed_checkEntry_iff]
    simp only [h.others, h.sha256, h.path, h.trackingId, hfile, length_owners, hids.count_eq]
  exact EntryStatus.ofStatus_congr hiff

/-! ### What is stored -/

/-- A check changes the state if it changes the status. -/
theorem sameState_checkEntry (t : FileTree) (es : List Entry) (now : Instant) (e : Entry) :
    e.sameState (checkEntry t es now e) =
      decide (e.status = (checkEntry t es now e).status) := by
  rw [Entry.sameState, decide_eq_true (show e.sha256 = (checkEntry t es now e).sha256 from rfl),
    Bool.and_true]

/-- What is stored of an entry once it is validated. -/
def refreshed (t : FileTree) (es : List Entry) (now : Instant) (e : Entry) : Entry :=
  (checkEntry t es now e).onto (some e)

theorem refreshed_eq (t : FileTree) (es : List Entry) (now : Instant) (e : Entry) :
    refreshed t es now e = if e.status = (checkEntry t es now e).status then e
      else (checkEntry t es now e).revise e := by
  rw [refreshed, Entry.onto, sameState_checkEntry]
  simp only [decide_eq_true_eq]

theorem status_refreshed (t : FileTree) (es : List Entry) (now : Instant) (e : Entry) :
    (refreshed t es now e).status = (checkEntry t es now e).status := by
  rw [refreshed_eq]
  split
  · assumption
  · rfl

theorem otherFindings_revise (e previous : Entry) :
    otherFindings (e.revise previous) = otherFindings e := rfl

theorem checkedLike_refreshed (t : FileTree) (es : List Entry) (now : Instant) (e : Entry) :
    e.CheckedLike (refreshed t es now e) := by
  rw [refreshed_eq]
  split
  · exact ⟨rfl, rfl, rfl, rfl⟩
  · refine ⟨rfl, rfl, rfl, ?_⟩
    rw [otherFindings_revise, otherFindings_checkEntry]

/-- The path of an entry, and whether it failed. -/
def verdict (e : Entry) : Path × EntryStatus := (e.path, e.status)

theorem verdict_refreshed (t : FileTree) (es : List Entry) (now : Instant) (e : Entry) :
    verdict (refreshed t es now e) = verdict (checkEntry t es now e) := by
  rw [verdict, (checkedLike_refreshed t es now e).path, status_refreshed]
  rfl

theorem sameState_of_refreshed (hes : es'.Perm (es.map (refreshed t es now)))
    (hfiles : ∀ e ∈ es, hashOfFile t' e.path = hashOfFile t e.path) (he : e ∈ es') :
    e.sameState (checkEntry t' es' now' e) = true := by
  obtain ⟨x, hx, rfl⟩ := List.mem_map.mp (hes.mem_iff.mp he)
  have hids : (es'.map (·.trackingId?)).Perm (es.map (·.trackingId?)) := by
    refine (hes.map _).trans (List.Perm.of_eq ?_)
    rw [List.map_map]
    exact List.map_congr_left fun y _ => (checkedLike_refreshed t es now y).trackingId
  have hstatus : (checkEntry t' es' now' (refreshed t es now x)).status =
      (checkEntry t es now x).status :=
    status_checkEntry_congr (checkedLike_refreshed t es now x) hids (hfiles x hx)
  rw [sameState_checkEntry, hstatus, status_refreshed, decide_eq_true rfl]

/-! ### Storing entries -/

/-- Entries with records of their own are stored each as if it were alone. -/
theorem StoreInv.of_upsertAll (h : StoreInv db l t) (htimed : ∀ e ∈ es, e.IsTimed)
    (honce : (es.map fun e => recordName e.path).Nodup)
    (hon : (db.upsertAll counts es).on t = (.ok counts', t')) :
    StoreInv db l t' ∧
      (∀ e ∈ es, db.get? t' e.path = (db.get? t e.path).map fun x => some (e.onto x)) ∧
      ∀ p, recordName p ∉ (es.map fun e => recordName e.path) → db.get? t' p = db.get? t p := by
  induction es generalizing counts t with
  | nil =>
    obtain ⟨-, rfl⟩ := on_upsertAll_nil_eq_ok.mp hon
    exact ⟨h, fun _ he => absurd he List.not_mem_nil, fun _ _ => rfl⟩
  | cons e es ih =>
    obtain ⟨s, t₁, hfirst, hrest⟩ := on_upsertAll_cons_eq_ok.mp hon
    obtain ⟨he, htimed⟩ := List.forall_mem_cons.mp htimed
    obtain ⟨hnew, honce⟩ := List.nodup_cons.mp honce
    obtain ⟨h₁, hget⟩ := h.of_upsert he hfirst
    obtain ⟨h', hin, hout⟩ := ih h₁ htimed honce hrest
    refine ⟨h', List.forall_mem_cons.mpr ⟨?_, fun x hx => ?_⟩, fun p hp => ?_⟩
    · rw [hout _ hnew, hget, if_pos rfl]
    · have hne : recordName x.path ≠ recordName e.path := fun heq =>
        hnew (List.mem_map.mpr ⟨x, hx, heq⟩)
      rw [hin x hx, hget, if_neg hne]
    · obtain ⟨hne, hp⟩ := not_or.mp (fun hmem => hp (List.mem_cons.mpr hmem))
      rw [hout p hp, hget, if_neg hne]

theorem on_upsertAll_of_same
    (h : ∀ e ∈ es, ∃ x, db.get? t e.path = .ok (some x) ∧ x.sameState e = true) :
    (db.upsertAll counts es).on t = (.ok (es.foldl (fun c _ => c.add .unchanged) counts), t) := by
  induction es generalizing counts with
  | nil => rfl
  | cons e es ih =>
    obtain ⟨⟨x, hx, hsame⟩, hes⟩ := List.forall_mem_cons.mp h
    exact on_upsertAll_cons_eq_ok.mpr ⟨_, _, on_upsert_of_same hx hsame, ih hes⟩

theorem get?_foldl_unchanged (es : List Entry) (name : String) :
    (es.foldl (fun (c : Counts) _ => c.add .unchanged) ∅).get? name =
      if name = Stored.unchanged.name ∧ es ≠ [] then some es.length else none := by
  induction es using List.reverseRecOn generalizing name with
  | nil =>
    rw [if_neg fun h => h.2 rfl]
    rfl
  | append_singleton es e ih =>
    have hcount : ((es.foldl (fun (c : Counts) _ => c.add .unchanged) ∅).get?
        Stored.unchanged.name).getD 0 = es.length := by
      rw [ih]
      cases es <;> rfl
    rw [List.foldl_concat, Counts.add, Dict.get?_insert, hcount, List.length_append]
    by_cases hname : name = Stored.unchanged.name
    · simp [hname]
    · simp [hname, ih]

theorem on_writeRecord_inaccessible {α : Type} {f : Unit → α} {err : DatabaseError}
    (h : ((db.writeRecord e).on t).1.map f = .error err) :
    ∃ record error, err = .inaccessible record error := by
  rw [writeRecord] at h
  simp only [Disk.on_withError] at h
  cases hreplace : ((FileTree.replace (db.recordPath e.path) (recordContent e)).on t).1 with
  | ok =>
    rw [hreplace] at h
    cases h
  | error error =>
    rw [hreplace] at h
    cases h
    exact ⟨_, error, rfl⟩

theorem StoreInv.on_upsert_inaccessible (h : StoreInv db l t) {err : DatabaseError}
    (hon : (db.upsert e).on t = (.error err, t')) :
    ∃ record error, err = .inaccessible record error := by
  rcases h.get?_cases e.path with ⟨-, hnone⟩ | ⟨x, -, hsome⟩
  · rw [on_upsert_of_none hnone] at hon
    exact on_writeRecord_inaccessible (congrArg Prod.fst hon)
  · cases hsame : x.sameState e with
    | true =>
      rw [on_upsert_of_same hsome hsame] at hon
      cases hon
    | false =>
      rw [on_upsert_of_changed hsome hsame] at hon
      exact on_writeRecord_inaccessible (congrArg Prod.fst hon)

/-- Only a record that can not be written stops the storing of entries. -/
theorem StoreInv.on_upsertAll_error (h : StoreInv db l t) (htimed : ∀ e ∈ es, e.IsTimed)
    {err : DatabaseError} (hon : (db.upsertAll counts es).on t = (.error err, t')) :
    ∃ record error, err = .inaccessible record error := by
  induction es generalizing counts t with
  | nil => cases hon
  | cons e es ih =>
    obtain ⟨he, htimed⟩ := List.forall_mem_cons.mp htimed
    rw [on_upsertAll_cons] at hon
    cases hfirst : (db.upsert e).on t with
    | mk result t₁ =>
      rw [hfirst] at hon
      cases result with
      | ok s => exact ih (h.of_upsert he hfirst).1 htimed hon
      | error failure =>
        cases hon
        exact h.on_upsert_inaccessible hfirst

/-! ### All entries -/

theorem StoreInv.mem_all (h : StoreInv db l t) (hall : db.all t = .ok es) :
    e ∈ es ↔ db.get? t e.path = .ok (some e) := by
  obtain ⟨_, hall', hmem⟩ := h.exists_all
  obtain rfl := Except.ok.inj (hall'.symm.trans hall)
  exact hmem e

theorem StoreInv.nodup_recordName (h : StoreInv db l t) (hall : db.all t = .ok es) :
    (es.map fun e => recordName e.path).Nodup := by
  refine List.Nodup.map_on (fun a ha b hb hname => ?_) (h.all_sorted hall).2.of_map
  have hsame : db.get? t a.path = db.get? t b.path := get?_congr hname
  rw [(h.mem_all hall).mp ha, (h.mem_all hall).mp hb] at hsame
  exact Option.some.inj (Except.ok.inj hsame)

theorem StoreInv.all_perm (h : StoreInv db l t) (hall : db.all t = .ok es)
    (honce : (es'.map (·.path)).Nodup) (hmem : ∀ e, e ∈ es' ↔ db.get? t e.path = .ok (some e)) :
    es.Perm es' :=
  (List.perm_ext_iff_of_nodup (h.all_sorted hall).2.of_map honce.of_map).mpr fun e =>
    (h.mem_all hall).trans (hmem e).symm

theorem StoreInv.isTimed_checked (h : StoreInv db l t) (hall : db.all t = .ok es)
    (hnow : now.IsValid) {checked : List Entry}
    (hchecked : checked.Perm (es.map (checkEntry t es now))) : ∀ e ∈ checked, e.IsTimed := by
  intro e he
  obtain ⟨x, hx, rfl⟩ := List.mem_map.mp (hchecked.mem_iff.mp he)
  exact ⟨hnow, (h.get?_eq_some.mp ((h.mem_all hall).mp hx)).timed.history⟩

/-- After a validation that was stored, the entries are those before it, refreshed. -/
theorem StoreInv.mem_refreshed (h : StoreInv db l t) (hall : db.all t = .ok es)
    (hnow : now.IsValid) {checked : List Entry}
    (hchecked : checked.Perm (es.map (checkEntry t es now)))
    (hon : (db.upsertAll counts checked).on t = (.ok counts', t')) :
    StoreInv db l t' ∧
      ∀ e, e ∈ es.map (refreshed t es now) ↔ db.get? t' e.path = .ok (some e) := by
  have hmem : ∀ x ∈ es, checkEntry t es now x ∈ checked := fun x hx =>
    hchecked.mem_iff.mpr (List.mem_map_of_mem hx)
  have honce : (checked.map fun e => recordName e.path).Nodup := by
    rw [(hchecked.map _).nodup_iff, List.map_map]
    exact h.nodup_recordName hall
  obtain ⟨h', hin, hout⟩ := h.of_upsertAll (h.isTimed_checked hall hnow hchecked) honce hon
  have hstored : ∀ x ∈ es, db.get? t' x.path = .ok (some (refreshed t es now x)) := fun x hx => by
    have hget := hin _ (hmem x hx)
    rw [show (checkEntry t es now x).path = x.path from rfl, (h.mem_all hall).mp hx] at hget
    exact hget
  refine ⟨h', fun e => ⟨fun he => ?_, fun hget => ?_⟩⟩
  · obtain ⟨x, hx, rfl⟩ := List.mem_map.mp he
    rw [(checkedLike_refreshed t es now x).path, hstored x hx]
  · by_cases hname : recordName e.path ∈ checked.map fun e => recordName e.path
    · obtain ⟨_, hc, hname⟩ := List.mem_map.mp hname
      obtain ⟨x, hx, rfl⟩ := List.mem_map.mp (hchecked.mem_iff.mp hc)
      have hname : recordName x.path = recordName e.path := hname
      rw [← get?_congr hname, hstored x hx] at hget
      exact List.mem_map.mpr ⟨x, hx, Option.some.inj (Except.ok.inj hget)⟩
    · rw [hout _ hname, ← h.mem_all hall] at hget
      exact absurd (List.mem_map.mpr ⟨_, hmem e hget, rfl⟩) hname

/-! ### Validating, and validating again -/

/-- The paths of the entries that failed, in their order. -/
def failedPaths (es : List Entry) : List Path := (es.filter (·.status = .failed)).map (·.path)

theorem failedPaths_eq (es : List Entry) :
    failedPaths es = ((es.map verdict).filter (·.2 = .failed)).map (·.1) := by
  rw [failedPaths, List.filter_map, List.map_map]
  rfl

theorem perm_failedPaths (h : (es.map verdict).Perm (es'.map verdict)) :
    (failedPaths es).Perm (failedPaths es') := by
  rw [failedPaths_eq, failedPaths_eq]
  exact (h.filter _).map _

theorem failedPaths_sorted (t : FileTree) (es : List Entry) (workers : Nat)
    (schedule : Nat → Nat) (now : Instant) :
    (failedPaths (validateEntries t es workers schedule now)).Pairwise
      fun p q => compare p q ≠ .gt :=
  List.pairwise_map.mpr ((Path.pairwise_mergeSort Entry.path _).sublist List.filter_sublist)

/-- The entries after a validation that was stored have the status that it has found. -/
theorem StoreInv.exists_all_refreshed (h : StoreInv db l t')
    (hmem : ∀ e, e ∈ es.map (refreshed t es now) ↔ db.get? t' e.path = .ok (some e))
    (honce : (es.map (·.path)).Nodup) :
    ∃ stored, db.all t' = .ok stored ∧ stored.Perm (es.map (refreshed t es now)) ∧
      (stored.map verdict).Perm ((es.map (checkEntry t es now)).map verdict) := by
  obtain ⟨stored, hall, -⟩ := h.exists_all
  have hpaths : (es.map (refreshed t es now)).map (·.path) = es.map (·.path) := by
    rw [List.map_map]
    exact List.map_congr_left fun e _ => (checkedLike_refreshed t es now e).path
  have hperm := h.all_perm hall (hpaths ▸ honce) hmem
  refine ⟨stored, hall, hperm, (hperm.map _).trans (List.Perm.of_eq ?_)⟩
  rw [List.map_map, List.map_map]
  exact List.map_congr_left fun e _ => verdict_refreshed t es now e

/-- Another validation of these entries finds what is stored. -/
theorem StoreInv.validateEntries_refreshed (h : StoreInv db l t') {stored : List Entry}
    (hall : db.all t' = .ok stored) (hperm : stored.Perm (es.map (refreshed t es now)))
    (hfiles : ∀ e ∈ es, hashOfFile t' e.path = hashOfFile t e.path) (workers : Nat)
    (schedule : Nat → Nat) (now' : Instant) :
    (∀ e ∈ validateEntries t' stored workers schedule now',
      ∃ x, db.get? t' e.path = .ok (some x) ∧ x.sameState e = true) ∧
    ((validateEntries t' stored workers schedule now').map verdict).Perm (stored.map verdict) := by
  have hsame : ∀ e ∈ stored, e.sameState (checkEntry t' stored now' e) = true := fun e he =>
    sameState_of_refreshed hperm hfiles he
  have hagain := validateEntries_perm t' stored workers schedule now'
  refine ⟨fun e he => ?_, (hagain.map _).trans (List.Perm.of_eq ?_)⟩
  · obtain ⟨x, hx, rfl⟩ := List.mem_map.mp (hagain.mem_iff.mp he)
    exact ⟨x, (h.mem_all hall).mp hx, hsame x hx⟩
  · rw [List.map_map]
    refine List.map_congr_left fun e he => ?_
    have hstatus := hsame e he
    rw [sameState_checkEntry, decide_eq_true_eq] at hstatus
    exact congrArg (Prod.mk e.path) hstatus.symm

theorem validate_eq_ok (hall : db.all t = .ok es) (workers : Nat) (schedule : Nat → Nat)
    (now : Instant) :
    db.validate t workers schedule now = .ok (validateEntries t es workers schedule now) := by
  rw [validate, hall]
  rfl

/-- Once a validation is stored, every entry has the status that was found. Until a file changes,
validations find the same failures, and storing them writes nothing. -/
theorem Filled.validate_converges (h : db.Filled es t) (hnow : now.IsValid) (workers : Nat)
    (schedule : Nat → Nat) :
    ∃ checked, db.validate t workers schedule now = .ok checked ∧
      (∀ err t', (db.upsertAll ∅ checked).on t = (.error err, t') →
        ∃ record error, err = .inaccessible record error) ∧
      ∀ counts t', (db.upsertAll ∅ checked).on t = (.ok counts, t') →
        (∃ stored, db.all t' = .ok stored ∧ (stored.map verdict).Perm (checked.map verdict)) ∧
        ∀ later, db.SameRecords t' later →
          (∀ e ∈ checked, hashOfFile later e.path = hashOfFile t e.path) →
          ∀ workers' schedule' now', ∃ again counts',
            db.validate later workers' schedule' now' = .ok again ∧
            (db.upsertAll ∅ again).on later = (.ok counts', later) ∧
            (∀ name, counts'.get? name =
              if name = Stored.unchanged.name ∧ again ≠ [] then some again.length else none) ∧
            (failedPaths again).Perm (failedPaths checked) ∧
            (failedPaths again).map Path.parts = (failedPaths checked).map Path.parts := by
  obtain ⟨l, hstore⟩ := h.exists_storeInv
  obtain ⟨all, hall, -⟩ := hstore.exists_all
  have honce := (hstore.all_sorted hall).2
  have hchecked := validateEntries_perm t all workers schedule now
  refine ⟨_, validate_eq_ok hall workers schedule now, fun err t' hon => ?_,
    fun counts t' hon => ?_⟩
  · exact hstore.on_upsertAll_error (hstore.isTimed_checked hall hnow hchecked) hon
  -- what is stored now is what was found, entry by entry, so that a second pass finds it again
  obtain ⟨hstore', hmem⟩ := hstore.mem_refreshed hall hnow hchecked hon
  refine ⟨?_, fun later hsame hfiles workers' schedule' now' => ?_⟩
  · obtain ⟨stored, hall', -, hverdicts⟩ := hstore'.exists_all_refreshed hmem honce
    exact ⟨stored, hall', hverdicts.trans (hchecked.map _).symm⟩
  · have hlater := hstore'.of_same hsame
    have hmem' : ∀ e, e ∈ all.map (refreshed t all now) ↔
        db.get? later e.path = .ok (some e) := fun e => by
      rw [hmem, hstore'.get?_of_same hsame]
    have hfiles' : ∀ e ∈ all, hashOfFile later e.path = hashOfFile t e.path := fun e he =>
      hfiles (checkEntry t all now e) (hchecked.mem_iff.mpr (List.mem_map_of_mem he))
    obtain ⟨stored, hall', hperm, hverdicts⟩ := hlater.exists_all_refreshed hmem' honce
    obtain ⟨hunchanged, hagain⟩ := hlater.validateEntries_refreshed hall' hperm hfiles' workers'
      schedule' now'
    have hfailed := perm_failedPaths ((hagain.trans hverdicts).trans (hchecked.map _).symm)
    exact ⟨_, _, validate_eq_ok hall' workers' schedule' now', on_upsertAll_of_same hunchanged,
      get?_foldl_unchanged _, hfailed,
      Path.map_parts_eq_of_perm hfailed (failedPaths_sorted ..) (failedPaths_sorted ..)⟩

/-! ### An entry whose file is gone -/

theorem hashOfFile_firstEntry (h : t.node? ["data"] = none) :
    hashOfFile t firstEntry.path = .error .notFound := by
  have hlocate : t.locate firstEntry.path = .error .notFound := by
    show t.walk ⟨true, false⟩ linkLimit [] ["data", "co2.nc"] = _
    rw [walk_nothing rfl ⟨by decide, by decide, by decide⟩ h]
    rfl
  rw [hashOfFile, FileTree.read, lookup, hlocate]
  rfl

theorem all_firstTree : sampleDatabase.all firstTree = .ok [firstEntry] := by
  obtain ⟨all, hall, -⟩ := storeInv_firstTree.exists_all
  have hperm : all.Perm [firstEntry] := by
    refine storeInv_firstTree.all_perm hall (List.nodup_singleton _) fun e => ?_
    rw [firstTree, storeInv_sampleTree.get?_withRecord isTimed_firstEntry (allowed_sample _),
      storeInv_sampleTree.get?_of_nothing (nothing_sampleTree _), List.mem_singleton]
    split
    · rw [Except.ok.injEq, Option.some.injEq, eq_comm]
    · rename_i hname
      refine ⟨fun he => absurd (he ▸ rfl) hname, fun hnone => ?_⟩
      rw [Except.ok.injEq] at hnone
      cases hnone
  rw [hall, List.perm_singleton.mp hperm]

/-- The entry above, checked on the next day. -/
def lostEntry : Entry := checkEntry firstTree [firstEntry] ⟨⟨2024, 1, 2⟩, 0, 0⟩ firstEntry

theorem status_lostEntry : lostEntry.status = .failed :=
  failed_checkEntry_iff.mpr (.inr (.inl fun ⟨_, hnone, _⟩ => nomatch hnone))

def lostTree : FileTree := withRecord ["db"] firstTree (lostEntry.revise firstEntry)

theorem on_upsertAll_lostEntry :
    (sampleDatabase.upsertAll ∅ [lostEntry]).on firstTree =
      (.ok (Counts.add ∅ .updated), lostTree) := by
  have hchanged : firstEntry.sameState lostEntry = false := by
    rw [lostEntry, sameState_checkEntry, ← lostEntry, status_lostEntry]
    decide
  have hget : sampleDatabase.get? firstTree lostEntry.path = .ok (some firstEntry) :=
    get?_firstTree
  refine on_upsertAll_cons_eq_ok.mpr ⟨.updated, lostTree, ?_, rfl⟩
  rw [on_upsert_of_changed hget hchanged,
    storeInv_firstTree.on_writeRecord_eq_ok (directoryOf_recordPath_sample _) (by decide)
      (nothing_firstTree (by decide))]
  rfl

/-- The entry fails, and is stored so; it fails again, and nothing is stored. -/
theorem validate_converges_sample :
    sampleDatabase.Filled [firstEntry] firstTree ∧ Instant.IsValid ⟨⟨2024, 1, 2⟩, 0, 0⟩ ∧
      sampleDatabase.validate firstTree 1 (fun _ => 0) ⟨⟨2024, 1, 2⟩, 0, 0⟩ = .ok [lostEntry] ∧
      (sampleDatabase.upsertAll ∅ [lostEntry]).on firstTree =
        (.ok (Counts.add ∅ .updated), lostTree) ∧
      (∃ stored, sampleDatabase.all lostTree = .ok stored ∧
        stored.map verdict = [(⟨"/data/co2.nc"⟩, .failed)]) ∧
      ∃ again counts, sampleDatabase.validate lostTree 1 (fun _ => 0) ⟨⟨2024, 1, 3⟩, 0, 0⟩ =
          .ok again ∧
        (sampleDatabase.upsertAll ∅ again).on lostTree = (.ok counts, lostTree) ∧
        counts.get? "updated" = none ∧ failedPaths again = [⟨"/data/co2.nc"⟩] := by
  have hfilled : sampleDatabase.Filled [firstEntry] firstTree :=
    (Filled.empty all_sampleTree).upsert isTimed_firstEntry on_upsert_firstEntry
  have hnow : Instant.IsValid ⟨⟨2024, 1, 2⟩, 0, 0⟩ :=
    ⟨by decide, by decide, by decide, .inl (by decide)⟩
  have hvalidate : sampleDatabase.validate firstTree 1 (fun _ => 0) ⟨⟨2024, 1, 2⟩, 0, 0⟩ =
      .ok [lostEntry] := by
    rw [validate_eq_ok all_firstTree]
    exact congrArg _ (List.perm_singleton.mp (validateEntries_perm ..))
  have hverdict : verdict lostEntry = (⟨"/data/co2.nc"⟩, .failed) :=
    congrArg (Prod.mk _) status_lostEntry
  have hfailed : failedPaths [lostEntry] = [⟨"/data/co2.nc"⟩] := by
    rw [failedPaths_eq, List.map_singleton, hverdict]
    rfl
  have hnode {t : FileTree} (e : Entry) (h : t.node? ["data"] = none) :
      (withRecord ["db"] t e).node? ["data"] = none := by
    rw [node?_withRecord, if_neg (by simp), h]
  -- the file that the entry is about is not there
  have hgone : firstTree.node? ["data"] = none := hnode firstEntry (by decide)
  obtain ⟨checked, hchecked, -, hstored⟩ := hfilled.validate_converges hnow 1 fun _ => 0
  obtain rfl := Except.ok.inj (hvalidate.symm.trans hchecked)
  obtain ⟨⟨stored, hall, hperm⟩, hagain⟩ := hstored _ _ on_upsertAll_lostEntry
  obtain ⟨again, counts, hvalidate', hon, hcounts, hperm', -⟩ :=
    hagain lostTree (fun _ hl => ⟨hl, rfl, fun _ _ => rfl⟩)
      (List.forall_mem_singleton.mpr
        ((hashOfFile_firstEntry (hnode _ hgone)).trans (hashOfFile_firstEntry hgone).symm))
      1 (fun _ => 0) ⟨⟨2024, 1, 3⟩, 0, 0⟩
  refine ⟨hfilled, hnow, hvalidate, on_upsertAll_lostEntry, ⟨stored, hall, ?_⟩, again, counts,
    hvalidate', hon, ?_, List.perm_singleton.mp (hfailed ▸ hperm')⟩
  · rw [List.map_singleton, hverdict] at hperm
    exact List.perm_singleton.mp hperm
  · rw [hcounts, if_neg fun h => absurd h.1 (by decide)]

end Database
end ForcingData
