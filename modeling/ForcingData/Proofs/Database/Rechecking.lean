import ForcingData.Database.Check
import ForcingData.Proofs.Path
import ForcingData.Proofs.Pool.Collect
import ForcingData.Proofs.Sharing

/-! # Checking entries again

A check looks at what an entry says about its file, never at what an earlier check found: whatever
is checked twice is found as if it had been checked once (`checkEntry_checkEntry`). So the entries
that a validation returns are those it was given, with new findings, in the order of their paths
(`PathsDiffer.validateEntries_eq`), and a second validation finds the same, but for the order in
which paths are listed (`validateEntries_rechecks`). -/

namespace ForcingData

theorem EntryStatus.ofStatus_eq_failed {s : Status} : ofStatus s = .failed ↔ s = .fail := by
  cases s <;> decide

namespace Entry
open Database

/-- What a check makes of an entry: the findings of the check are new, all others stay, and they
decide on the status. -/
structure Rechecked (t : FileTree) (now : Instant) (e e' : Entry) : Prop where
  frame : { e' with status := e.status, findings := e.findings, timestamp := e.timestamp } = e
  timestamp : e'.timestamp = now
  findings : ∃ hash unique : Finding, hash.rule = hashRule ∧ unique.rule = uniqueRule ∧
    e'.findings = otherFindings e ++ [hash, unique] ∧
    (hash.isFail = false ↔ ∃ recorded, e.sha256 = some recorded ∧
      hashOfFile t e.path = .ok recorded)
  status : e'.status = .failed ↔ ∃ f ∈ e'.findings, f.isFail = true

/-- The same entry at another time, but for the order in which findings list paths. -/
structure Relisted (e e' : Entry) : Prop where
  frame : { e' with timestamp := e.timestamp, findings := e.findings } = e
  findings : List.Forall₂ Finding.Relisted e.findings e'.findings

end Entry

namespace Database
variable {t t' : FileTree} {es es' : List Entry} {e : Entry} {now now' : Instant} {id : String}
  {workers : Nat} {schedule : Nat → Nat}

/-! ### Findings about one entry -/

theorem rule_checkHash (t : FileTree) (e : Entry) : (checkHash t e).rule = hashRule := by
  unfold checkHash
  simp only [Finding.withTarget]
  split
  · rfl
  · rfl
  · split <;> rfl

theorem rule_checkTrackingId (es : List Entry) (e : Entry) :
    (checkTrackingId es e).rule = uniqueRule := by
  unfold checkTrackingId
  simp only [Finding.withTarget]
  split
  · rfl
  · split <;> rfl

theorem isFail_checkHash (t : FileTree) (e : Entry) : (checkHash t e).isFail = false ↔
    ∃ recorded, e.sha256 = some recorded ∧ hashOfFile t e.path = .ok recorded := by
  unfold checkHash
  simp only [Finding.withTarget]
  split
  · rename_i heq
    exact ⟨nofun, fun ⟨_, _, h⟩ => nomatch heq.symm.trans h⟩
  · rename_i hnone _
    exact ⟨nofun, fun ⟨_, h, _⟩ => nomatch hnone.symm.trans h⟩
  · rename_i recorded actual hsome hok
    simp only [hsome, hok, Option.some.injEq, Except.ok.injEq, exists_eq_left']
    split
    · rename_i heq
      exact ⟨fun _ => heq.symm, fun _ => rfl⟩
    · rename_i hne
      exact ⟨nofun, fun heq => absurd heq.symm hne⟩

theorem isFail_checkTrackingId (es : List Entry) (e : Entry) :
    (checkTrackingId es e).isFail = true ↔
      ∃ id, e.trackingId? = some id ∧ 1 < (owners es id).length := by
  unfold checkTrackingId
  simp only [Finding.withTarget]
  split
  · rename_i hnone
    exact ⟨nofun, fun ⟨_, h, _⟩ => nomatch hnone.symm.trans h⟩
  · rename_i id hsome
    simp only [hsome, Option.some.injEq, exists_eq_left']
    split
    · rename_i hmany
      exact ⟨fun _ => hmany, fun _ => rfl⟩
    · rename_i hone
      exact ⟨nofun, fun hmany => absurd hmany hone⟩

theorem length_owners (es : List Entry) (id : String) :
    (owners es id).length = (es.map (·.trackingId?)).count (some id) := by
  rw [owners, List.length_map, List.count, List.countP_map, ← List.countP_eq_length_filter]
  exact List.countP_congr fun e _ => by simp

theorem checkHash_congr (h : hashOfFile t' e.path = hashOfFile t e.path) :
    checkHash t' e = checkHash t e := by
  unfold checkHash
  rw [h]

theorem checkTrackingId_congr (h : ∀ id, owners es' id = owners es id) (e : Entry) :
    checkTrackingId es' e = checkTrackingId es e := by
  unfold checkTrackingId
  simp only [h]

theorem relisted_checkTrackingId (h : ∀ id, (owners es id).Perm (owners es' id)) (e : Entry) :
    (checkTrackingId es e).Relisted (checkTrackingId es' e) := by
  unfold checkTrackingId
  simp only
  cases e.trackingId? with
  | none => exact .same _
  | some id =>
    simp only [(h id).length_eq]
    split
    · exact .listed (f := (Finding.fail uniqueRule .notUnique "").withTarget e.path.text) rfl id
        (h id)
    · exact .same _

/-! ### One entry -/

theorem findings_checkEntry (t : FileTree) (es : List Entry) (now : Instant) (e : Entry) :
    (checkEntry t es now e).findings =
      otherFindings e ++ [checkHash t e] ++ [checkTrackingId es e] :=
  List.append_cons _ _ _

theorem otherFindings_checkEntry (t : FileTree) (es : List Entry) (now : Instant) (e : Entry) :
    otherFindings (checkEntry t es now e) = otherFindings e := by
  rw [otherFindings, findings_checkEntry, List.filter_append, List.filter_append]
  simp [otherFindings, List.filter_filter, rule_checkHash, rule_checkTrackingId]

theorem checkEntry_checkEntry (t t' : FileTree) (es es' : List Entry) (now now' : Instant)
    (e : Entry) :
    checkEntry t' es' now' (checkEntry t es now e) = checkEntry t' es' now' e := by
  show e.withValidation
    (otherFindings (checkEntry t es now e) ++ [checkHash t' e, checkTrackingId es' e]) now' = _
  rw [otherFindings_checkEntry]
  rfl

theorem rechecked_checkEntry (t : FileTree) (es : List Entry) (now : Instant) (e : Entry) :
    e.Rechecked t now (checkEntry t es now e) where
  frame := rfl
  timestamp := rfl
  findings := ⟨checkHash t e, checkTrackingId es e, rule_checkHash t e, rule_checkTrackingId es e,
    rfl, isFail_checkHash t e⟩
  status := by
    show EntryStatus.ofStatus _ = _ ↔ _
    rw [EntryStatus.ofStatus_eq_failed, Findings.summary_eq_fail, Findings.hasFailures,
      List.any_eq_true]
    rfl

theorem rechecked_map (t : FileTree) (es : List Entry) (now : Instant) :
    List.Forall₂ (Entry.Rechecked t now) es (es.map (checkEntry t es now)) :=
  List.forall₂_map_right_iff.mpr
    (List.forall₂_same.mpr fun e _ => rechecked_checkEntry t es now e)

theorem relisted_checkEntry (hfile : hashOfFile t' e.path = hashOfFile t e.path)
    (howners : ∀ id, (owners es id).Perm (owners es' id)) :
    (checkEntry t es now e).Relisted (checkEntry t' es' now' e) := by
  have hfindings : List.Forall₂ Finding.Relisted (checkEntry t es now e).findings
      (checkEntry t' es' now' e).findings := by
    rw [findings_checkEntry, findings_checkEntry, checkHash_congr hfile]
    exact Findings.relisted_concat _ (relisted_checkTrackingId howners e)
  have hstatus : (checkEntry t' es' now' e).status = (checkEntry t es now e).status :=
    congrArg EntryStatus.ofStatus (Findings.summary_relisted hfindings).symm
  refine ⟨?_, hfindings⟩
  show { checkEntry t es now e with status := (checkEntry t' es' now' e).status } = _
  rw [hstatus]

theorem checkEntry_congr (hfile : hashOfFile t' e.path = hashOfFile t e.path)
    (howners : ∀ id, owners es' id = owners es id) :
    checkEntry t' es' now' e = { checkEntry t es now e with timestamp := now' } := by
  rw [checkEntry, checkHash_congr hfile, checkTrackingId_congr howners]
  rfl

/-! ### Lists of entries -/

/-- The entries are of different paths. -/
def PathsDiffer (es : List Entry) : Prop := es.Pairwise fun a b => a.path.same b.path = false

theorem owners_perm (h : es.Perm es') (id : String) : (owners es id).Perm (owners es' id) :=
  (h.filter _).map _

theorem owners_map_checkEntry (t : FileTree) (others : List Entry) (now : Instant)
    (es : List Entry) (id : String) :
    owners (es.map (checkEntry t others now)) id = owners es id := by
  rw [owners, owners, List.filter_map, List.map_map]
  rfl

/-- The entries that the workers have checked, in the order they come. -/
theorem collect_perm_map (t : FileTree) (es : List Entry) (workers : Nat) (schedule : Nat → Nat)
    (now : Instant) :
    (Pool.collect workers schedule (fun e => Outcome.done (checkEntry t es now e))
      (abortedEntry now) (fun _ => false) es).1.Perm (es.map (checkEntry t es now)) :=
  Pool.collect_perm fun _ _ => rfl

theorem validateEntries_perm (t : FileTree) (es : List Entry) (workers : Nat)
    (schedule : Nat → Nat) (now : Instant) :
    (validateEntries t es workers schedule now).Perm (es.map (checkEntry t es now)) :=
  (List.mergeSort_perm _ _).trans (collect_perm_map t es workers schedule now)

theorem sortByPath_of_sorted (h : es.Pairwise fun a b => compare a.path b.path = .lt) :
    sortByPath es = es :=
  List.mergeSort_of_pairwise (h.imp fun hlt => by rw [entryLe, hlt]; rfl)

namespace PathsDiffer

theorem perm (h : PathsDiffer es) (hperm : es.Perm es') : PathsDiffer es' := by
  refine (hperm.pairwise_iff fun {a b} hab => ?_).mp h
  rw [Path.same, beq_eq_false_iff_ne] at hab ⊢
  exact hab.symm

theorem map_checkEntry (h : PathsDiffer es) (t : FileTree) (others : List Entry) (now : Instant) :
    PathsDiffer (es.map (checkEntry t others now)) := List.pairwise_map.mpr h

theorem sorted (h : PathsDiffer es) :
    (sortByPath es).Pairwise fun a b => compare a.path b.path = .lt := by
  have hle : (sortByPath es).Pairwise fun a b => compare a.path b.path ≠ .gt :=
    Path.pairwise_mergeSort Entry.path es
  refine (hle.and (h.perm (List.mergeSort_perm _ _).symm)).imp fun {a b} ⟨hle, hdiffer⟩ => ?_
  rw [Path.same, beq_eq_false_iff_ne] at hdiffer
  cases hcompare : compare a.path b.path with
  | lt => rfl
  | eq => exact absurd (Path.compare_eq_iff.mp hcompare) hdiffer
  | gt => exact absurd hcompare hle

theorem sortByPath_eq (h : PathsDiffer es) (hperm : es.Perm es') :
    sortByPath es = sortByPath es' :=
  Path.eq_of_perm Entry.path
    (((List.mergeSort_perm _ _).trans hperm).trans (List.mergeSort_perm _ _).symm) h.sorted
    (h.perm hperm).sorted

theorem validateEntries_eq (h : PathsDiffer es) (t : FileTree) (workers : Nat)
    (schedule : Nat → Nat) (now : Instant) :
    validateEntries t es workers schedule now = sortByPath (es.map (checkEntry t es now)) :=
  (sortByPath_eq (h.map_checkEntry t es now)
    (collect_perm_map t es workers schedule now).symm).symm

/-- A second validation checks what the first one has returned, and leaves it in order. -/
theorem validateEntries_again (h : PathsDiffer es) (t t' : FileTree) (workers : Nat)
    (schedule : Nat → Nat) (now now' : Instant) {out : List Entry}
    (hout : out = sortByPath (es.map (checkEntry t es now))) :
    validateEntries t' out workers schedule now' = out.map (checkEntry t' out now') := by
  have hdiffer : PathsDiffer out :=
    hout ▸ (h.map_checkEntry t es now).perm (List.mergeSort_perm _ _).symm
  rw [hdiffer.validateEntries_eq]
  refine sortByPath_of_sorted (List.pairwise_map.mpr ?_)
  show out.Pairwise fun a b => compare a.path b.path = .lt
  exact hout ▸ (h.map_checkEntry t es now).sorted

end PathsDiffer

/-- A validation replaces what earlier ones have found, entry by entry, and another one finds the
same; only the owners of a shared id it lists in the order of their paths. -/
theorem validateEntries_rechecks (t : FileTree) (h : PathsDiffer es) (now : Instant) :
    ∃ out : List Entry,
      (∀ workers schedule, validateEntries t es workers schedule now = out) ∧
      (out.Pairwise fun a b => compare a.path b.path = .lt) ∧
      (∃ checked, out.Perm checked ∧ List.Forall₂ (Entry.Rechecked t now) es checked) ∧
      ∀ (t' : FileTree) (now' : Instant),
        (∀ e ∈ es, hashOfFile t' e.path = hashOfFile t e.path) →
        ∃ again, (∀ workers schedule, validateEntries t' out workers schedule now' = again) ∧
          List.Forall₂ Entry.Relisted out again ∧
          ((∀ id, (owners es id).Pairwise fun p q => compare p q = .lt) →
            again = out.map fun e => { e with timestamp := now' }) := by
  have hchecked := h.map_checkEntry t es now
  have hperm : (sortByPath (es.map (checkEntry t es now))).Perm (es.map (checkEntry t es now)) :=
    List.mergeSort_perm _ _
  refine ⟨_, fun workers schedule => h.validateEntries_eq t workers schedule now, hchecked.sorted,
    ⟨_, hperm, rechecked_map t es now⟩, fun t' now' hfiles => ?_⟩
  generalize hout : sortByPath (es.map (checkEntry t es now)) = out at hperm
  have howners : ∀ id, (owners es id).Perm (owners out id) := fun id => by
    rw [← owners_map_checkEntry t es now es id]
    exact owners_perm hperm.symm id
  -- what the second validation is given is what it would have made of the entries themselves
  have hgiven : ∀ e ∈ out, ∃ x ∈ es, checkEntry t es now x = e := fun e he =>
    List.mem_map.mp (hperm.mem_iff.mp he)
  refine ⟨_, fun workers schedule => h.validateEntries_again t t' workers schedule now now'
    hout.symm, ?_, fun hsorted => List.map_congr_left fun e he => ?_⟩
  · refine List.forall₂_map_right_iff.mpr (List.forall₂_same.mpr fun e he => ?_)
    obtain ⟨x, hx, rfl⟩ := hgiven e he
    rw [checkEntry_checkEntry]
    exact relisted_checkEntry (hfiles x hx) howners
  · obtain ⟨x, hx, rfl⟩ := hgiven e he
    have hout' : out.Pairwise fun a b => compare a.path b.path = .lt := hout ▸ hchecked.sorted
    have hsame : ∀ id, owners out id = owners es id := fun id =>
      Path.eq_of_perm (fun p => p) (howners id).symm
        (List.pairwise_map.mpr (hout'.sublist List.filter_sublist)) (hsorted id)
    rw [checkEntry_checkEntry]
    exact checkEntry_congr (hfiles x hx) hsame

/-! ### Two files that share an id -/

/-- The entry of a file that has the id `co2`. -/
def sharingEntry (path : String) : Entry :=
  { Entry.blank ⟨path⟩ ⟨⟨2024, 1, 1⟩, 0, 0⟩ with
    attributes := Dict.ofList [("tracking_id", "co2")] }

/-- Two such entries, not in the order of their paths. -/
def sharing : List Entry := [sharingEntry "b.nc", sharingEntry "a.nc"]

theorem pathsDiffer_sharing : PathsDiffer sharing := by
  unfold PathsDiffer
  decide

theorem sortByPath_pair {a b : Entry} (h : entryLe a b = false) : sortByPath [a, b] = [b, a] := by
  simp [sortByPath, List.mergeSort, List.MergeSort.Internal.splitInTwo, h]

theorem validateEntries_sharing (t : FileTree) (workers : Nat) (schedule : Nat → Nat)
    (now : Instant) : validateEntries t sharing workers schedule now =
      [checkEntry t sharing now (sharingEntry "a.nc"),
        checkEntry t sharing now (sharingEntry "b.nc")] := by
  rw [pathsDiffer_sharing.validateEntries_eq]
  exact sortByPath_pair (show (compare (Path.mk "b.nc") ⟨"a.nc"⟩ != .gt) = false by decide)

theorem status_sharing (t : FileTree) (now : Instant) :
    ∀ e ∈ sharing, (checkEntry t sharing now e).status = .failed := by
  intro e he
  refine (rechecked_checkEntry t sharing now e).status.mpr ⟨checkTrackingId sharing e, ?_, ?_⟩
  · rw [findings_checkEntry]
    exact List.mem_append_right _ (List.mem_singleton_self _)
  · revert e
    decide

/-- Both entries say that the id is shared, and another validation says so again. -/
theorem validateEntries_rechecks_sample : PathsDiffer sharing ∧
    ∃ out, (∀ workers schedule,
        validateEntries ⟨∅, []⟩ sharing workers schedule ⟨⟨2024, 1, 2⟩, 0, 0⟩ = out) ∧
      out.map (·.path) = [⟨"a.nc"⟩, ⟨"b.nc"⟩] ∧ (∀ e ∈ out, e.status = .failed) ∧
      ∃ again, (∀ workers schedule,
          validateEntries ⟨∅, []⟩ out workers schedule ⟨⟨2024, 1, 3⟩, 0, 0⟩ = again) ∧
        List.Forall₂ Entry.Relisted out again := by
  obtain ⟨out, hout, -, -, hagain⟩ :=
    validateEntries_rechecks ⟨∅, []⟩ pathsDiffer_sharing ⟨⟨2024, 1, 2⟩, 0, 0⟩
  obtain ⟨again, hagain, hrelisted, -⟩ := hagain ⟨∅, []⟩ ⟨⟨2024, 1, 3⟩, 0, 0⟩ fun _ _ => rfl
  have hpair := (hout 1 fun _ => 0).symm.trans (validateEntries_sharing ..)
  refine ⟨pathsDiffer_sharing, out, hout, hpair ▸ rfl, ?_, again, hagain, hrelisted⟩
  rw [hpair]
  exact List.forall_mem_cons.mpr ⟨status_sharing _ _ _ (.tail _ (.head _)),
    List.forall_mem_singleton.mpr (status_sharing _ _ _ (.head _))⟩

/-- The first validation lists the files as they are given, the second one by path. -/
theorem validateEntries_lists_anew : PathsDiffer sharing ∧
    (validateEntries ⟨∅, []⟩
      (validateEntries ⟨∅, []⟩ sharing 1 (fun _ => 0) ⟨⟨2024, 1, 2⟩, 0, 0⟩) 1 (fun _ => 0)
      ⟨⟨2024, 1, 3⟩, 0, 0⟩).map (fun e => { e with timestamp := ⟨⟨2024, 1, 2⟩, 0, 0⟩ }) ≠
      validateEntries ⟨∅, []⟩ sharing 1 (fun _ => 0) ⟨⟨2024, 1, 2⟩, 0, 0⟩ := by
  refine ⟨pathsDiffer_sharing, fun heq => ?_⟩
  rw [pathsDiffer_sharing.validateEntries_again ⟨∅, []⟩ ⟨∅, []⟩ 1 (fun _ => 0) ⟨⟨2024, 1, 2⟩, 0, 0⟩
    ⟨⟨2024, 1, 3⟩, 0, 0⟩ (pathsDiffer_sharing.validateEntries_eq ..),
    validateEntries_sharing] at heq
  have hlast := congrArg (List.map fun e : Entry => e.findings.getLast?) heq
  simp only [List.map_cons, findings_checkEntry, List.getLast?_concat] at hlast
  revert hlast
  decide +kernel

end Database
end ForcingData
