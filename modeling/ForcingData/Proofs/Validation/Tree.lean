import ForcingData.Proofs.FileTree.Find
import ForcingData.Proofs.Pool.Collect
import ForcingData.Proofs.Tree.Report
import ForcingData.Proofs.Validation.Placing
import ForcingData.Validation.Tree
import Mathlib.Data.List.Induction

/-! # Reports on whole trees

The report on the attempts at all files is made file by file, whatever the order of the attempts:
first what was found about the file alone, then, if it has a tracking id, what was found about that
(`says_reportOf`). So a run that goes on after failures reports on every file, and one that does not
gives the same report exactly if nothing failed. -/

namespace ForcingData
namespace TreeReport

/-! ### Taking attempts -/

/-- What is found by an attempt alone. -/
def found (a : Attempt) : Findings :=
  match a.2 with
  | .ok v => v.findings
  | .error e => [unreadable a.1 e.message]

theorem hasFailures_found (a : Attempt) : (found a).hasFailures = isHardFailure a := by
  rcases a with ⟨path, e | v⟩ <;> rfl

def validations (attempts : List Attempt) : List FileValidation :=
  attempts.filterMap (·.2.toOption)

/-- The report on all attempts, failed or not. -/
def reportOf (paths : List Path) (attempts : List Attempt) : TreeReport :=
  (attempts.foldl (fun r a => r.finish a.1 (found a)) (discover paths)).checkTrackingIds
    (validations attempts)

/-- The changes by attempts, one after the other. -/
def finishes (attempts : List Attempt) : List (Path × (FileReport → FileReport)) :=
  attempts.map fun a => (a.1, fun _ => .ofFindings (found a))

theorem foldl_finish_eq (attempts : List Attempt) (r : TreeReport) :
    attempts.foldl (fun r a => r.finish a.1 (found a)) r =
      (finishes attempts).foldl (fun r c => r.update c.1 c.2) r := by
  rw [finishes, List.foldl_map]
  rfl

theorem take_true : ∀ (attempts : List Attempt) (r : TreeReport) (vs : List FileValidation),
    take true r vs attempts =
      .ok (attempts.foldl (fun r a => r.finish a.1 (found a)) r, vs ++ validations attempts)
  | [], r, vs => congrArg _ (congrArg _ (List.append_nil vs).symm)
  | (path, .ok v) :: rest, r, vs => by
    rw [take, if_neg (by simp), take_true, List.append_assoc]
    rfl
  | (path, .error e) :: rest, r, vs => by
    rw [take, if_neg (by simp), take_true]
    rfl

theorem take_false_eq : ∀ {attempts : List Attempt} (r : TreeReport) (vs : List FileValidation),
    (∀ a ∈ attempts, isHardFailure a = false) → take false r vs attempts = take true r vs attempts
  | [], _, _, _ => rfl
  | (path, .ok v) :: rest, r, vs, h => by
    obtain ⟨hv, hrest⟩ := List.forall_mem_cons.mp h
    have hv : v.findings.hasFailures = false := hv
    rw [take, take, if_neg (by simp [hv]), if_neg (by simp), take_false_eq _ _ hrest]
  | (path, .error e) :: rest, r, vs, h => nomatch h _ (List.mem_cons_self ..)

theorem exists_take_false_eq_error : ∀ {attempts : List Attempt} (r : TreeReport)
    (vs : List FileValidation), (∃ a ∈ attempts, isHardFailure a = true) →
      ∃ e, take false r vs attempts = .error e
  | [], _, _, h => by simp at h
  | (path, .ok v) :: rest, r, vs, h => by
    rw [take]
    split
    · exact ⟨_, rfl⟩
    · rename_i hv
      refine exists_take_false_eq_error _ _ (((List.exists_mem_cons_iff ..).mp h).resolve_left ?_)
      simpa [isHardFailure] using hv
  | (path, .error e) :: rest, r, vs, h => ⟨.file path e, rfl⟩

theorem ofAttempts_true (paths : List Path) (attempts : List Attempt) :
    ofAttempts true paths attempts = .ok (reportOf paths attempts) := by
  rw [ofAttempts, take_true]
  rfl

theorem ofAttempts_false_eq_ok {paths : List Path} {attempts : List Attempt} {r : TreeReport} :
    ofAttempts false paths attempts = .ok r ↔ (∀ a ∈ attempts, isHardFailure a = false) ∧
      reportOf paths attempts = r ∧ r.inState .failed = [] := by
  by_cases hall : ∀ a ∈ attempts, isHardFailure a = false
  · rw [ofAttempts, take_false_eq _ _ hall, take_true]
    simp only [bind, Except.bind, List.nil_append, Bool.false_eq_true, if_false]
    rw [show (attempts.foldl (fun r a => r.finish a.1 (found a)) (discover paths)).checkTrackingIds
      (validations attempts) = reportOf paths attempts from rfl]
    split
    · rename_i hnil
      exact ⟨fun h => ⟨hall, Except.ok.inj h, Except.ok.inj h ▸ hnil⟩, fun h => h.2.1 ▸ rfl⟩
    · rename_i hcons
      refine ⟨nofun, fun ⟨_, heq, hnil⟩ => ?_⟩
      rw [heq, hnil] at hcons
      cases hcons
  · obtain ⟨e, he⟩ := exists_take_false_eq_error (discover paths) [] (by simpa using hall)
    refine ⟨fun h => ?_, fun h => absurd h.1 hall⟩
    rw [ofAttempts, he] at h
    cases h

/-! ### Tracking ids -/

/-- The files that have this tracking id. -/
def owners (vs : List FileValidation) (id : String) : List Path :=
  (vs.filter fun v => v.trackingId? = some id).map (·.path)

theorem mem_owners {vs : List FileValidation} {id : String} {p : Path} :
    p ∈ owners vs id ↔ ∃ v ∈ vs, v.trackingId? = some id ∧ v.path = p := by
  simp [owners, and_assoc]

theorem owners_concat (vs : List FileValidation) (v : FileValidation) (id : String) :
    owners (vs ++ [v]) id =
      owners vs id ++ if v.trackingId? = some id then [v.path] else [] := by
  rw [owners, List.filter_append, List.map_append]
  by_cases h : v.trackingId? = some id <;> simp [owners, h]

theorem byTrackingId_concat (vs : List FileValidation) {v : FileValidation} {id : String}
    (h : v.trackingId? = some id) : byTrackingId (vs ++ [v]) =
      (byTrackingId vs).insert id (((byTrackingId vs).get? id).getD [] ++ [v.path]) := by
  rw [byTrackingId, List.foldl_concat, h]
  rfl

theorem byTrackingId_concat_none (vs : List FileValidation) {v : FileValidation}
    (h : v.trackingId? = none) : byTrackingId (vs ++ [v]) = byTrackingId vs := by
  rw [byTrackingId, List.foldl_concat, h]
  rfl

theorem get?_byTrackingId (vs : List FileValidation) (id : String) :
    (byTrackingId vs).get? id = if owners vs id = [] then none else some (owners vs id) := by
  induction vs using List.reverseRecOn with
  | nil => rfl
  | append_singleton vs v ih =>
    rw [owners_concat]
    cases hv : v.trackingId? with
    | none => simp [byTrackingId_concat_none vs hv, ih]
    | some own =>
      rw [byTrackingId_concat vs hv, Dict.get?_insert]
      by_cases hid : id = own
      · subst hid
        rw [ih]
        by_cases hnone : owners vs id = [] <;> simp [hnone]
      · simp [hid, Ne.symm hid, ih]

theorem mem_byTrackingId {vs : List FileValidation} {id : String} {ps : List Path} :
    (id, ps) ∈ (byTrackingId vs).toList ↔ ps = owners vs id ∧ ps ≠ [] := by
  rw [Dict.mem_toList, get?_byTrackingId]
  split
  · rename_i hnil
    simp [hnil]
  · rename_i hne
    rw [Option.some.injEq]
    exact ⟨fun h => h ▸ ⟨rfl, hne⟩, fun h => h.1.symm⟩

/-- What the check of tracking ids says about a file that has one. -/
def sharing (vs : List FileValidation) (id : String) (p : Path) : Finding :=
  (uniqueness id (owners vs id)).withTarget p.text

/-- The changes of the check, one after the other. -/
def amendments (vs : List FileValidation) : List (Path × (FileReport → FileReport)) :=
  (byTrackingId vs).toList.flatMap fun (id, paths) =>
    paths.map fun path => (path, (·.amend ((uniqueness id paths).withTarget path.text)))

theorem checkTrackingIds_eq (r : TreeReport) (vs : List FileValidation) :
    r.checkTrackingIds vs = (amendments vs).foldl (fun r c => r.update c.1 c.2) r := by
  rw [amendments, List.foldl_flatMap, checkTrackingIds]
  congr 1
  funext r e
  rw [List.foldl_map]
  rfl

theorem mem_amendments {vs : List FileValidation} {c : Path × (FileReport → FileReport)} :
    c ∈ amendments vs ↔ ∃ v ∈ vs, ∃ id, v.trackingId? = some id ∧
      c = (v.path, (·.amend (sharing vs id v.path))) := by
  rw [amendments, List.mem_flatMap]
  constructor
  · rintro ⟨⟨id, ps⟩, hmem, hc⟩
    obtain ⟨rfl, _⟩ := mem_byTrackingId.mp hmem
    obtain ⟨p, hp, rfl⟩ := List.mem_map.mp hc
    obtain ⟨v, hv, hid, rfl⟩ := mem_owners.mp hp
    exact ⟨v, hv, id, hid, rfl⟩
  · rintro ⟨v, hv, id, hid, rfl⟩
    have hmem : v.path ∈ owners vs id := mem_owners.mpr ⟨v, hv, hid, rfl⟩
    exact ⟨(id, owners vs id), mem_byTrackingId.mpr ⟨rfl, List.ne_nil_of_mem hmem⟩,
      List.mem_map.mpr ⟨v.path, hmem, rfl⟩⟩

theorem nodup_amendments {vs : List FileValidation} (h : (vs.map (·.path)).Nodup) :
    ((amendments vs).map (·.1)).Nodup := by
  have hpath : ∀ v ∈ vs, ∀ w ∈ vs, v.path = w.path → v = w := fun v hv w hw =>
    List.inj_on_of_nodup_map h hv hw
  have hfst : (amendments vs).map (·.1) = (byTrackingId vs).toList.flatMap (·.2) := by
    rw [amendments, List.map_flatMap]
    simp [Function.comp_def]
  rw [hfst, List.nodup_flatMap]
  refine ⟨fun ⟨id, ps⟩ hmem => ?_, ?_⟩
  · obtain ⟨rfl, _⟩ := mem_byTrackingId.mp hmem
    exact h.sublist (List.filter_sublist.map _)
  · refine (byTrackingId vs).sorted.imp_of_mem fun {a b} ha hb hlt p hpa hpb => ?_
    obtain ⟨id, ps⟩ := a
    obtain ⟨id', ps'⟩ := b
    obtain ⟨rfl, _⟩ := mem_byTrackingId.mp ha
    obtain ⟨rfl, _⟩ := mem_byTrackingId.mp hb
    obtain ⟨v, hv, hid, rfl⟩ := mem_owners.mp hpa
    obtain ⟨w, hw, hid', hvw⟩ := mem_owners.mp hpb
    obtain rfl := hpath w hw v hv hvw
    obtain rfl := Option.some.inj (hid.symm.trans hid')
    simp at hlt

/-- What the check of tracking ids makes of a report. -/
structure Tracked (vs : List FileValidation) (f f' : Path → FileReport) : Prop where
  shared : ∀ v ∈ vs, ∀ id, v.trackingId? = some id →
    f' v.path = (f v.path).amend (sharing vs id v.path)
  other : ∀ p, (∀ v ∈ vs, v.path = p → v.trackingId? = none) → f' p = f p

theorem Says.exists_checkTrackingIds {r : TreeReport} {paths : List Path} {f : Path → FileReport}
    (h : r.Says paths f) (hpaths : Ascending paths) {vs : List FileValidation}
    (hmem : ∀ v ∈ vs, v.path ∈ paths) (honce : (vs.map (·.path)).Nodup) :
    ∃ f', (r.checkTrackingIds vs).Says paths f' ∧ Tracked vs f f' := by
  rw [checkTrackingIds_eq]
  obtain ⟨f', hreport, hin, hout⟩ := Says.foldl_update hpaths h
    (fun c hc => by
      obtain ⟨v, hv, _, _, rfl⟩ := mem_amendments.mp hc
      exact hmem v hv)
    (nodup_amendments honce)
  refine ⟨f', hreport, fun v hv id hid => hin _ (mem_amendments.mpr ⟨v, hv, id, hid, rfl⟩),
    fun p hp => hout p fun hc => ?_⟩
  obtain ⟨c, hamend, rfl⟩ := List.mem_map.mp hc
  obtain ⟨v, hv, id, hid, rfl⟩ := mem_amendments.mp hamend
  rw [hp v hv rfl] at hid
  cases hid

/-! ### Reports on all attempts -/

namespace Tracked
variable {vs vs' : List FileValidation} {f f₁ f₂ : Path → FileReport}

theorem amended_or_same (h : Tracked vs f f₁) (p : Path) :
    (∃ v ∈ vs, ∃ id, v.trackingId? = some id ∧ v.path = p ∧
      f₁ p = (f p).amend (sharing vs id p)) ∨
    (∀ v ∈ vs, v.path = p → v.trackingId? = none) ∧ f₁ p = f p := by
  by_cases hp : ∀ v ∈ vs, v.path = p → v.trackingId? = none
  · exact .inr ⟨hp, h.other p hp⟩
  · simp only [not_forall] at hp
    obtain ⟨v, hv, rfl, hid⟩ := hp
    obtain ⟨id, hid⟩ := Option.ne_none_iff_exists'.mp hid
    exact .inl ⟨v, hv, id, hid, rfl, h.shared v hv id hid⟩

theorem isSettled (h : Tracked vs f f₁) {p : Path} (hp : (f p).IsSettled) : (f₁ p).IsSettled := by
  rcases h.amended_or_same p with ⟨v, _, id, _, _, heq⟩ | ⟨_, heq⟩
  · rw [heq]
    exact FileReport.isSettled_ofFindings _
  · rwa [heq]

theorem hasFailures (h : Tracked vs f f₁) {p : Path}
    (hp : (f p).findings.hasFailures = true) : (f₁ p).findings.hasFailures = true := by
  rcases h.amended_or_same p with ⟨v, _, id, _, _, heq⟩ | ⟨_, heq⟩
  · rw [heq]
    show Findings.hasFailures ((f p).findings ++ _) = true
    rw [Findings.hasFailures, List.any_append, Bool.or_eq_true]
    exact .inl hp
  · rwa [heq]

end Tracked

theorem sharing_eq {vs vs' : List FileValidation} (h : vs.Perm vs') {id : String} {p : Path}
    (hp : (sharing vs id p).isFail = false) : sharing vs' id p = sharing vs id p := by
  have hperm : (owners vs id).Perm (owners vs' id) := (h.filter _).map _
  have hone : (owners vs id).length = 1 := by
    by_contra hne
    rw [sharing, uniqueness, if_neg hne] at hp
    cases hp
  rw [sharing, sharing, uniqueness, uniqueness, if_pos hone, if_pos (hperm.length_eq ▸ hone)]

theorem Tracked.eq_of_perm {vs vs' : List FileValidation} {f f₁ f₂ : Path → FileReport}
    (h₁ : Tracked vs f f₁) (h₂ : Tracked vs' f f₂) (hperm : vs.Perm vs') {p : Path}
    (hp : (f₁ p).findings.hasFailures = false) : f₁ p = f₂ p := by
  rcases h₁.amended_or_same p with ⟨v, hv, id, hid, rfl, heq⟩ | ⟨hnone, heq⟩
  · have hmem : sharing vs id v.path ∈ (f₁ v.path).findings := by
      rw [heq]
      exact List.mem_append_right _ (List.mem_singleton_self _)
    have hpass : (sharing vs id v.path).isFail = false := Findings.hasFailures_eq_false.mp hp _ hmem
    rw [heq, h₂.shared v (hperm.mem_iff.mp hv) id hid, sharing_eq hperm hpass]
  · rw [heq, h₂.other p fun v hv => hnone v (hperm.mem_iff.mpr hv)]

section
variable {paths : List Path} {outcome : Path → Except FileError FileValidation}
  {attempts : List Attempt} (hown : ∀ p v, outcome p = .ok v → v.path = p)
  (h : attempts.Perm (paths.map fun p => (p, outcome p)))
include h

theorem mem_validations {v : FileValidation} :
    v ∈ validations attempts ↔ ∃ p ∈ paths, outcome p = .ok v := by
  rw [validations, List.mem_filterMap]
  constructor
  · rintro ⟨a, ha, hv⟩
    obtain ⟨p, hp, rfl⟩ := List.mem_map.mp (h.mem_iff.mp ha)
    exact ⟨p, hp, Except.toOption_eq_some.mp hv⟩
  · rintro ⟨p, hp, hv⟩
    exact ⟨_, h.mem_iff.mpr (List.mem_map_of_mem hp), Except.toOption_eq_some.mpr hv⟩

include hown

theorem nodup_validations (hpaths : paths.Nodup) : ((validations attempts).map (·.path)).Nodup := by
  have hperm : ((validations attempts).map (·.path)).Perm
      (((paths.map fun p => (p, outcome p)).filterMap (·.2.toOption)).map (·.path)) :=
    (h.filterMap _).map _
  rw [hperm.nodup_iff, List.filterMap_map, List.map_filterMap]
  refine List.Nodup.filterMap (fun p q path hp hq => ?_) hpaths
  have hpath : ∀ p, path ∈ (((outcome p).toOption).map (·.path)) → p = path := by
    intro p hp
    obtain ⟨v, hv, rfl⟩ := Option.map_eq_some_iff.mp hp
    exact (hown p v (Except.toOption_eq_some.mp hv)).symm
  rw [hpath p hp, hpath q hq]

/-- The report on the attempts at all files, in whatever order these were. -/
theorem says_reportOf (hpaths : Ascending paths) :
    ∃ f, (reportOf paths attempts).Says paths f ∧
      Tracked (validations attempts) (fun p => .ofFindings (found (p, outcome p))) f ∧
      ∀ p, (f p).IsSettled := by
  have honce : paths.Nodup := hpaths.imp fun {p q} hlt heq => by
    rw [heq, Std.ReflOrd.compare_self] at hlt
    cases hlt
  have hfst : (attempts.map (·.1)).Perm paths := by
    have := h.map (·.1)
    rwa [List.map_map, show ((·.1) ∘ fun p => (p, outcome p)) = id from rfl, List.map_id] at this
  have hchanged : (finishes attempts).map (·.1) = attempts.map (·.1) := List.map_map
  obtain ⟨f, hreport, hin, _⟩ := Says.foldl_update hpaths (says_discover hpaths)
    (fun c hc => hfst.mem_iff.mp (hchanged ▸ List.mem_map_of_mem hc))
    (hchanged ▸ hfst.nodup_iff.mpr honce)
  have hfound : (attempts.foldl (fun r a => r.finish a.1 (found a)) (discover paths)).Says paths
      fun p => .ofFindings (found (p, outcome p)) := by
    rw [foldl_finish_eq]
    refine hreport.congr fun p hp => ?_
    exact hin _ (List.mem_map_of_mem (h.mem_iff.mpr (List.mem_map_of_mem hp)))
  have hmem : ∀ v ∈ validations attempts, v.path ∈ paths := by
    intro v hv
    obtain ⟨p, hp, hv⟩ := (mem_validations h).mp hv
    rwa [hown p v hv]
  obtain ⟨f', hreport', htracked⟩ :=
    hfound.exists_checkTrackingIds hpaths hmem (nodup_validations hown h honce)
  exact ⟨f', hreport', htracked, fun p => htracked.isSettled (FileReport.isSettled_ofFindings _)⟩

theorem summary_reportOf_eq_fail (hpaths : Ascending paths) {p : Path} (hp : p ∈ paths)
    (hfail : isHardFailure (p, outcome p) = true) : (reportOf paths attempts).summary = .fail := by
  obtain ⟨f, hreport, htracked, hsettled⟩ := says_reportOf hown h hpaths
  refine hreport.summary_eq_fail.mpr ⟨p, hp, (hsettled p).status_eq_fail.mpr ?_⟩
  exact htracked.hasFailures ((hasFailures_found _).trans hfail)

theorem inState_failed_reportOf (hpaths : Ascending paths) :
    (reportOf paths attempts).inState .failed = [] ↔ (reportOf paths attempts).summary ≠ .fail := by
  obtain ⟨f, hreport, _, hsettled⟩ := says_reportOf hown h hpaths
  rw [hreport.inState_eq_nil, Ne, hreport.summary_eq_fail]
  simp only [(hsettled _).status_eq_fail, ← (hsettled _).state_eq_failed, not_exists, not_and]

/-- Where nothing fails, the order of the attempts makes no difference. -/
theorem reportOf_eq_of_perm (hpaths : Ascending paths) {attempts' : List Attempt}
    (h' : attempts'.Perm (paths.map fun p => (p, outcome p)))
    (hsum : (reportOf paths attempts).summary ≠ .fail) :
    reportOf paths attempts = reportOf paths attempts' := by
  obtain ⟨f, hreport, htracked, hsettled⟩ := says_reportOf hown h hpaths
  obtain ⟨f', hreport', htracked', _⟩ := says_reportOf hown h' hpaths
  refine hreport.eq_of_forall_mem hreport' fun p hp => ?_
  refine htracked.eq_of_perm htracked' ((h.trans h'.symm).filterMap _) ?_
  refine Bool.eq_false_iff.mpr fun hfail => hsum (hreport.summary_eq_fail.mpr ⟨p, hp, ?_⟩)
  exact (hsettled p).status_eq_fail.mpr hfail

/-! ### Stopping at the first failure -/

/-- Where no file fails alone, all are attempted, and only shared tracking ids can make one fail. -/
theorem ofAttempts_iff_of_perm (hpaths : Ascending paths) {stopped : List Attempt}
    (hstopped : stopped.Perm (paths.map fun p => (p, outcome p)))
    (hnone : ∀ p ∈ paths, isHardFailure (p, outcome p) = false) {r : TreeReport} :
    ofAttempts false paths stopped = .ok r ↔
      ofAttempts true paths attempts = .ok r ∧ r.summary ≠ .fail := by
  have hall : ∀ a ∈ stopped, isHardFailure a = false := by
    intro a ha
    obtain ⟨p, hp, rfl⟩ := List.mem_map.mp (hstopped.mem_iff.mp ha)
    exact hnone p hp
  have hfailed := inState_failed_reportOf hown hstopped hpaths
  rw [ofAttempts_true, ofAttempts_false_eq_ok, Except.ok.injEq]
  constructor
  · rintro ⟨_, rfl, hnil⟩
    have hsum := hfailed.mp hnil
    exact ⟨(reportOf_eq_of_perm hown hstopped hpaths h hsum).symm, hsum⟩
  · rintro ⟨rfl, hsum⟩
    have heq := reportOf_eq_of_perm hown h hpaths hstopped hsum
    exact ⟨hall, heq.symm, heq ▸ hfailed.mpr (heq ▸ hsum)⟩

/-- Where a file fails alone, one run ends at a failure, and the other has one in its report. -/
theorem ofAttempts_iff_of_failure (hpaths : Ascending paths) {stopped : List Attempt}
    (hstopped : ∃ a ∈ stopped, isHardFailure a = true) {p : Path} (hp : p ∈ paths)
    (hfail : isHardFailure (p, outcome p) = true) {r : TreeReport} :
    ofAttempts false paths stopped = .ok r ↔
      ofAttempts true paths attempts = .ok r ∧ r.summary ≠ .fail := by
  obtain ⟨a, ha, hafail⟩ := hstopped
  rw [ofAttempts_true, ofAttempts_false_eq_ok, Except.ok.injEq]
  constructor
  · intro hok
    rw [hok.1 a ha] at hafail
    cases hafail
  · rintro ⟨rfl, hsum⟩
    exact absurd (summary_reportOf_eq_fail hown h hpaths hp hfail) hsum

end
end TreeReport
end ForcingData
