import ForcingData.Proofs.Sharing
import ForcingData.Proofs.Validation.TreeRuns

/-! # Results that arrive in another order

The files of a tree are reported on in the order of their paths, whatever the order in which they
are done, and of each of them the same is found; but the files that share a tracking id are listed
as they were done. So two runs that go on after failures have reports that differ in these lists
only: `validateTree_arrival`. -/

namespace ForcingData
open TreeReport

/-- The same of a file, but for the order in which findings list paths. -/
structure FileReport.Relisted (f f' : FileReport) : Prop where
  state : f'.state = f.state
  findings : List.Forall₂ Finding.Relisted f.findings f'.findings

theorem FileReport.Relisted.refl (f : FileReport) : f.Relisted f :=
  ⟨rfl, List.forall₂_same.mpr fun x _ => .same x⟩

/-- The same files, and the same of each of them, but for the order in which findings list
paths. -/
def TreeReport.Relisted (r r' : TreeReport) : Prop :=
  List.Forall₂ (fun a b => a.1 = b.1 ∧ a.2.Relisted b.2) r.files.toList r'.files.toList

namespace TreeReport
variable {vs vs' : List FileValidation} {f f₁ f₂ : Path → FileReport} {r r' : TreeReport}
  {paths : List Path}

theorem owners_perm (h : vs.Perm vs') (id : String) : (owners vs id).Perm (owners vs' id) :=
  (h.filter _).map _

theorem rule_sharing (vs : List FileValidation) (id : String) (p : Path) :
    (sharing vs id p).rule = uniqueRule := by
  unfold sharing uniqueness
  split <;> rfl

theorem relisted_sharing (h : vs.Perm vs') (id : String) (p : Path) :
    (sharing vs id p).Relisted (sharing vs' id p) := by
  have howners := owners_perm h id
  unfold sharing uniqueness
  rw [howners.length_eq]
  split
  · exact .same _
  · exact .listed (f := (Finding.fail uniqueRule .notUnique "").withTarget p.text) rfl id howners

theorem Tracked.relisted (h₁ : Tracked vs f f₁) (h₂ : Tracked vs' f f₂) (hperm : vs.Perm vs')
    (p : Path) : (f₁ p).Relisted (f₂ p) := by
  rcases h₁.amended_or_same p with ⟨v, hv, id, hid, rfl, heq⟩ | ⟨hnone, heq⟩
  · rw [heq, h₂.shared v (hperm.mem_iff.mp hv) id hid]
    have hfindings := Findings.relisted_concat (f v.path).findings
      (relisted_sharing hperm id v.path)
    exact ⟨congrArg FileState.ofStatus (Findings.summary_relisted hfindings).symm, hfindings⟩
  · rw [heq, h₂.other p fun v hv => hnone v (hperm.mem_iff.mpr hv)]
    exact .refl _

theorem Tracked.eq_of_unique (h₁ : Tracked vs f f₁) (h₂ : Tracked vs' f f₂) (hperm : vs.Perm vs')
    {p : Path} (hp : ∀ x ∈ (f₁ p).findings, x.rule = uniqueRule → x.isFail = false) :
    f₁ p = f₂ p := by
  rcases h₁.amended_or_same p with ⟨v, hv, id, hid, rfl, heq⟩ | ⟨hnone, heq⟩
  · have hmem : sharing vs id v.path ∈ (f₁ v.path).findings := by
      rw [heq]
      exact List.mem_append_right _ (List.mem_singleton_self _)
    rw [heq, h₂.shared v (hperm.mem_iff.mp hv) id hid,
      sharing_eq hperm (hp _ hmem (rule_sharing ..))]
  · rw [heq, h₂.other p fun v hv => hnone v (hperm.mem_iff.mpr hv)]

theorem Says.relisted (h : r.Says paths f₁) (h' : r'.Says paths f₂)
    (hsame : ∀ p, (f₁ p).Relisted (f₂ p)) : r.Relisted r' := by
  rw [Relisted, h.toList, h'.toList, List.forall₂_map_left_iff, List.forall₂_map_right_iff]
  exact List.forall₂_same.mpr fun p _ => ⟨rfl, hsame p⟩

end TreeReport

namespace ValidationContext
variable {c : ValidationContext} {t : FileTree} {root : Path} {pattern : FilePattern}
  {paths : List Path}

/-- What the workers make of the files, in the order in which these are done. -/
def arrived (c : ValidationContext) (t : FileTree) (paths : List Path) (workers : Nat)
    (schedule : Nat → Nat) : List Attempt :=
  (Pool.collect workers schedule
    (fun p => (do return (p, ← c.inTree.validateFile t p) : Outcome Attempt))
    (fun p message => (p, .error (.aborted message))) (fun _ => false) paths).1

theorem arrived_perm (c : ValidationContext) (t : FileTree) (paths : List Path) (workers : Nat)
    (schedule : Nat → Nat) :
    (c.arrived t paths workers schedule).Perm (paths.map fun p => (p, c.outcome t p)) :=
  (Pool.collect_perm fun _ _ => rfl).trans
    (.of_eq (List.map_congr_left fun p _ => recover_attempt p))

theorem validateTree_eq_reportOf (h : t.findFiles root pattern = .ok paths) (workers : Nat)
    (schedule : Nat → Nat) : c.validateTree t root pattern true workers schedule =
      .ok (reportOf paths (c.arrived t paths workers schedule)) := by
  unfold validateTree
  rw [h, ← ofAttempts_true]
  rfl

/-- The order in which files are done does not matter, but for the lists of files that share a
tracking id. -/
theorem validateTree_arrival (c : ValidationContext) (ht : t.IsNamed) (root : Path)
    (pattern : FilePattern) (workers workers' : Nat) (schedule schedule' : Nat → Nat) :
    (∃ e, c.validateTree t root pattern true workers schedule = .error e ∧
      c.validateTree t root pattern true workers' schedule' = .error e) ∨
    ∃ r r', c.validateTree t root pattern true workers schedule = .ok r ∧
      c.validateTree t root pattern true workers' schedule' = .ok r' ∧ r.Relisted r' ∧
      ((∀ p f, r.get? p = some f → ∀ x ∈ f.findings, x.rule = uniqueRule → x.isFail = false) →
        r = r') := by
  cases hfind : t.findFiles root pattern with
  | error e =>
    refine .inl ⟨.find e, ?_, ?_⟩ <;> (unfold validateTree; rw [hfind])
  | ok paths =>
    have hpaths := FileTree.sorted_of_findFiles ht hfind
    have hattempts := arrived_perm c t paths
    obtain ⟨f, hreport, htracked, -⟩ :=
      says_reportOf path_of_outcome (hattempts workers schedule) hpaths
    obtain ⟨f', hreport', htracked', -⟩ :=
      says_reportOf path_of_outcome (hattempts workers' schedule') hpaths
    have hperm := ((hattempts workers schedule).trans
      (hattempts workers' schedule').symm).filterMap fun a => a.2.toOption
    refine .inr ⟨_, _, validateTree_eq_reportOf hfind workers schedule,
      validateTree_eq_reportOf hfind workers' schedule',
      hreport.relisted hreport' (htracked.relisted htracked' hperm), fun hunique => ?_⟩
    exact hreport.eq_of_forall_mem hreport' fun p hp =>
      htracked.eq_of_unique htracked' hperm (hunique p _ (hreport.get? hp))

/-! ### Two files that share an id -/

/-- The last finding about a file that has an id. -/
theorem getLast?_reportOf {attempts : List Attempt} (hpaths : Ascending paths)
    (h : attempts.Perm (paths.map fun p => (p, c.outcome t p))) {p : Path} (hp : p ∈ paths)
    {v : FileValidation} (hv : c.outcome t p = .ok v) {id : String}
    (hid : v.trackingId? = some id) :
    ((reportOf paths attempts).get? p).bind (·.findings.getLast?) =
      some (sharing (validations attempts) id p) := by
  obtain ⟨f, hreport, htracked, -⟩ := says_reportOf path_of_outcome h hpaths
  have hshared := htracked.shared v ((mem_validations h).mpr ⟨p, hp, hv⟩) id hid
  rw [path_of_outcome p v hv] at hshared
  rw [hreport.get? hp, hshared]
  exact List.getLast?_concat

theorem arrived_eq {order : List Path} {workers : Nat} {schedule : Nat → Nat}
    (h : (c.arrived t paths workers schedule).map (·.1) = order) :
    c.arrived t paths workers schedule = order.map fun p => (p, c.outcome t p) := by
  rw [← h, List.map_map]
  refine (List.map_id _).symm.trans (List.map_congr_left fun a ha => ?_)
  obtain ⟨p, -, rfl⟩ := List.mem_map.mp ((arrived_perm ..).mem_iff.mp ha)
  rfl

def sharedDataset : Dataset :=
  { FileValidation.sampleDataset with
    attributes := FileValidation.sampleDataset.attributes.insert "tracking_id" (.text "co2") }

/-- Every file has the same content. -/
def sharedContext : ValidationContext :=
  { FileValidation.sampleContext with loader := fun _ _ => .done (.ok sharedDataset) }

/-- The file that is done first is listed first. -/
theorem validateTree_arrival_sample : sampleTree.IsNamed ∧ ∃ r r',
    sharedContext.validateTree sampleTree ⟨"in"⟩ samplePattern true 1 (fun _ => 0) = .ok r ∧
    sharedContext.validateTree sampleTree ⟨"in"⟩ samplePattern true 2 (fun k => k / 4) = .ok r' ∧
    r.Relisted r' ∧ r ≠ r' := by
  have hnamed : sampleTree.IsNamed := by decide +kernel
  refine ⟨hnamed, ?_⟩
  have hpaths := FileTree.sorted_of_findFiles hnamed findFiles_sample
  have hinOrder := arrived_eq (c := sharedContext) (t := sampleTree)
    (show (sharedContext.arrived sampleTree [⟨"in/a.nc"⟩, ⟨"in/b.nc"⟩] 1 fun _ => 0).map (·.1) =
      [⟨"in/a.nc"⟩, ⟨"in/b.nc"⟩] by decide +kernel)
  have hreversed := arrived_eq (c := sharedContext) (t := sampleTree)
    (show (sharedContext.arrived sampleTree [⟨"in/a.nc"⟩, ⟨"in/b.nc"⟩] 2 fun k => k / 4).map
      (·.1) = [⟨"in/b.nc"⟩, ⟨"in/a.nc"⟩] by decide +kernel)
  obtain ⟨v, hv, hid⟩ : ∃ v, sharedContext.outcome sampleTree ⟨"in/a.nc"⟩ = .ok v ∧
      v.trackingId? = some "co2" := ⟨_, rfl, by decide +kernel⟩
  obtain ⟨e, herror, -⟩ | ⟨r, r', hr, hr', hrelisted, -⟩ := validateTree_arrival sharedContext
    hnamed ⟨"in"⟩ samplePattern 1 2 (fun _ => 0) fun k => k / 4
  · rw [validateTree_eq_reportOf findFiles_sample] at herror
    cases herror
  refine ⟨r, r', hr, hr', hrelisted, fun hsame => ?_⟩
  rw [validateTree_eq_reportOf findFiles_sample, Except.ok.injEq] at hr hr'
  have hlast := getLast?_reportOf hpaths (arrived_perm sharedContext sampleTree _ 1 fun _ => 0)
    (List.mem_cons_self ..) hv hid
  have hlast' := getLast?_reportOf hpaths
    (arrived_perm sharedContext sampleTree _ 2 fun k => k / 4) (List.mem_cons_self ..) hv hid
  rw [hr, hinOrder] at hlast
  rw [hr', hreversed, ← hsame, hlast, Option.some.injEq] at hlast'
  revert hlast'
  decide +kernel

end ValidationContext
end ForcingData
