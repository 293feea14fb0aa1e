import ForcingData.Proofs.Validation.Tree

/-! # Runs over whole trees

A run that goes on after failures has a report on every file that was found:
`validateTree_complete`. A run that stops at the first failure has the same report if nothing
failed, and none otherwise: `validateTree_modes_agree`. Neither depends on the number of workers or
on how they are scheduled. -/

namespace ForcingData
open TreeReport

namespace ValidationContext

/-- The context for the files of a tree: paths are checked in full. -/
abbrev inTree (c : ValidationContext) : ValidationContext := { c with drsCheck := .fullPath }

/-- The validation of a file of a tree, or why there is none. -/
def outcome (c : ValidationContext) (t : FileTree) (path : Path) :
    Except FileError FileValidation :=
  (c.inTree.validateFile t path).recover fun message => .error (.aborted message)

section
variable {c : ValidationContext} {t : FileTree} {root : Path} {pattern : FilePattern}
  {paths : List Path}

theorem validateFile_of_outcome {p : Path} {v : FileValidation} (h : c.outcome t p = .ok v) :
    c.inTree.validateFile t p = .done (.ok v) := by
  unfold outcome at h
  cases hv : c.inTree.validateFile t p with
  | aborted message =>
    rw [hv] at h
    cases h
  | done result =>
    rw [hv] at h
    cases h
    rfl

theorem path_of_outcome (p : Path) (v : FileValidation) (h : c.outcome t p = .ok v) :
    v.path = p := by
  obtain ⟨_, _, _, _, _, _, rfl⟩ := validateFile_eq_done (validateFile_of_outcome h)
  rfl

theorem recover_attempt (p : Path) :
    (do return (p, ← c.inTree.validateFile t p) : Outcome Attempt).recover
      (fun message => (p, .error (.aborted message))) = (p, c.outcome t p) := by
  unfold outcome
  cases c.inTree.validateFile t p <;> rfl

/-- What a pool collects: the attempts at all files if none stops the run, else one that does. -/
theorem exists_attempts (h : t.findFiles root pattern = .ok paths) (continueOnError : Bool)
    (workers : Nat) (schedule : Nat → Nat) : ∃ attempts,
      c.validateTree t root pattern continueOnError workers schedule =
        ofAttempts continueOnError paths attempts ∧
      ((∀ p ∈ paths, (!continueOnError && isHardFailure (p, c.outcome t p)) = false) →
        attempts.Perm (paths.map fun p => (p, c.outcome t p))) ∧
      ((∃ p ∈ paths, (!continueOnError && isHardFailure (p, c.outcome t p)) = true) →
        ∃ a ∈ attempts, isHardFailure a = true) := by
  unfold validateTree
  rw [h]
  refine ⟨_, rfl, fun hgo => ?_, fun ⟨p, hp, hstop⟩ => ?_⟩
  · refine (Pool.collect_perm fun p hp => ?_).trans (.of_eq (List.map_congr_left fun p _ => ?_))
    · rw [recover_attempt]
      exact hgo p hp
    · exact recover_attempt p
  · refine (Pool.exists_mem_collect hp ?_).imp fun a ⟨ha, hfail⟩ =>
      ⟨ha, (Bool.and_eq_true_iff.mp hfail).2⟩
    rw [recover_attempt]
    exact hstop

/-- A run that goes on reports on exactly the files that were found. Each of them is done, in the
state that its findings call for; one that could not be validated has one finding, which says so. -/
theorem validateTree_complete (ht : t.IsNamed) (h : t.findFiles root pattern = .ok paths)
    (workers : Nat) (schedule : Nat → Nat) :
    ∃ r, c.validateTree t root pattern true workers schedule = .ok r ∧
      r.files.keys = paths ∧
      (∀ p ∈ paths, ∃ f, r.get? p = some f ∧ f.state.isTerminal = true ∧
        f.state = .ofStatus f.findings.summary) ∧
      (∀ p ∈ paths, ∀ e, c.inTree.validateFile t p = .done (.error e) →
        r.get? p = some ⟨.failed, [unreadable p e.message]⟩) ∧
      (∀ p ∈ paths, ∀ message, c.inTree.validateFile t p = .aborted message →
        r.get? p = some ⟨.failed, [unreadable p (FileError.aborted message).message]⟩) ∧
      r.count .passed + r.count .warned + r.count .failed = paths.length := by
  obtain ⟨attempts, hrun, hall, _⟩ := exists_attempts (c := c) h true workers schedule
  have hpaths := FileTree.sorted_of_findFiles ht h
  have hattempts := hall fun _ _ => rfl
  obtain ⟨f, hreport, htracked, hsettled⟩ := says_reportOf path_of_outcome hattempts hpaths
  have hfailed : ∀ p ∈ paths, ∀ e, c.outcome t p = .error e →
      (reportOf paths attempts).get? p = some ⟨.failed, [unreadable p e.message]⟩ := by
    intro p hp e he
    -- a file that can not be read shares no id, so that nothing is added to what is said of it
    have hother : ∀ v ∈ validations attempts, v.path = p → v.trackingId? = none := by
      rintro v hv rfl
      obtain ⟨q, _, hq⟩ := (mem_validations hattempts).mp hv
      rw [path_of_outcome q v hq, hq] at he
      cases he
    rw [hreport.get? hp, htracked.other p hother, found, he]
    rfl
  refine ⟨reportOf paths attempts, hrun.trans (ofAttempts_true ..), hreport.keys,
    fun p hp => ⟨f p, hreport.get? hp, (hsettled p).isTerminal, hsettled p⟩, fun p hp e he => ?_,
    fun p hp message hm => ?_, hreport.count_add_count_add_count fun p _ => (hsettled p).isTerminal⟩
  · exact hfailed p hp e (by rw [outcome, he]; rfl)
  · exact hfailed p hp (.aborted message) (by rw [outcome, hm]; rfl)

/-- The run that stops at the first failure has a report exactly if the run that goes on has one
without failures, and then both are the same. -/
theorem validateTree_modes_agree (c : ValidationContext) (ht : t.IsNamed) (root : Path)
    (pattern : FilePattern) (workers workers' : Nat) (schedule schedule' : Nat → Nat) :
    (∀ r, c.validateTree t root pattern false workers schedule = .ok r ↔
      c.validateTree t root pattern true workers' schedule' = .ok r ∧ r.summary ≠ .fail) ∧
    ∀ e, t.findFiles root pattern = .error e →
      c.validateTree t root pattern false workers schedule = .error (.find e) ∧
      c.validateTree t root pattern true workers' schedule' = .error (.find e) := by
  have hwalk : ∀ e, t.findFiles root pattern = .error e → ∀ continueOnError workers schedule,
      c.validateTree t root pattern continueOnError workers schedule = .error (.find e) := by
    intro e he continueOnError workers schedule
    unfold validateTree
    rw [he]
  refine ⟨fun r => ?_, fun e he => ⟨hwalk e he .., hwalk e he ..⟩⟩
  cases hfind : t.findFiles root pattern with
  | error e =>
    rw [hwalk e hfind, hwalk e hfind]
    exact ⟨nofun, fun h => nomatch h.1⟩
  | ok paths =>
    have hpaths := FileTree.sorted_of_findFiles ht hfind
    obtain ⟨stopped, hfast, hgo, hstop⟩ := exists_attempts (c := c) hfind false workers schedule
    obtain ⟨attempts, hfull, hall, _⟩ := exists_attempts (c := c) hfind true workers' schedule'
    have hattempts := hall fun _ _ => rfl
    rw [hfast, hfull]
    -- a hard failure stops one run and fails the other; without one both attempt all files
    by_cases hany : ∃ p ∈ paths, isHardFailure (p, c.outcome t p) = true
    · obtain ⟨p, hp, hfail⟩ := hany
      exact ofAttempts_iff_of_failure path_of_outcome hattempts hpaths (hstop ⟨p, hp, hfail⟩) hp
        hfail
    · have hnone : ∀ p ∈ paths, isHardFailure (p, c.outcome t p) = false := fun p hp =>
        Bool.eq_false_iff.mpr fun hfail => hany ⟨p, hp, hfail⟩
      exact ofAttempts_iff_of_perm path_of_outcome hattempts hpaths (hgo hnone) hnone

end

/-! ### A directory with a file that can not be read -/

def sampleTree : FileTree where
  nodes := Dict.ofList [(["in"], .directory), (["in", "a.nc"], .file ByteArray.empty),
    (["in", "b.nc"], .file ByteArray.empty)]
  workingDirectory := []

def samplePattern : FilePattern := ⟨"*.nc", by decide⟩

/-- Reading the first file is aborted. -/
def sampleContext : ValidationContext :=
  { FileValidation.sampleContext with
    loader := fun _ path =>
      if path = ⟨"in/a.nc"⟩ then .aborted "no header"
      else .done (.ok FileValidation.sampleDataset) }

theorem findFiles_sample :
    sampleTree.findFiles ⟨"in"⟩ samplePattern = .ok [⟨"in/a.nc"⟩, ⟨"in/b.nc"⟩] := by
  have hlocate : sampleTree.locate ⟨"in"⟩ = .ok ["in"] :=
    FileTree.locateWith_eq_ok.mpr ⟨rfl, .child rfl ⟨by decide, by decide, by decide⟩ rfl nofun
      (.done ..)⟩
  have hfiles : sampleTree.filesIn sampleTree.searchDepth [] ⟨"in"⟩ [] =
      .ok [⟨⟨"in/a.nc"⟩, ["a.nc"]⟩, ⟨⟨"in/b.nc"⟩, ["b.nc"]⟩] := by
    have hdepth : sampleTree.searchDepth = 24 + 1 := by decide
    rw [hdepth, FileTree.filesIn, hlocate]
    rfl
  exact FileTree.findFiles_eq_ok.mpr ⟨FileTree.isDirectory_iff.mpr ⟨_, hlocate, rfl⟩, _, hfiles,
    List.mergeSort_of_pairwise (by decide)⟩

theorem validateTree_complete_sample : sampleTree.IsNamed ∧
    sampleTree.findFiles ⟨"in"⟩ samplePattern = .ok [⟨"in/a.nc"⟩, ⟨"in/b.nc"⟩] ∧
    ∀ workers schedule, ∃ r,
      sampleContext.validateTree sampleTree ⟨"in"⟩ samplePattern true workers schedule = .ok r ∧
      r.files.keys = [⟨"in/a.nc"⟩, ⟨"in/b.nc"⟩] ∧
      r.get? ⟨"in/a.nc"⟩ = some ⟨.failed, [unreadable ⟨"in/a.nc"⟩
        "Validating the file panicked: no header"]⟩ ∧
      r.count .passed + r.count .warned + r.count .failed = 2 := by
  refine ⟨by decide +kernel, findFiles_sample, fun workers schedule => ?_⟩
  obtain ⟨r, hrun, hkeys, _, _, haborted, hcount⟩ := validateTree_complete (c := sampleContext)
    (by decide +kernel) findFiles_sample workers schedule
  exact ⟨r, hrun, hkeys, haborted _ (by decide) "no header" rfl, hcount⟩

theorem validateTree_modes_agree_sample : sampleTree.IsNamed ∧
    ∀ workers workers' schedule schedule' r,
      sampleContext.validateTree sampleTree ⟨"in"⟩ samplePattern false workers schedule = .ok r ↔
        sampleContext.validateTree sampleTree ⟨"in"⟩ samplePattern true workers' schedule' = .ok r ∧
          r.summary ≠ .fail := by
  have hnamed : sampleTree.IsNamed := by decide +kernel
  exact ⟨hnamed, fun workers workers' schedule schedule' =>
    (validateTree_modes_agree sampleContext hnamed _ _ workers workers' schedule schedule').1⟩

end ValidationContext
end ForcingData
