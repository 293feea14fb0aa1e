import ForcingData.Proofs.Database.Rechecking
import ForcingData.Proofs.Metadata.Reached
import ForcingData.Proofs.Validation.Arrival

/-! # Which tracking ids are shared

Tracking ids are compared in two places: among the files of a tree, and among the entries of a list.
Both find an id shared exactly if it stands at another place, too: `sharing_decided`. In a report
this takes that no finding about a file alone has the name of the rule on tracking ids. -/

namespace ForcingData
open TreeReport

/-! ### The names of the rules on one file -/

/-- The rules on one file, those on required attributes apart. -/
def fileRules : List String :=
  [readableRule, Compliance.rule, DrsCheck.rule .fileName, DrsCheck.rule .fullPath,
    Consistency.variableRule, Consistency.frequencyRule, Consistency.timeRangeRule,
    Consistency.externalRule, Consistency.timeDimensionRule] ++ Rule.all.map Rule.id

/-- A rule on one file. -/
def IsFileRule (rule : String) : Prop :=
  rule ∈ fileRules ∨ ∃ key, rule = Rule.requiredAttributeRule key

theorem head?_requiredAttributeRule (key : String) :
    (Rule.requiredAttributeRule key).toList.head? = some 'r' := by
  unfold Rule.requiredAttributeRule
  simp [toString]

theorem not_isFileRule_uniqueRule : ¬IsFileRule uniqueRule := by
  rintro (h | ⟨key, h⟩)
  · revert h
    decide
  · have hhead := head?_requiredAttributeRule key
    rw [← h] at hhead
    revert hhead
    decide

theorem Rule.isFileRule (attributes : Attributes) (cv : Vocabularies) :
    ∀ f ∈ validateAttributes attributes cv, IsFileRule f.rule := by
  intro f hf
  rcases List.mem_append.mp hf with hf | hf
  · obtain ⟨key, -, rfl⟩ := List.mem_map.mp hf
    exact .inr ⟨key, rfl⟩
  · refine .inl (List.mem_append_right _ ?_)
    rw [← map_rule_runAll attributes cv]
    exact List.mem_map_of_mem hf

namespace Consistency
variable {attributes : Attributes} {d : Dataset}

theorem rule_checkTimeRange {f : Finding} (h : checkTimeRange attributes d = .done f) :
    f.rule = timeRangeRule := by
  unfold checkTimeRange at h
  split at h
  · cases h
    rfl
  · split at h
    · cases h
      rfl
    · obtain ⟨range?, -, h⟩ := Outcome.bind_eq_done.mp h
      cases h
      exact rule_compareRanges ..

theorem isFileRule {indicators : List String} {fs : Findings}
    (h : validate d attributes indicators = .done fs) : ∀ f ∈ fs, IsFileRule f.rule := by
  obtain ⟨timeRange, htime, h⟩ := Outcome.bind_eq_done.mp h
  cases h
  have hfile {rule : String} (h : rule ∈ [variableRule, frequencyRule, timeRangeRule,
      externalRule, timeDimensionRule]) : IsFileRule rule := by
    simp only [IsFileRule, fileRules, List.mem_append, List.mem_cons] at h ⊢
    tauto
  simp only [List.forall_mem_cons, rule_checkVariable, rule_checkFrequency,
    rule_checkTimeRange htime, rule_checkExternal, rule_checkTimeDimension]
  refine ⟨hfile ?_, hfile ?_, hfile ?_, hfile ?_, hfile ?_, nofun⟩ <;> simp

end Consistency

namespace DrsCheck

theorem rule_validate (check : DrsCheck) (drs : Drs) (path : Path) (m : Metadata) :
    (check.validate drs path m).rule = check.rule := by
  unfold validate
  simp only [Finding.withTarget]
  split
  · rfl
  · rfl
  · split <;> rfl

theorem isFileRule (check : DrsCheck) : IsFileRule check.rule := by
  cases check <;> exact .inl (by simp [fileRules])

end DrsCheck

theorem Compliance.Report.isFileRule (r : Report) (allowWarnings : Bool) :
    IsFileRule (r.finding allowWarnings).rule := by
  have hrule : (r.finding allowWarnings).rule = Compliance.rule := by
    unfold finding
    simp only
    split
    · rfl
    · split <;> rfl
    · rfl
  rw [hrule]
  exact .inl (by simp [fileRules])

theorem Findings.rule_withTarget {fs : Findings} {target : String} {f : Finding}
    (h : f ∈ fs.withTarget target) : ∃ g ∈ fs, f.rule = g.rule := by
  obtain ⟨g, hg, rfl⟩ := List.mem_map.mp h
  refine ⟨g, hg, ?_⟩
  split <;> rfl

namespace ValidationContext
variable {c : ValidationContext} {t : FileTree} {root : Path} {pattern : FilePattern}
  {paths : List Path} {p : Path}

theorem rule_checkPath (c : ValidationContext) (path : Path) (attributes : Attributes) :
    (c.checkPath path attributes).rule = c.drsCheck.rule := by
  unfold checkPath
  split
  · exact DrsCheck.rule_validate ..
  · rfl

theorem isFileRule {v : FileValidation} (h : c.validateFile t p = .done (.ok v)) :
    ∀ f ∈ v.findings, IsFileRule f.rule := by
  obtain ⟨report, d, consistency, -, -, hconsistency, rfl⟩ := validateFile_eq_done h
  intro f hf
  obtain ⟨g, hg, hrule⟩ := Findings.rule_withTarget hf
  rw [hrule]
  rcases List.mem_cons.mp hg with rfl | hg
  · exact report.isFileRule _
  · rcases List.mem_append.mp hg with hg | hg
    · rcases List.mem_append.mp hg with hg | hg
      · exact Rule.isFileRule _ _ g hg
      · exact Consistency.isFileRule hconsistency g hg
    · rw [List.mem_singleton.mp hg, rule_checkPath]
      exact c.drsCheck.isFileRule

theorem filter_found (c : ValidationContext) (t : FileTree) (p : Path) :
    (found (p, c.outcome t p)).filter (·.rule = uniqueRule) = [] := by
  have hfile : ∀ f ∈ found (p, c.outcome t p), IsFileRule f.rule := by
    cases hv : c.outcome t p with
    | error e => exact List.forall_mem_singleton.mpr (.inl (List.mem_cons_self ..))
    | ok v => exact isFileRule (validateFile_of_outcome hv)
  refine List.filter_eq_nil_iff.mpr fun f hf => ?_
  rw [decide_eq_true_eq]
  exact fun hrule => not_isFileRule_uniqueRule (hrule ▸ hfile f hf)

/-! ### Trees -/

/-- The tracking id of a file, if that can be validated and has one. -/
def idOf (c : ValidationContext) (t : FileTree) (p : Path) : Option String :=
  (c.outcome t p).toOption.bind (·.trackingId?)

theorem idOf_eq_some {id : String} : c.idOf t p = some id ↔
    ∃ v, c.outcome t p = .ok v ∧ v.trackingId? = some id := by
  rw [idOf, Option.bind_eq_some_iff]
  simp only [Except.toOption_eq_some]

theorem length_owners {attempts : List Attempt}
    (h : attempts.Perm (paths.map fun p => (p, c.outcome t p))) (id : String) :
    (owners (validations attempts) id).length = (paths.map (c.idOf t)).count (some id) := by
  have hown : (owners (validations attempts) id).length = attempts.countP fun a =>
      a.2.toOption.bind (·.trackingId?) = some id := by
    rw [owners, List.length_map, ← List.countP_eq_length_filter, validations,
      List.countP_filterMap]
    refine List.countP_congr fun a _ => ?_
    cases a.2.toOption <;> simp
  rw [hown, h.countP_eq, List.countP_map, List.count, List.countP_map]
  refine List.countP_congr fun p _ => ?_
  simp [idOf]

end ValidationContext

/-- What a report tells of the file at this place: its tracking id is shared, or it is not, or there
is none. -/
structure FileReport.Tells (ids : List (Option String)) (i : Nat) (f : FileReport) : Prop where
  fails : (∃ x ∈ f.findings, x.rule = uniqueRule ∧ x.isFail = true) ↔ SharedAt ids i
  failed : SharedAt ids i → f.state = .failed
  passes : ∀ id, ids[i]? = some (some id) → ¬SharedAt ids i →
    ∃ x, f.findings.filter (·.rule = uniqueRule) = [x] ∧ x.status = .pass
  without : ids[i]? = some none → f.findings.filter (·.rule = uniqueRule) = []

namespace FileReport.Tells
variable {ids : List (Option String)} {i : Nat} {f : FileReport}

theorem exists_mem_filter_iff : (∃ x ∈ f.findings, x.rule = uniqueRule ∧ x.isFail = true) ↔
    ∃ x ∈ f.findings.filter (·.rule = uniqueRule), x.isFail = true := by
  simp only [List.mem_filter, decide_eq_true_eq, and_assoc]

/-- One finding tells whether the id is shared. -/
theorem of_singleton {id : String} {x : Finding} (hsettled : f.IsSettled)
    (hid : ids[i]? = some (some id)) (hfilter : f.findings.filter (·.rule = uniqueRule) = [x])
    (hfail : x.isFail = true ↔ SharedAt ids i) (hpass : x.isFail = false → x.status = .pass) :
    f.Tells ids i where
  fails := by
    rw [exists_mem_filter_iff, hfilter]
    simpa using hfail
  failed hshared := by
    have hmem : x ∈ f.findings.filter (·.rule = uniqueRule) :=
      hfilter ▸ List.mem_singleton_self x
    exact hsettled.state_eq_failed.mpr
      (List.any_eq_true.mpr ⟨x, List.mem_of_mem_filter hmem, hfail.mpr hshared⟩)
  passes _ _ hnot := ⟨x, hfilter, hpass (Bool.eq_false_iff.mpr fun h => hnot (hfail.mp h))⟩
  without hnone := by
    rw [hid] at hnone
    cases hnone

theorem of_nil (hid : ids[i]? = some none)
    (hfilter : f.findings.filter (·.rule = uniqueRule) = []) : f.Tells ids i := by
  have hnot : ¬SharedAt ids i := fun ⟨id, h, _⟩ => by
    rw [hid] at h
    cases h
  refine ⟨?_, fun h => absurd h hnot, fun id h => ?_, fun _ => hfilter⟩
  · rw [exists_mem_filter_iff, hfilter]
    simpa using hnot
  · rw [hid] at h
    cases h

end FileReport.Tells

namespace ValidationContext
variable {c : ValidationContext} {t : FileTree} {root : Path} {pattern : FilePattern}
  {paths : List Path} {p : Path}

theorem isFail_sharing {vs : List FileValidation} {id : String} (h : p ∈ owners vs id) :
    (sharing vs id p).isFail = true ↔ 1 < (owners vs id).length := by
  have hpos := List.length_pos_of_mem h
  unfold sharing uniqueness
  split
  · exact ⟨nofun, fun h => by omega⟩
  · exact ⟨fun _ => by omega, fun _ => rfl⟩

theorem status_sharing {vs : List FileValidation} {id : String}
    (h : (sharing vs id p).isFail = false) : (sharing vs id p).status = .pass := by
  unfold sharing uniqueness at h ⊢
  split at h
  · rw [if_pos ‹_›]
    rfl
  · cases h

/-- A file with an id has one finding by the rule on tracking ids, any other file none. -/
theorem filter_of_tracked {vs : List FileValidation} {f : Path → FileReport}
    (htracked : Tracked vs (fun p => .ofFindings (found (p, c.outcome t p))) f) (p : Path) :
    (∃ v ∈ vs, ∃ id, v.trackingId? = some id ∧ v.path = p ∧
      (f p).findings.filter (·.rule = uniqueRule) = [sharing vs id p]) ∨
    (∀ v ∈ vs, v.path = p → v.trackingId? = none) ∧
      (f p).findings.filter (·.rule = uniqueRule) = [] := by
  rcases htracked.amended_or_same p with ⟨v, hv, id, hvid, rfl, heq⟩ | ⟨hnone, heq⟩
  · refine .inl ⟨v, hv, id, hvid, rfl, ?_⟩
    have hfindings : (f v.path).findings =
        found (v.path, c.outcome t v.path) ++ [sharing vs id v.path] := congrArg _ heq
    rw [hfindings, List.filter_append, filter_found, List.nil_append]
    exact List.filter_cons_of_pos (decide_eq_true (rule_sharing ..))
  · exact .inr ⟨hnone, heq ▸ filter_found c t p⟩

theorem tells_of_tracked {attempts : List Attempt} {f : Path → FileReport}
    (h : attempts.Perm (paths.map fun p => (p, c.outcome t p)))
    (htracked : Tracked (validations attempts)
      (fun p => .ofFindings (found (p, c.outcome t p))) f)
    (hsettled : (f p).IsSettled) {i : Nat} (hi : paths[i]? = some p) :
    (f p).Tells (paths.map (c.idOf t)) i := by
  have hid : (paths.map (c.idOf t))[i]? = some (c.idOf t p) := by
    rw [List.getElem?_map, hi]
    rfl
  rcases filter_of_tracked htracked p with ⟨v, hv, id, hvid, hpath, hfilter⟩ | ⟨hnone, hfilter⟩
  · obtain ⟨q, -, hq⟩ := (mem_validations h).mp hv
    obtain rfl : q = p := (path_of_outcome q v hq).symm.trans hpath
    rw [idOf_eq_some.mpr ⟨v, hq, hvid⟩] at hid
    refine .of_singleton hsettled hid hfilter ?_ status_sharing
    rw [isFail_sharing (mem_owners.mpr ⟨v, hv, hvid, hpath⟩), length_owners h, sharedAt_iff hid]
  · refine .of_nil (hid.trans (congrArg some ?_)) hfilter
    refine Option.eq_none_iff_forall_ne_some.mpr fun id hsome => ?_
    obtain ⟨v, hv, hvid⟩ := idOf_eq_some.mp hsome
    have hmem := (mem_validations h).mpr ⟨p, List.mem_of_getElem? hi, hv⟩
    rw [hnone v hmem (path_of_outcome p v hv)] at hvid
    cases hvid

end ValidationContext

/-! ### Lists of entries -/

namespace Database

theorem isFail_checkTrackingId_iff {es : List Entry} {i : Nat} {e : Entry}
    (hi : es[i]? = some e) :
    (checkTrackingId es e).isFail = true ↔ SharedAt (es.map (·.trackingId?)) i := by
  have hid : (es.map (·.trackingId?))[i]? = some e.trackingId? := by
    rw [List.getElem?_map, hi]
    rfl
  rw [isFail_checkTrackingId]
  simp only [length_owners]
  constructor
  · rintro ⟨id, hsome, hmany⟩
    exact (sharedAt_iff (hid.trans (congrArg some hsome))).mpr hmany
  · rintro ⟨id, hplace, hother⟩
    have hsome := Option.some.inj (hid.symm.trans hplace)
    exact ⟨id, hsome, (sharedAt_iff hplace).mp ⟨id, hplace, hother⟩⟩

theorem exists_fail_checkEntry_iff (t : FileTree) (es : List Entry) (now : Instant) (e : Entry) :
    (∃ f ∈ (checkEntry t es now e).findings, f.rule = uniqueRule ∧ f.isFail = true) ↔
      (checkTrackingId es e).isFail = true := by
  rw [findings_checkEntry]
  refine ⟨fun ⟨f, hf, hrule, hfail⟩ => ?_, fun h => ⟨_, List.mem_append_right _
    (List.mem_singleton_self _), rule_checkTrackingId es e, h⟩⟩
  rcases List.mem_append.mp hf with hf | hf
  · rcases List.mem_append.mp hf with hf | hf
    · have hother := (List.mem_filter.mp hf).2
      rw [hrule] at hother
      simp at hother
    · rw [List.mem_singleton.mp hf, rule_checkHash] at hrule
      exact absurd hrule (by decide)
  · exact List.mem_singleton.mp hf ▸ hfail

end Database

/-- A file of a tree fails for its tracking id exactly if another file that can be validated has the
same, whatever the order in which they are done, and an entry of a list exactly if another entry
has. -/
theorem sharing_decided (c : ValidationContext) {t : FileTree} (ht : t.IsNamed) {root : Path}
    {pattern : FilePattern} {paths : List Path} (hfind : t.findFiles root pattern = .ok paths) :
    (∀ workers schedule, ∃ r,
      c.validateTree t root pattern true workers schedule = .ok r ∧ r.files.keys = paths ∧
      ∀ i p, paths[i]? = some p →
        ∃ f, r.get? p = some f ∧ f.Tells (paths.map (c.idOf t)) i) ∧
    ∀ (data : FileTree) (es : List Entry) (workers : Nat) (schedule : Nat → Nat) (now : Instant),
      ∃ checked, (Database.validateEntries data es workers schedule now).Perm checked ∧
        List.Forall₂ (Entry.Rechecked data now) es checked ∧
        ∀ i e, checked[i]? = some e →
          ((∃ f ∈ e.findings, f.rule = Database.uniqueRule ∧ f.isFail = true) ↔
            SharedAt (es.map (·.trackingId?)) i) := by
  refine ⟨fun workers schedule => ?_, fun data es workers schedule now => ?_⟩
  · have hpaths := FileTree.sorted_of_findFiles ht hfind
    have hattempts := ValidationContext.arrived_perm c t paths workers schedule
    obtain ⟨f, hreport, htracked, hsettled⟩ :=
      says_reportOf ValidationContext.path_of_outcome hattempts hpaths
    refine ⟨_, ValidationContext.validateTree_eq_reportOf hfind workers schedule, hreport.keys,
      fun i p hi => ⟨f p, hreport.get? (List.mem_of_getElem? hi), ?_⟩⟩
    exact ValidationContext.tells_of_tracked hattempts htracked (hsettled p) hi
  · refine ⟨_, Database.validateEntries_perm data es workers schedule now,
      Database.rechecked_map data es now, fun i e hi => ?_⟩
    rw [List.getElem?_map, Option.map_eq_some_iff] at hi
    obtain ⟨x, hx, rfl⟩ := hi
    rw [Database.exists_fail_checkEntry_iff, Database.isFail_checkTrackingId_iff hx]

/-- Two files that share an id both fail, and so do two entries. -/
theorem sharing_decided_sample :
    ValidationContext.sampleTree.IsNamed ∧
    ValidationContext.sampleTree.findFiles ⟨"in"⟩ ValidationContext.samplePattern =
      .ok [⟨"in/a.nc"⟩, ⟨"in/b.nc"⟩] ∧
    (∀ workers schedule, ∃ r f,
      ValidationContext.sharedContext.validateTree ValidationContext.sampleTree ⟨"in"⟩
        ValidationContext.samplePattern true workers schedule = .ok r ∧
      r.get? ⟨"in/a.nc"⟩ = some f ∧ f.state = .failed) ∧
    ∃ checked e, (Database.validateEntries ⟨∅, []⟩ Database.sharing 1 (fun _ => 0)
        ⟨⟨2024, 1, 2⟩, 0, 0⟩).Perm checked ∧ checked[0]? = some e ∧
      ∃ f ∈ e.findings, f.rule = Database.uniqueRule ∧ f.isFail = true := by
  have hnamed : ValidationContext.sampleTree.IsNamed := by decide +kernel
  obtain ⟨htree, hentries⟩ := sharing_decided ValidationContext.sharedContext hnamed
    ValidationContext.findFiles_sample
  refine ⟨hnamed, ValidationContext.findFiles_sample, fun workers schedule => ?_, ?_⟩
  · obtain ⟨r, hrun, -, htells⟩ := htree workers schedule
    obtain ⟨f, hget, hf⟩ := htells 0 _ rfl
    refine ⟨r, f, hrun, hget, hf.failed ⟨"co2", ?_, 1, by decide, ?_⟩⟩
    all_goals decide +kernel
  · obtain ⟨checked, hperm, hchecked, hiff⟩ := hentries ⟨∅, []⟩ Database.sharing 1 (fun _ => 0)
      ⟨⟨2024, 1, 2⟩, 0, 0⟩
    obtain ⟨e, _, -, -, rfl⟩ := List.forall₂_cons_left_iff.mp hchecked
    refine ⟨_, e, hperm, rfl, (hiff 0 e rfl).mpr ⟨"co2", ?_, 1, by decide, ?_⟩⟩
    all_goals decide +kernel

end ForcingData
