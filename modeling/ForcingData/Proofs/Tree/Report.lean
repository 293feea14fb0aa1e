import ForcingData.Proofs.Dict
import ForcingData.Tree.Report

/-! # Reports on known paths

A report on the paths that were found says something of each of them, and `TreeReport.Says` is what:
a function on paths, which every operation changes at one path. -/

namespace ForcingData

/-! ### The most severe status -/

namespace Status

theorem foldl_max_eq_fail {α : Type} (status : α → Status) (l : List α) (s : Status) :
    l.foldl (fun s a => s.max (status a)) s = .fail ↔ s = .fail ∨ ∃ a ∈ l, status a = .fail := by
  induction l generalizing s with
  | nil => simp
  | cons a l ih =>
    have hmax : s.max (status a) = .fail ↔ s = .fail ∨ status a = .fail := by
      cases s <;> cases status a <;> decide
    rw [List.foldl_cons, ih, hmax, List.exists_mem_cons_iff, or_assoc]

end Status

theorem Findings.summary_eq_fail {fs : Findings} :
    fs.summary = .fail ↔ fs.hasFailures = true := by
  rw [summary, Status.foldl_max_eq_fail, hasFailures, List.any_eq_true]
  simp [Finding.isFail]

namespace FileState

theorem isTerminal_ofStatus (s : Status) : (ofStatus s).isTerminal = true := by
  cases s <;> rfl

theorem status_ofStatus (s : Status) : (ofStatus s).status = s := by
  cases s <;> rfl

end FileState

namespace FileReport

/-- The file is done, and in the state that its findings call for. -/
def IsSettled (f : FileReport) : Prop := f.state = .ofStatus f.findings.summary

theorem isSettled_ofFindings (findings : Findings) : (ofFindings findings).IsSettled := rfl

theorem IsSettled.isTerminal {f : FileReport} (h : f.IsSettled) : f.state.isTerminal = true := by
  rw [h]
  exact FileState.isTerminal_ofStatus _

theorem IsSettled.status_eq_fail {f : FileReport} (h : f.IsSettled) :
    f.state.status = .fail ↔ f.findings.hasFailures = true := by
  rw [h, FileState.status_ofStatus, Findings.summary_eq_fail]

theorem IsSettled.state_eq_failed {f : FileReport} (h : f.IsSettled) :
    f.state = .failed ↔ f.findings.hasFailures = true := by
  rw [← h.status_eq_fail, h]
  cases f.findings.summary <;> decide

end FileReport

namespace TreeReport

/-- The report says this of the paths, and nothing of others. -/
def Says (r : TreeReport) (paths : List Path) (f : Path → FileReport) : Prop :=
  r.files.toList = paths.map fun p => (p, f p)

/-- As they are found: in order, and each once. -/
abbrev Ascending (paths : List Path) : Prop := paths.Pairwise fun p q => compare p q = .lt

section
variable {r r' : TreeReport} {paths : List Path} {f f' : Path → FileReport} {p : Path}

theorem says_discover (h : Ascending paths) :
    (discover paths).Says paths fun _ => .discovered :=
  Dict.toList_ofList (List.pairwise_map.mpr h)

namespace Says

theorem toList (h : r.Says paths f) : r.files.toList = paths.map fun p => (p, f p) := h

theorem eq_of_forall_mem (h : r.Says paths f) (h' : r'.Says paths f')
    (hsame : ∀ p ∈ paths, f p = f' p) : r = r' := by
  have hfiles : r.files = r'.files :=
    Dict.ext (h.trans ((List.map_congr_left fun p hp => by rw [hsame p hp]).trans h'.symm))
  cases r
  cases r'
  exact congrArg _ hfiles

theorem congr (h : r.Says paths f) (hsame : ∀ p ∈ paths, f p = f' p) : r.Says paths f' :=
  h.trans (List.map_congr_left fun p hp => by rw [hsame p hp])

theorem keys (h : r.Says paths f) : r.files.keys = paths := by
  rw [Dict.keys, h, List.map_map]
  exact List.map_id _

theorem values (h : r.Says paths f) : r.files.values = paths.map f := by
  rw [Dict.values, h, List.map_map]
  rfl

theorem get? (h : r.Says paths f) (hp : p ∈ paths) : r.get? p = some (f p) :=
  Dict.get?_of_mem (h ▸ List.mem_map_of_mem hp)

theorem update (h : r.Says paths f) (hpaths : Ascending paths) (hp : p ∈ paths)
    (g : FileReport → FileReport) :
    (r.update p g).Says paths (Function.update f p (g (f p))) := by
  show Dict.insertEntry p (g ((r.get? p).getD .discovered)) r.files.toList = _
  rw [h.get? hp, Option.getD_some, h.toList, Dict.insertEntry_map hpaths hp]

/-- Different paths are changed one after the other as if all at once. -/
theorem foldl_update (hpaths : Ascending paths) :
    ∀ {changes : List (Path × (FileReport → FileReport))} {r : TreeReport} {f : Path → FileReport},
      r.Says paths f → (∀ c ∈ changes, c.1 ∈ paths) → (changes.map (·.1)).Nodup →
      ∃ f', (changes.foldl (fun r c => r.update c.1 c.2) r).Says paths f' ∧
        (∀ c ∈ changes, f' c.1 = c.2 (f c.1)) ∧ ∀ p, p ∉ changes.map (·.1) → f' p = f p
  | [], _, f, h, _, _ => ⟨f, h, nofun, fun _ _ => rfl⟩
  | c :: changes, r, f, h, hmem, hnodup => by
    obtain ⟨hc, hmem⟩ := List.forall_mem_cons.mp hmem
    obtain ⟨hnew, hnodup⟩ := List.nodup_cons.mp hnodup
    obtain ⟨f', hreport, hin, hout⟩ := foldl_update hpaths (h.update hpaths hc c.2) hmem hnodup
    refine ⟨f', hreport, List.forall_mem_cons.mpr ⟨?_, fun d hd => ?_⟩, fun p hp => ?_⟩
    · rw [hout _ hnew, Function.update_self]
    · have hne : d.1 ≠ c.1 := fun he => hnew (List.mem_map.mpr ⟨d, hd, he⟩)
      rw [hin d hd, Function.update_of_ne hne]
    · rw [List.map_cons, List.mem_cons, not_or] at hp
      rw [hout p hp.2, Function.update_of_ne hp.1]

/-! ### Totals -/

theorem summary_eq_fail (h : r.Says paths f) :
    r.summary = .fail ↔ ∃ p ∈ paths, (f p).state.status = .fail := by
  rw [TreeReport.summary, Status.foldl_max_eq_fail (fun f : FileReport => f.state.status),
    h.values]
  simp

theorem inState_eq_nil (h : r.Says paths f) {s : FileState} :
    r.inState s = [] ↔ ∀ p ∈ paths, (f p).state ≠ s := by
  rw [inState, Dict.keys, Dict.filter]
  simp [h.toList]

theorem count_eq (h : r.Says paths f) (s : FileState) :
    r.count s = paths.countP fun p => (f p).state = s := by
  rw [count, inState, Dict.keys, List.length_map, Dict.filter]
  simp only [h.toList, ← List.countP_eq_length_filter, List.countP_map]
  rfl

theorem count_add_count_add_count (h : r.Says paths f)
    (hdone : ∀ p ∈ paths, (f p).state.isTerminal = true) :
    r.count .passed + r.count .warned + r.count .failed = paths.length := by
  rw [h.count_eq, h.count_eq, h.count_eq]
  clear h
  induction paths with
  | nil => rfl
  | cons p paths ih =>
    obtain ⟨hp, hdone⟩ := List.forall_mem_cons.mp hdone
    have := ih hdone
    simp only [List.countP_cons, List.length_cons]
    cases hs : (f p).state <;> simp_all [FileState.isTerminal] <;> omega

end Says
end
end TreeReport
end ForcingData
