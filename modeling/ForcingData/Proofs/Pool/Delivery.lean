import ForcingData.Proofs.Pool.Trace

/-! # What becomes of the tasks of a pool

A task is taken by a worker, begun, finished, and its result is sent and sunk; or it is dropped, as
the flag is up. What comes to a station on this way goes on from it or is still there
(`Trace.tally`), and the flag does not go down again (`Trace.flag`). So at the end the sink has had
one call for every task that was begun, and for no other: `Trace.every_task_delivered`. -/

namespace ForcingData

theorem Outcome.eq_recover {α : Type} {x : Outcome α} {f : String → α} {a : α} :
    a = x.recover f ↔ x = .done a ∨ ∃ message, x = .aborted message ∧ a = f message := by
  cases x with
  | done b =>
    constructor
    · intro h
      exact .inl (h ▸ rfl)
    · rintro (h | ⟨_, h, _⟩) <;> cases h
      rfl
  | aborted m =>
    constructor
    · intro h
      exact .inr ⟨m, rfl, h⟩
    · rintro (h | ⟨_, h, ha⟩) <;> cases h
      exact ha

namespace Pool
variable {ω τ ρ : Type}

/-! ### Lists with the same elements -/

theorem perm_filterMap_set {α β : Type} {l : List α} {i : Nat} {a : α} (h : l[i]? = some a)
    (f : α → Option β) (b : α) :
    ((f a).toList ++ (l.set i b).filterMap f).Perm ((f b).toList ++ l.filterMap f) := by
  obtain ⟨hi, rfl⟩ := List.getElem?_eq_some_iff.mp h
  have hcons (c : α) (l : List α) :
      (c :: l).filterMap f = (f c).toList ++ l.filterMap f := by
    rw [List.filterMap_cons]
    cases f c <;> rfl
  have hset := (List.set_perm_cons_eraseIdx hi b).filterMap f
  have hget := (List.getElem_cons_eraseIdx_perm hi).filterMap f
  rw [hcons] at hset hget
  refine (hset.append_left _).trans (.trans ?_ (hget.append_left _))
  rw [← List.append_assoc, ← List.append_assoc]
  exact List.perm_append_comm.append_right _

/-- The same elements, and in the same order if that is asked for. -/
structure Tally {α : Type} (inOrder : Prop) (a b : List α) : Prop where
  perm : a.Perm b
  eq : inOrder → a = b

namespace Tally
variable {α β : Type} {inOrder : Prop} {a b c : List α}

theorem refl (a : List α) : Tally inOrder a a := ⟨.refl a, fun _ => rfl⟩

theorem of_eq (h : a = b) : Tally inOrder a b := h ▸ refl a

theorem trans (h : Tally inOrder a b) (h' : Tally inOrder b c) : Tally inOrder a c :=
  ⟨h.perm.trans h'.perm, fun ho => (h.eq ho).trans (h'.eq ho)⟩

theorem append_left (h : Tally inOrder a b) (l : List α) : Tally inOrder (l ++ a) (l ++ b) :=
  ⟨h.perm.append_left l, fun ho => by rw [h.eq ho]⟩

theorem append_right (h : Tally inOrder a b) (l : List α) : Tally inOrder (a ++ l) (b ++ l) :=
  ⟨h.perm.append_right l, fun ho => by rw [h.eq ho]⟩

theorem map (h : Tally inOrder a b) (f : α → β) : Tally inOrder (a.map f) (b.map f) :=
  ⟨h.perm.map f, fun ho => by rw [h.eq ho]⟩

theorem exists_map {f : α → β} {l : List β} (h : Tally inOrder l (a.map f)) :
    ∃ b : List α, b.map f = l ∧ Tally inOrder b a := by
  by_cases ho : inOrder
  · exact ⟨a, (h.eq ho).symm, refl a⟩
  · have hperm : Relation.Comp (fun l b => l = List.map f b) List.Perm l a := by
      rw [List.eq_map_comp_perm]
      exact h.perm
    obtain ⟨b, hb, hba⟩ := hperm
    exact ⟨b, hb.symm, hba, fun ho' => absurd ho' ho⟩

theorem set {l : List α} {i : Nat} {x : α} (h : l[i]? = some x) (f : α → Option β) (y : α) :
    Tally (l.length = 1) ((f x).toList ++ (l.set i y).filterMap f)
      (l.filterMap f ++ (f y).toList) := by
  refine ⟨(perm_filterMap_set h f y).trans List.perm_append_comm, fun hone => ?_⟩
  obtain ⟨z, rfl⟩ := List.length_eq_one_iff.mp hone
  obtain ⟨rfl, rfl⟩ : i = 0 ∧ z = x := by
    cases i with
    | zero => exact ⟨rfl, Option.some.inj h⟩
    | succ i => cases h
  cases hx : f z <;> cases hy : f y <;> simp [hx, hy]

end Tally

/-! ### What has happened -/

namespace Event

def taken? : Event τ ρ → Option τ
  | taken x => some x
  | _ => none

def checked? : Event τ ρ → Option τ
  | begun x | dropped x => some x
  | _ => none

def begun? : Event τ ρ → Option τ
  | begun x => some x
  | _ => none

def dropped? : Event τ ρ → Option τ
  | dropped x => some x
  | _ => none

def finished? : Event τ ρ → Option (τ × ρ)
  | finished x r => some (x, r)
  | _ => none

def sent? : Event τ ρ → Option ρ
  | sent r => some r
  | _ => none

def sunk? : Event τ ρ → Option ρ
  | sunk r _ => some r
  | _ => none

end Event

section
variable (es : List (Event τ ρ))

def taken : List τ := es.filterMap Event.taken?
/-- The tasks for which a worker has looked at the flag. -/
def checked : List τ := es.filterMap Event.checked?
/-- Those for which the flag was down. -/
def begun : List τ := es.filterMap Event.begun?
def dropped : List τ := es.filterMap Event.dropped?
/-- The tasks with their results. -/
def finished : List (τ × ρ) := es.filterMap Event.finished?
def sent : List ρ := es.filterMap Event.sent?
/-- The results that the sink was called with. -/
def sunk : List ρ := es.filterMap Event.sunk?

end

def Worker.held? : Worker τ ρ → Option τ
  | .holding x => some x
  | _ => none

def Worker.working? : Worker τ ρ → Option τ
  | .working x => some x
  | _ => none

def Worker.finished? : Worker τ ρ → Option ρ
  | .finished r => some r
  | _ => none

/-- The world after the sink has taken these results. -/
def Job.worldAfter (job : Job ω τ ρ) (world : ω) (rs : List ρ) : ω :=
  rs.foldl (fun w r => (job.sink w r).1) world

theorem Job.worldAfter_append (job : Job ω τ ρ) (world : ω) (rs rs' : List ρ) :
    job.worldAfter world (rs ++ rs') = job.worldAfter (job.worldAfter world rs) rs' :=
  List.foldl_append

variable {job : Job ω τ ρ} {tasks : List τ} {world : ω} {es before after : List (Event τ ρ)}
  {e : Event τ ρ} {s₀ s s' : State ω τ ρ} {n : Nat}

theorem filterMap_concat {α β : Type} (f : α → Option β) (l : List α) (a : α) :
    (l ++ [a]).filterMap f = l.filterMap f ++ (f a).toList := by
  rw [List.filterMap_append, List.filterMap_cons]
  cases f a <;> rfl

/-! ### Stations -/

theorem Step.length_workers (h : Step job s e s') : s'.workers.length = s.workers.length := by
  cases h <;> first | exact List.length_set | rfl

theorem Trace.length_workers (h : Trace job s₀ es s) : s.workers.length = s₀.workers.length := by
  induction h with
  | start => rfl
  | step _ hstep ih => rw [hstep.length_workers, ih]

/-- What came to a station has gone on from it or is still there, if that is so for each step. -/
theorem Trace.tally {α : Type} {into out : Event τ ρ → Option α} {f : State ω τ ρ → List α}
    (hstep : ∀ {s e s'}, Step job s e s' →
      Tally (s.workers.length = 1) ((out e).toList ++ f s') (f s ++ (into e).toList))
    (h : Trace job s₀ es s) :
    Tally (s₀.workers.length = 1) (es.filterMap out ++ f s) (f s₀ ++ es.filterMap into) := by
  induction h with
  | start => exact .of_eq (List.append_nil _).symm
  | @step es e s s' htrace hs ih =>
    have hnext := hstep hs
    rw [htrace.length_workers] at hnext
    rw [filterMap_concat, filterMap_concat, List.append_assoc, ← List.append_assoc (f s₀)]
    refine (hnext.append_left (es.filterMap out)).trans ?_
    rw [← List.append_assoc]
    exact ih.append_right _

theorem Step.held (h : Step job s e s') :
    Tally (s.workers.length = 1) (e.checked?.toList ++ s'.workers.filterMap Worker.held?)
      (s.workers.filterMap Worker.held? ++ e.taken?.toList) := by
  cases h with
  | take hw | leave hw | begin hw | drop hw | work hw | send hw =>
    exact Tally.set hw Worker.held? _
  | sink | raise => exact .of_eq (List.append_nil _).symm

theorem Step.working (h : Step job s e s') :
    Tally (s.workers.length = 1)
      ((e.finished?.map (·.1)).toList ++ s'.workers.filterMap Worker.working?)
      (s.workers.filterMap Worker.working? ++ e.begun?.toList) := by
  cases h with
  | take hw | leave hw | begin hw | drop hw | work hw | send hw =>
    exact Tally.set hw Worker.working? _
  | sink | raise => exact .of_eq (List.append_nil _).symm

theorem Step.finished (h : Step job s e s') :
    Tally (s.workers.length = 1) (e.sent?.toList ++ s'.workers.filterMap Worker.finished?)
      (s.workers.filterMap Worker.finished? ++ (e.finished?.map (·.2)).toList) := by
  cases h with
  | take hw | leave hw | begin hw | drop hw | work hw | send hw =>
    exact Tally.set hw Worker.finished? _
  | sink | raise => exact .of_eq (List.append_nil _).symm

theorem Trace.tasks_eq (h : Trace job s₀ es s) : taken es ++ s.tasks = s₀.tasks := by
  induction h with
  | start => rfl
  | @step es e s s' _ hstep ih =>
    rw [← ih, taken, filterMap_concat, List.append_assoc]
    refine congrArg (taken es ++ ·) ?_
    cases hstep with
    | take _ ht => exact ht.symm
    | _ => rfl

theorem Trace.results_eq (h : Trace job s₀ es s) (h₀ : s₀.results = []) :
    sunk es ++ s.results = sent es := by
  induction h with
  | start => exact h₀
  | @step es e s s' _ hstep ih =>
    rw [sent, filterMap_concat, ← sent, ← ih, sunk, filterMap_concat, List.append_assoc,
      List.append_assoc]
    refine congrArg (sunk es ++ ·) ?_
    cases hstep with
    | @sink result rest _ hr =>
      rw [hr]
      exact (List.append_nil (result :: rest)).symm
    | _ => first | rfl | exact (List.append_nil _).symm

/-! ### The flag -/

/-- What the flag says about a run so far. -/
structure Flag (es : List (Event τ ρ)) (s : State ω τ ρ) : Prop where
  raised : .raised ∈ es ↔ s.cancelled = true
  asked : (∃ r, .sunk r true ∈ es) ↔ s.stopping = true ∨ s.cancelled = true
  /-- What is dropped is dropped after all that is begun. -/
  checked : checked es = begun es ++ dropped es
  dropped : s.cancelled = false → Pool.dropped es = []
  gone : .gone ∈ s.workers → s.tasks = [] ∨ s.cancelled = true

theorem Flag.start (n : Nat) (tasks : List τ) (world : ω) :
    Flag [] (.start n tasks world : State ω τ ρ) where
  raised := ⟨nofun, nofun⟩
  asked := ⟨nofun, nofun⟩
  checked := rfl
  dropped := fun _ => rfl
  gone := fun h => nomatch List.eq_of_mem_replicate h

theorem Flag.step (h : Flag es s) (hstep : Step job s e s') : Flag (es ++ [e]) s' where
  raised := by
    rw [List.mem_append, h.raised, List.mem_singleton]
    cases hstep <;> simp
  asked := by
    simp only [List.mem_append, List.mem_singleton, exists_or, h.asked]
    cases hstep with
    | @sink result rest hstop => cases hc : s.cancelled <;> simp [hstop]
    | raise hstop => simp [hstop]
    | _ => simp
  checked := by
    simp only [Pool.checked, Pool.begun, Pool.dropped, filterMap_concat]
    rw [← Pool.checked, ← Pool.begun, ← Pool.dropped, h.checked]
    cases hstep with
    | begin _ hflag => simp [h.dropped hflag, Event.checked?, Event.begun?, Event.dropped?]
    | _ => simp [Event.checked?, Event.begun?, Event.dropped?]
  dropped := by
    intro hdown
    rw [Pool.dropped, filterMap_concat, ← Pool.dropped]
    cases hstep with
    | drop _ hup => exact absurd (hup.symm.trans hdown) nofun
    | raise => cases hdown
    | _ => rw [h.dropped hdown]; rfl
  gone := by
    -- only a worker that finds no task or a raised flag goes
    have hset {i : Nat} {w : Worker τ ρ} (hgone : .gone ∈ s.workers.set i w) (hne : w ≠ .gone) :
        .gone ∈ s.workers :=
      (List.mem_or_eq_of_mem_set hgone).resolve_right fun he => hne he.symm
    intro hgone
    cases hstep with
    | take _ ht =>
      refine (h.gone (hset hgone nofun)).imp (fun hnil => ?_) id
      rw [ht] at hnil
      cases hnil
    | leave _ ht => exact .inl ht
    | drop _ hup => exact .inr hup
    | begin | work | send => exact h.gone (hset hgone nofun)
    | sink => exact h.gone hgone
    | raise => exact .inr rfl

theorem Trace.flag (h : Trace job (.start n tasks world) es s) : Flag es s := by
  induction h with
  | start => exact .start ..
  | step _ hstep ih => exact ih.step hstep

theorem Trace.begun_of_raised (h : Trace job (.start n tasks world) es s)
    (hes : es = before ++ .raised :: after) : begun after = [] := by
  induction h generalizing after with
  | start => simp at hes
  | @step es e s s' htrace hstep ih =>
    rcases List.eq_nil_or_concat' after with rfl | ⟨after, last, rfl⟩
    · rfl
    · rw [← List.cons_append, ← List.append_assoc] at hes
      obtain ⟨rfl, hlast⟩ := List.append_inj' hes rfl
      obtain rfl := List.singleton_inj.mp hlast
      rw [begun, filterMap_concat, ← begun, ih rfl]
      cases hstep with
      | begin _ hdown =>
        rw [htrace.flag.raised.mp (by simp)] at hdown
        cases hdown
      | _ => rfl

/-! ### Results -/

theorem Trace.world_eq (h : Trace job (.start n tasks world) es s) :
    s.world = job.worldAfter world (sunk es) := by
  induction h with
  | start => rfl
  | step _ hstep ih =>
    rw [sunk, filterMap_concat, ← sunk, Job.worldAfter_append, ← ih]
    cases hstep <;> rfl

/-- Every result is that of the work on its task, in a world that the sink has made. -/
theorem Trace.outcome (h : Trace job (.start n tasks world) es s) : ∀ x r, (x, r) ∈ finished es →
    ∃ seen, seen <+: sunk es ∧ r = job.result (job.worldAfter world seen) x := by
  induction h with
  | start => exact nofun
  | @step es e s s' htrace hstep ih =>
    intro x r hmem
    have hsunk : sunk es <+: sunk (es ++ [e]) := by
      rw [sunk, sunk, List.filterMap_append]
      exact List.prefix_append ..
    rw [finished, filterMap_concat, List.mem_append] at hmem
    rcases hmem with hmem | hmem
    · obtain ⟨seen, hseen, hr⟩ := ih x r hmem
      exact ⟨seen, hseen.trans hsunk, hr⟩
    · cases hstep with
      | @work i task hw =>
        obtain ⟨rfl, rfl⟩ := Prod.mk.inj (List.mem_singleton.mp hmem)
        exact ⟨sunk es, hsunk, by rw [htrace.world_eq]⟩
      | _ => cases hmem

/-! ### The end -/

/-- The calls of the sink in their order, each with the task that it is for. -/
structure IsCalls (job : Job ω τ ρ) (tasks : List τ) (world : ω) (es : List (Event τ ρ))
    (calls : List (τ × ρ)) : Prop where
  sunk : calls.map (·.2) = sunk es
  /-- A call for every task that was begun, and for no other. -/
  begun : (calls.map (·.1)).Perm (begun es)
  /-- At most one call for each task. -/
  once : (calls.map (·.1)).Subperm tasks
  /-- With what the work gave or, if it was aborted, with what was made of its message. -/
  outcome : ∀ x r, (x, r) ∈ calls → ∃ seen, seen <+: Pool.sunk es ∧
    (job.work (job.worldAfter world seen) x = .done r ∨
      ∃ message, job.work (job.worldAfter world seen) x = .aborted message ∧
        r = job.recover x message)

theorem State.IsEnd.filterMap_workers {α : Type} (h : s.IsEnd) {f : Worker τ ρ → Option α}
    (hf : f .gone = none) : s.workers.filterMap f = [] :=
  List.filterMap_eq_nil_iff.mpr fun w hw => h.workers w hw ▸ hf

theorem filterMap_start {α : Type} (n : Nat) (tasks : List τ) (world : ω)
    {f : Worker τ ρ → Option α} (hf : f .idle = none) :
    (State.start n tasks world : State ω τ ρ).workers.filterMap f = [] :=
  List.filterMap_eq_nil_iff.mpr fun _ hw => List.eq_of_mem_replicate hw ▸ hf

/-- At the end nothing is left at a station of the workers. -/
theorem Trace.tally_end {α : Type} {into out : Event τ ρ → Option α} {has? : Worker τ ρ → Option α}
    (hstep : ∀ {s e s'}, Step job s e s' → Tally (s.workers.length = 1)
      ((out e).toList ++ s'.workers.filterMap has?) (s.workers.filterMap has? ++ (into e).toList))
    (hidle : has? .idle = none) (hgone : has? .gone = none)
    (h : Trace job (.start n tasks world) es s) (hend : s.IsEnd) :
    Tally (n = 1) (es.filterMap out) (es.filterMap into) := by
  have ht := h.tally (f := fun s => s.workers.filterMap has?) hstep
  have hlength : (State.start n tasks world : State ω τ ρ).workers.length = n :=
    List.length_replicate
  rwa [hend.filterMap_workers hgone, filterMap_start _ _ _ hidle, List.append_nil,
    List.nil_append, hlength] at ht

theorem Trace.exists_calls (h : Trace job (.start n tasks world) es s) (hend : s.IsEnd) :
    ∃ calls, IsCalls job tasks world es calls ∧ Tally (n = 1) (calls.map (·.1)) (begun es) := by
  have hchecked : Tally (n = 1) (checked es) (taken es) := h.tally_end Step.held rfl rfl hend
  have hbegun : Tally (n = 1) ((finished es).map (·.1)) (begun es) := by
    rw [finished, List.map_filterMap]
    exact h.tally_end Step.working rfl rfl hend
  have hsunk : Tally (n = 1) (sunk es) ((finished es).map (·.2)) := by
    have hsent := h.results_eq rfl
    rw [hend.results, List.append_nil] at hsent
    rw [hsent, finished, List.map_filterMap]
    exact h.tally_end Step.finished rfl rfl hend
  obtain ⟨calls, hcalls, htally⟩ := hsunk.exists_map
  have htasks : Tally (n = 1) (calls.map (·.1)) (begun es) := (htally.map _).trans hbegun
  refine ⟨calls, ⟨hcalls, htasks.perm, ?_, fun x r hmem => ?_⟩, htasks⟩
  · have hsublist : (begun es).Sublist (checked es) := by
      rw [h.flag.checked]
      exact List.sublist_append_left ..
    have hqueue : taken es ++ s.tasks = tasks := h.tasks_eq
    have htaken : (taken es).Sublist tasks := hqueue ▸ List.sublist_append_left ..
    exact htasks.perm.subperm.trans
      (hsublist.subperm.trans (hchecked.perm.subperm.trans htaken.subperm))
  · obtain ⟨seen, hseen, hr⟩ := h.outcome x r (htally.perm.mem_iff.mp hmem)
    exact ⟨seen, hseen, Outcome.eq_recover.mp hr⟩

theorem Trace.begun_perm (h : Trace job (.start n tasks world) es s) (hend : s.IsEnd) (hn : 0 < n)
    (hdown : s.cancelled = false) : (begun es).Perm tasks := by
  have hlength : s.workers.length = n := h.length_workers.trans List.length_replicate
  obtain ⟨w, hw⟩ := List.exists_mem_of_length_pos (hlength.symm ▸ hn)
  have hdone : s.tasks = [] := by
    refine (h.flag.gone (hend.workers w hw ▸ hw)).resolve_right fun hup => ?_
    rw [hdown] at hup
    cases hup
  have hchecked := (h.tally_end Step.held rfl rfl hend).perm
  have htasks := h.tasks_eq
  rw [hdone, List.append_nil] at htasks
  rw [show tasks = taken es from htasks.symm]
  refine .trans (.of_eq ?_) hchecked
  rw [← checked, h.flag.checked, h.flag.dropped hdown, List.append_nil]

theorem workers_pos (n : Nat) (tasks : List τ) : 0 < workers n tasks := by
  rw [workers]
  omega

/-- However the workers and the sink take their turns, they come to an end, and then every task that
was begun has had its one call of the sink. Without a stop that is every task. With a stop it is
every task for which the flag was still down, and the run says that it was stopped. A single worker
goes through the tasks in their order. -/
theorem Trace.every_task_delivered (h : Trace job (.start (workers n tasks) tasks world) es s) :
    es.length ≤ (State.start (workers n tasks) tasks world : State ω τ ρ).weight ∧
      (s.IsEnd ∨ ∃ e s', Step job s e s') ∧
      (s.IsEnd →
        (∃ schedule, run n schedule job tasks world =
          (job.worldAfter world (sunk es), s.cancelled)) ∧
        ∃ calls, IsCalls job tasks world es calls ∧
          ((∀ r, .sunk r true ∉ es) → s.cancelled = false ∧ (calls.map (·.1)).Perm tasks) ∧
          (∀ r, .sunk r true ∈ es → s.cancelled = true ∧ ∃ before after,
            es = before ++ .raised :: after ∧ (calls.map (·.1)).Perm (begun before)) ∧
          (workers n tasks = 1 → calls.map (·.1) <+: tasks)) := by
  have hflag := h.flag
  refine ⟨Nat.le_of_add_right_le h.length_add_weight_le, isEnd_or_step job s, fun hend => ?_⟩
  obtain ⟨calls, hcalls, htally⟩ := h.exists_calls hend
  obtain ⟨schedule, hschedule⟩ := h.exists_schedule hend
  have hrun : run n schedule job tasks world = (job.worldAfter world (sunk es), s.cancelled) := by
    rw [run, hschedule, h.world_eq]
  refine ⟨⟨schedule, hrun⟩, calls, hcalls, fun hnone => ?_, fun r hr => ?_, fun hone => ?_⟩
  · have hdown : s.cancelled = false := by
      refine Bool.eq_false_iff.mpr fun hup => ?_
      obtain ⟨r, hr⟩ := hflag.asked.mpr (.inr hup)
      exact hnone r hr
    exact ⟨hdown, hcalls.begun.trans (h.begun_perm hend (workers_pos n tasks) hdown)⟩
  · -- the flag goes up once, and nothing is begun behind that
    have hup : s.cancelled = true := by
      refine (hflag.asked.mp ⟨r, hr⟩).resolve_left fun hstop => ?_
      rw [hend.stopping] at hstop
      cases hstop
    obtain ⟨before, after, hes⟩ := List.append_of_mem (hflag.raised.mpr hup)
    have hafter := h.begun_of_raised hes
    refine ⟨hup, before, after, hes, hcalls.begun.trans (.of_eq ?_)⟩
    rw [hes, begun, List.filterMap_append, List.filterMap_cons_none rfl, ← begun, ← begun, hafter,
      List.append_nil]
  · have htaken := h.tasks_eq
    have hchecked := (h.tally_end Step.held rfl rfl hend).eq hone
    rw [htally.eq hone]
    refine ⟨dropped es ++ s.tasks, ?_⟩
    rw [← List.append_assoc, ← hflag.checked]
    exact (congrArg (· ++ s.tasks) hchecked).trans htaken

/-! ### A run that is stopped -/

/-- Work on the second task is aborted, and the first result asks for a stop. -/
def sampleJob : Job Nat Nat String where
  work _ task := if task = 2 then .aborted "broken" else .done s!"{task} is done"
  recover task message := s!"{task} is {message}"
  sink seen result := (seen + 1, result = "1 is done")

def sampleEvents : List (Event Nat String) :=
  [.taken 1, .taken 2, .begun 1, .begun 2, .finished 1 "1 is done", .sent "1 is done", .taken 3,
    .sunk "1 is done" true, .finished 2 "2 is broken", .raised, .dropped 3, .sent "2 is broken",
    .left, .sunk "2 is broken" false]

def sampleEnd : State Nat Nat String := ⟨[], [.gone, .gone], [], false, true, 2⟩

theorem trace_sample : Trace sampleJob (.start 2 [1, 2, 3] 0) sampleEvents sampleEnd :=
  (Trace.start : Trace sampleJob (.start 2 [1, 2, 3] 0) [] _)
    |>.step (.take (i := 0) rfl rfl) |>.step (.take (i := 1) rfl rfl)
    |>.step (.begin (i := 0) rfl rfl) |>.step (.begin (i := 1) rfl rfl)
    |>.step (.work (i := 0) rfl) |>.step (.send (i := 0) rfl)
    |>.step (.take (i := 0) rfl rfl) |>.step (.sink rfl rfl)
    |>.step (.work (i := 1) rfl) |>.step (.raise rfl)
    |>.step (.drop (i := 0) rfl rfl) |>.step (.send (i := 1) rfl)
    |>.step (.leave (i := 1) rfl rfl) |>.step (.sink rfl rfl)

theorem every_task_delivered_sample :
    sampleEnd.IsEnd ∧ sampleEnd.cancelled = true ∧ ∃ calls,
      IsCalls sampleJob [1, 2, 3] 0 sampleEvents calls ∧ (calls.map (·.1)).Perm [1, 2] := by
  have hend : sampleEnd.IsEnd := ⟨by simp [sampleEnd], rfl, rfl⟩
  have h : Trace sampleJob (.start (workers 2 [1, 2, 3]) [1, 2, 3] 0) sampleEvents sampleEnd :=
    trace_sample
  obtain ⟨_, calls, hcalls, _, hstopped, _⟩ := h.every_task_delivered.2.2 hend
  have hup := (hstopped "1 is done" (by simp [sampleEvents])).1
  exact ⟨hend, hup, calls, hcalls, hcalls.begun⟩

end Pool
end ForcingData
