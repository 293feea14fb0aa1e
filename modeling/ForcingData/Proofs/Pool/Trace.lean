import ForcingData.Pool.Basic
import Mathlib.Data.List.Perm.Basic

/-! # Traces of pools

What happens in one step of a pool (`Step`), and in all steps of a run up to some state (`Trace`).
Every move is a step, and every step a move (`step?_eq_some`). No run goes on for ever
(`Trace.length_add_weight_le`), and none is stuck before its end (`isEnd_or_step`). The run of a
schedule has a trace (`exists_trace_run`), and every trace to the end is the run of some schedule
(`Trace.exists_schedule`). -/

namespace ForcingData.Pool
variable {ω τ ρ : Type}

inductive Event (τ ρ : Type)
  /-- A worker takes a task. -/
  | taken (task : τ)
  /-- A worker goes, as there is no task. -/
  | left
  /-- A worker finds the flag down. -/
  | begun (task : τ)
  /-- A worker finds the flag up, and goes. -/
  | dropped (task : τ)
  /-- The work on a task, or what was made of its message, has a result. -/
  | finished (task : τ) (result : ρ)
  | sent (result : ρ)
  /-- The sink takes a result. Does it ask for a stop? -/
  | sunk (result : ρ) (stop : Bool)
  /-- The flag goes up. -/
  | raised
deriving Repr

/-- What one step of a pool can be. -/
inductive Step (job : Job ω τ ρ) (s : State ω τ ρ) : Event τ ρ → State ω τ ρ → Prop
  | take {i : Nat} {task : τ} {rest : List τ} (hw : s.workers[i]? = some .idle)
      (ht : s.tasks = task :: rest) :
      Step job s (.taken task)
        { s with tasks := rest, workers := s.workers.set i (.holding task) }
  | leave {i : Nat} (hw : s.workers[i]? = some .idle) (ht : s.tasks = []) :
      Step job s .left { s with workers := s.workers.set i .gone }
  | begin {i : Nat} {task : τ} (hw : s.workers[i]? = some (.holding task))
      (hflag : s.cancelled = false) :
      Step job s (.begun task) { s with workers := s.workers.set i (.working task) }
  | drop {i : Nat} {task : τ} (hw : s.workers[i]? = some (.holding task))
      (hflag : s.cancelled = true) :
      Step job s (.dropped task) { s with workers := s.workers.set i .gone }
  | work {i : Nat} {task : τ} (hw : s.workers[i]? = some (.working task)) :
      Step job s (.finished task (job.result s.world task))
        { s with workers := s.workers.set i (.finished (job.result s.world task)) }
  | send {i : Nat} {result : ρ} (hw : s.workers[i]? = some (.finished result)) :
      Step job s (.sent result)
        { s with workers := s.workers.set i .idle, results := s.results ++ [result] }
  | sink {result : ρ} {rest : List ρ} (hstop : s.stopping = false)
      (hr : s.results = result :: rest) :
      Step job s (.sunk result (job.sink s.world result).2)
        { s with
          results := rest
          world := (job.sink s.world result).1
          stopping := (job.sink s.world result).2 && !s.cancelled }
  | raise (hstop : s.stopping = true) :
      Step job s .raised { s with stopping := false, cancelled := true }

/-- The steps of a run so far, by what happened in them. -/
inductive Trace (job : Job ω τ ρ) (s₀ : State ω τ ρ) : List (Event τ ρ) → State ω τ ρ → Prop
  | start : Trace job s₀ [] s₀
  | step {es : List (Event τ ρ)} {e : Event τ ρ} {s s' : State ω τ ρ} (h : Trace job s₀ es s)
      (hstep : Step job s e s') : Trace job s₀ (es ++ [e]) s'

/-- All workers are gone, and the sink has taken all that was sent. -/
structure State.IsEnd (s : State ω τ ρ) : Prop where
  workers : ∀ w ∈ s.workers, w = .gone
  results : s.results = []
  stopping : s.stopping = false

variable {job : Job ω τ ρ} {s₀ s s' : State ω τ ρ} {es : List (Event τ ρ)} {e : Event τ ρ}

/-! ### Moves -/

theorem exists_step_of_move {m : Move} (h : s.step? job m = some s') : ∃ e, Step job s e s' := by
  cases m with
  | worker i =>
    obtain ⟨w, hw, h⟩ := Option.bind_eq_some_iff.mp h
    -- what a worker does is known by where it stands
    cases w with
    | idle =>
      cases ht : s.tasks with
      | nil =>
        have hleave : Step job s .left { s with workers := s.workers.set i .gone } := .leave hw ht
        rw [State.workerStep?, ht] at h
        cases h
        rw [ht] at hleave
        exact ⟨_, hleave⟩
      | cons task rest =>
        rw [State.workerStep?, ht] at h
        cases h
        exact ⟨_, .take hw ht⟩
    | holding task =>
      cases hflag : s.cancelled with
      | false =>
        rw [State.workerStep?, if_neg (by simp [hflag])] at h
        cases h
        exact ⟨_, .begin hw hflag⟩
      | true =>
        rw [State.workerStep?, if_pos hflag] at h
        cases h
        exact ⟨_, .drop hw hflag⟩
    | working task =>
      cases h
      exact ⟨_, .work hw⟩
    | finished result =>
      cases h
      exact ⟨_, .send hw⟩
    | gone => cases h
  | sink =>
    rw [State.step?] at h
    split at h
    · rename_i hstop
      cases h
      exact ⟨_, .raise hstop⟩
    · rename_i hstop
      cases hr : s.results with
      | nil =>
        rw [hr] at h
        cases h
      | cons result rest =>
        rw [hr] at h
        cases h
        exact ⟨_, .sink (Bool.eq_false_iff.mpr hstop) hr⟩

theorem Step.exists_move (h : Step job s e s') : ∃ m, s.step? job m = some s' := by
  cases h with
  | @take i _ _ hw ht => exact ⟨.worker i, by simp [State.step?, State.workerStep?, hw, ht]⟩
  | @leave i hw ht => exact ⟨.worker i, by simp [State.step?, State.workerStep?, hw, ht]⟩
  | @begin i _ hw hflag => exact ⟨.worker i, by simp [State.step?, State.workerStep?, hw, hflag]⟩
  | @drop i _ hw hflag => exact ⟨.worker i, by simp [State.step?, State.workerStep?, hw, hflag]⟩
  | @work i _ hw => exact ⟨.worker i, by simp [State.step?, State.workerStep?, hw]⟩
  | @send i _ hw => exact ⟨.worker i, by simp [State.step?, State.workerStep?, hw]⟩
  | sink hstop hr => exact ⟨.sink, by simp [State.step?, hstop, hr]⟩
  | raise hstop => exact ⟨.sink, by simp [State.step?, hstop]⟩

theorem step?_eq_some : (∃ m, s.step? job m = some s') ↔ ∃ e, Step job s e s' :=
  ⟨fun ⟨_, h⟩ => exists_step_of_move h, fun ⟨_, h⟩ => h.exists_move⟩

theorem mem_moves {m : Move} : m ∈ s.moves job ↔ (s.step? job m).isSome = true := by
  rw [State.moves, List.mem_filter, and_iff_right_iff_imp]
  intro h
  cases m with
  | sink => exact List.mem_cons_self ..
  | worker i =>
    obtain ⟨s', hs'⟩ := Option.isSome_iff_exists.mp h
    obtain ⟨w, hw, _⟩ := Option.bind_eq_some_iff.mp hs'
    have hi : i < s.workers.length := (List.getElem?_eq_some_iff.mp hw).1
    exact List.mem_cons_of_mem _ (List.mem_map.mpr ⟨i, List.mem_range.mpr hi, rfl⟩)

/-! ### Progress -/

theorem isEnd_or_step (job : Job ω τ ρ) (s : State ω τ ρ) :
    s.IsEnd ∨ ∃ e s', Step job s e s' := by
  cases hstop : s.stopping with
  | true => exact .inr ⟨_, _, .raise hstop⟩
  | false =>
    cases hr : s.results with
    | cons result rest => exact .inr ⟨_, _, .sink hstop hr⟩
    | nil =>
      by_cases hgone : ∀ w ∈ s.workers, w = .gone
      · exact .inl ⟨hgone, hr, hstop⟩
      · push Not at hgone
        obtain ⟨w, hw, hne⟩ := hgone
        obtain ⟨i, hi⟩ := List.mem_iff_getElem?.mp hw
        refine .inr ?_
        cases w with
        | idle =>
          cases ht : s.tasks with
          | nil => exact ⟨_, _, .leave hi ht⟩
          | cons task rest => exact ⟨_, _, .take hi ht⟩
        | holding task =>
          cases hflag : s.cancelled with
          | false => exact ⟨_, _, .begin hi hflag⟩
          | true => exact ⟨_, _, .drop hi hflag⟩
        | working task => exact ⟨_, _, .work hi⟩
        | finished result => exact ⟨_, _, .send hi⟩
        | gone => exact absurd rfl hne

theorem State.IsEnd.not_step (h : s.IsEnd) : ¬Step job s e s' := by
  have hgone {i : Nat} {w : Worker τ ρ} (hw : s.workers[i]? = some w) : w = .gone :=
    h.workers w (List.mem_of_getElem? hw)
  intro hstep
  cases hstep with
  | take hw | leave hw | begin hw | drop hw | work hw | send hw => cases hgone hw
  | sink _ hr =>
    rw [h.results] at hr
    cases hr
  | raise hstop =>
    rw [h.stopping] at hstop
    cases hstop

/-! ### Runs come to an end -/

theorem totalWeight_set {w : Worker τ ρ} (w' : Worker τ ρ) :
    ∀ {l : List (Worker τ ρ)} {i : Nat}, l[i]? = some w →
      w.weight + totalWeight (l.set i w') = w'.weight + totalWeight l
  | [], _, h => by simp at h
  | v :: l, 0, h => by
    obtain rfl : v = w := by simpa using h
    simp only [List.set_cons_zero, totalWeight]
    omega
  | v :: l, i + 1, h => by
    have ih := totalWeight_set w' (l := l) (i := i) (by simpa using h)
    simp only [List.set_cons_succ, totalWeight]
    omega

theorem Step.weight_lt (h : Step job s e s') : s'.weight < s.weight := by
  -- every step brings a task, a worker or a result nearer to its end
  cases h with
  | @take _ task _ hw ht =>
    have := totalWeight_set (.holding task) hw
    simp only [State.weight, ht, List.length_cons, Worker.weight] at this ⊢
    omega
  | leave hw =>
    have := totalWeight_set .gone hw
    simp only [State.weight, Worker.weight] at this ⊢
    omega
  | @begin _ task hw =>
    have := totalWeight_set (.working task) hw
    simp only [State.weight, Worker.weight] at this ⊢
    omega
  | drop hw =>
    have := totalWeight_set .gone hw
    simp only [State.weight, Worker.weight] at this ⊢
    omega
  | @work _ task hw =>
    have := totalWeight_set (.finished (job.result s.world task)) hw
    simp only [State.weight, Worker.weight] at this ⊢
    omega
  | send hw =>
    have := totalWeight_set .idle hw
    simp only [State.weight, List.length_append, List.length_singleton, Worker.weight] at this ⊢
    omega
  | @sink result _ hstop hr =>
    have := Bool.toNat_le ((job.sink s.world result).2 && !s.cancelled)
    simp only [State.weight, hstop, hr, List.length_cons]
    omega
  | raise hstop =>
    simp only [State.weight, hstop, Bool.toNat_true, Bool.toNat_false]
    omega

theorem Trace.length_add_weight_le (h : Trace job s₀ es s) : es.length + s.weight ≤ s₀.weight := by
  induction h with
  | start => simp
  | step _ hstep ih =>
    have := hstep.weight_lt
    rw [List.length_append, List.length_singleton]
    omega

/-! ### Schedules -/

theorem State.IsEnd.goOn_eq (h : s.IsEnd) (schedule : Nat → Nat) :
    ∀ fuel, s.goOn job schedule fuel = s
  | 0 => rfl
  | fuel + 1 => by
    have hnone : s.moves job = [] := by
      refine List.eq_nil_iff_forall_not_mem.mpr fun m hm => ?_
      obtain ⟨s', hs'⟩ := Option.isSome_iff_exists.mp (mem_moves.mp hm)
      obtain ⟨e, he⟩ := exists_step_of_move hs'
      exact h.not_step he
    rw [State.goOn, hnone]
    rfl

/-- The move that the schedule chooses, if there is one. -/
theorem goOn_succ {schedule : Nat → Nat} {fuel : Nat} {m : Move}
    (hm : (s.moves job)[schedule fuel % (s.moves job).length]? = some m)
    (hs' : s.step? job m = some s') :
    s.goOn job schedule (fuel + 1) = s'.goOn job schedule fuel := by
  rw [State.goOn]
  simp only [hm, Option.bind_some, hs']

theorem exists_trace_goOn (schedule : Nat → Nat) : ∀ (fuel : Nat) {es : List (Event τ ρ)}
    {s : State ω τ ρ}, Trace job s₀ es s → s.weight ≤ fuel →
      ∃ es', Trace job s₀ es' (s.goOn job schedule fuel) ∧ (s.goOn job schedule fuel).IsEnd := by
  intro fuel
  induction fuel with
  | zero =>
    intro es s h hle
    rcases isEnd_or_step job s with hend | ⟨e, s', hstep⟩
    · exact ⟨es, h, hend⟩
    · have := hstep.weight_lt
      omega
  | succ fuel ih =>
    intro es s h hle
    rcases isEnd_or_step job s with hend | ⟨e, s', hstep⟩
    · rw [hend.goOn_eq]
      exact ⟨es, h, hend⟩
    · obtain ⟨m, hm⟩ := hstep.exists_move
      have hmem : m ∈ s.moves job := mem_moves.mpr (by rw [hm]; rfl)
      have hlt : schedule fuel % (s.moves job).length < (s.moves job).length :=
        Nat.mod_lt _ (List.length_pos_of_mem hmem)
      obtain ⟨next, hnext⟩ := Option.isSome_iff_exists.mp (mem_moves.mp (List.getElem_mem hlt))
      obtain ⟨e', hstep'⟩ := exists_step_of_move hnext
      have := hstep'.weight_lt
      rw [goOn_succ (List.getElem?_eq_getElem hlt) hnext]
      exact ih (h.step hstep') (by omega)

theorem exists_trace_run (n : Nat) (schedule : Nat → Nat) (job : Job ω τ ρ) (tasks : List τ)
    (world : ω) : ∃ es s, Trace job (.start (workers n tasks) tasks world) es s ∧ s.IsEnd ∧
      run n schedule job tasks world = (s.world, s.cancelled) := by
  obtain ⟨es, h, hend⟩ := exists_trace_goOn schedule _ Trace.start (Nat.le_refl _)
  exact ⟨es, _, h, hend, rfl⟩

theorem goOn_congr {schedule schedule' : Nat → Nat} : ∀ (fuel : Nat) {s : State ω τ ρ},
    (∀ k < fuel, schedule k = schedule' k) →
      s.goOn job schedule fuel = s.goOn job schedule' fuel
  | 0, _, _ => rfl
  | fuel + 1, s, h => by
    rw [State.goOn, State.goOn, h fuel (Nat.lt_succ_self _)]
    have ih (s' : State ω τ ρ) := goOn_congr fuel (s := s') fun k hk => h k (Nat.lt_succ_of_lt hk)
    simp only [ih]

theorem Trace.exists_goOn (h : Trace job s₀ es s) (schedule : Nat → Nat) (fuel : Nat) :
    ∃ schedule', s₀.goOn job schedule' (fuel + es.length) = s.goOn job schedule fuel := by
  induction h generalizing schedule fuel with
  | start => exact ⟨schedule, rfl⟩
  | @step es e s s' _ hstep ih =>
    obtain ⟨m, hm⟩ := hstep.exists_move
    obtain ⟨i, hi⟩ := List.mem_iff_getElem?.mp (mem_moves.mpr (by rw [hm]; rfl) : m ∈ s.moves job)
    have hlt : i < (s.moves job).length := (List.getElem?_eq_some_iff.mp hi).1
    let chosen : Nat → Nat := fun k => if k = fuel then i else schedule k
    have hchosen : (s.moves job)[chosen fuel % (s.moves job).length]? = some m := by
      rw [show chosen fuel = i from if_pos rfl, Nat.mod_eq_of_lt hlt, hi]
    have hgoOn : s.goOn job chosen (fuel + 1) = s'.goOn job schedule fuel := by
      rw [goOn_succ hchosen hm]
      exact goOn_congr fuel fun k hk => if_neg (Nat.ne_of_lt hk)
    obtain ⟨schedule', hschedule'⟩ := ih chosen (fuel + 1)
    refine ⟨schedule', ?_⟩
    rw [List.length_append, List.length_singleton, ← hgoOn, ← hschedule']
    congr 1
    omega

/-- However the workers and the sink take their turns, there is a schedule that says so. -/
theorem Trace.exists_schedule (h : Trace job s₀ es s) (hend : s.IsEnd) :
    ∃ schedule, s₀.goOn job schedule s₀.weight = s := by
  have hle := h.length_add_weight_le
  obtain ⟨schedule, hs⟩ := h.exists_goOn (fun _ => 0) (s₀.weight - es.length)
  refine ⟨schedule, ?_⟩
  rw [hend.goOn_eq, Nat.sub_add_cancel (by omega)] at hs
  exact hs

end ForcingData.Pool
