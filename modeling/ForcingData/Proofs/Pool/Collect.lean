import ForcingData.Proofs.Pool.Delivery

/-! # What a pool collects

Where the work does not look at the world, the results that are collected are those of some of the
tasks, each task being counted once, and of all of them if the run is not stopped:
`exists_collect_eq`. -/

namespace ForcingData.Pool
variable {τ ρ : Type} {n : Nat} {schedule : Nat → Nat} {work : τ → Outcome ρ}
  {recover : τ → String → ρ} {stop : ρ → Bool} {tasks : List τ}

/-- What the sink collects, and when it asks for a stop. -/
def collecting (work : τ → Outcome ρ) (recover : τ → String → ρ) (stop : ρ → Bool) :
    Job (List ρ) τ ρ :=
  ⟨fun _ => work, recover, fun results r => (results ++ [r], stop r)⟩

theorem worldAfter_collecting (seen rs : List ρ) :
    (collecting work recover stop).worldAfter seen rs = seen ++ rs := by
  induction rs generalizing seen with
  | nil => exact (List.append_nil seen).symm
  | cons r rs ih =>
    show (collecting work recover stop).worldAfter (seen ++ [r]) rs = _
    rw [ih, List.append_assoc]
    rfl

theorem Trace.sunk_collecting {s₀ s : State (List ρ) τ ρ} {es : List (Event τ ρ)}
    (h : Trace (collecting work recover stop) s₀ es s) {r : ρ} {b : Bool}
    (hmem : .sunk r b ∈ es) : b = stop r := by
  induction h with
  | start => cases hmem
  | step _ hstep ih =>
    rcases List.mem_append.mp hmem with hmem | hmem
    · exact ih hmem
    · obtain rfl := List.mem_singleton.mp hmem
      cases hstep
      rfl

theorem mem_sunk {es : List (Event τ ρ)} {r : ρ} : r ∈ sunk es ↔ ∃ b, .sunk r b ∈ es := by
  rw [sunk, List.mem_filterMap]
  constructor
  · rintro ⟨e, he, hr⟩
    cases e with
    | sunk r' b => exact ⟨b, Option.some.inj hr ▸ he⟩
    | _ => cases hr
  · rintro ⟨b, hb⟩
    exact ⟨_, hb, rfl⟩

theorem exists_collect_eq (n : Nat) (schedule : Nat → Nat) (work : τ → Outcome ρ)
    (recover : τ → String → ρ) (stop : ρ → Bool) (tasks : List τ) :
    ∃ (xs : List τ) (stopped : Bool),
      collect n schedule work recover stop tasks =
        (xs.map fun x => (work x).recover (recover x), stopped) ∧
      xs.Subperm tasks ∧ (stopped = false → xs.Perm tasks) ∧
      (stopped = true ↔ ∃ x ∈ xs, stop ((work x).recover (recover x)) = true) := by
  obtain ⟨es, s, h, hend, hrun⟩ :=
    exists_trace_run n schedule (collecting work recover stop) tasks []
  obtain ⟨calls, hcalls, _⟩ := h.exists_calls hend
  have hresult : ∀ x r, (x, r) ∈ calls → r = (work x).recover (recover x) := fun x r hmem =>
    have ⟨_, _, hr⟩ := hcalls.outcome x r hmem
    Outcome.eq_recover.mpr hr
  have hsunk : sunk es = (calls.map (·.1)).map fun x => (work x).recover (recover x) := by
    rw [← hcalls.sunk, List.map_map]
    exact List.map_congr_left fun call hmem => hresult call.1 call.2 hmem
  refine ⟨calls.map (·.1), s.cancelled, ?_, hcalls.once, fun hdown => ?_, ?_⟩
  · show run n schedule (collecting work recover stop) tasks [] = _
    rw [hrun, h.world_eq, worldAfter_collecting, List.nil_append, hsunk]
  · exact hcalls.begun.trans (h.begun_perm hend (workers_pos n tasks) hdown)
  · -- at the end no stop is pending, so that the flag is up for a stop that was asked for
    have hasked : s.cancelled = true ↔ ∃ r, .sunk r true ∈ es := by
      rw [h.flag.asked, hend.stopping]
      simp
    rw [hasked]
    constructor
    · rintro ⟨r, hr⟩
      have hmem := mem_sunk.mpr ⟨true, hr⟩
      rw [hsunk] at hmem
      obtain ⟨x, hx, rfl⟩ := List.mem_map.mp hmem
      exact ⟨x, hx, (h.sunk_collecting hr).symm⟩
    · rintro ⟨x, hx, hstop⟩
      have hmem : (work x).recover (recover x) ∈ sunk es := hsunk ▸ List.mem_map_of_mem hx
      obtain ⟨b, hb⟩ := mem_sunk.mp hmem
      exact ⟨_, hstop ▸ h.sunk_collecting hb ▸ hb⟩

theorem mem_collect {r : ρ} (h : r ∈ (collect n schedule work recover stop tasks).1) :
    ∃ t ∈ tasks, r = (work t).recover (recover t) := by
  obtain ⟨xs, stopped, heq, hsub, _⟩ := exists_collect_eq n schedule work recover stop tasks
  rw [heq] at h
  obtain ⟨x, hx, rfl⟩ := List.mem_map.mp h
  exact ⟨x, hsub.subset hx, rfl⟩

/-- Where no result asks for a stop, all results are collected. -/
theorem collect_perm
    (h : ∀ x ∈ tasks, stop ((work x).recover (recover x)) = false) :
    (collect n schedule work recover stop tasks).1.Perm
      (tasks.map fun x => (work x).recover (recover x)) := by
  obtain ⟨xs, stopped, heq, hsub, hall, hstop⟩ :=
    exists_collect_eq n schedule work recover stop tasks
  have hdown : stopped = false := by
    refine Bool.eq_false_iff.mpr fun hup => ?_
    obtain ⟨x, hx, htrue⟩ := hstop.mp hup
    rw [h x (hsub.subset hx)] at htrue
    cases htrue
  rw [heq]
  exact (hall hdown).map _

theorem exists_mem_collect {x : τ} (hx : x ∈ tasks)
    (h : stop ((work x).recover (recover x)) = true) :
    ∃ r ∈ (collect n schedule work recover stop tasks).1, stop r = true := by
  obtain ⟨xs, stopped, heq, _, hall, hstop⟩ :=
    exists_collect_eq n schedule work recover stop tasks
  have hup : stopped = true := by
    refine Bool.of_not_eq_false fun hdown => ?_
    have hup := hstop.mpr ⟨x, (hall hdown).mem_iff.mpr hx, h⟩
    rw [hdown] at hup
    cases hup
  obtain ⟨y, hy, hy'⟩ := hstop.mp hup
  rw [heq]
  exact ⟨_, List.mem_map_of_mem hy, hy'⟩

end ForcingData.Pool
