import ForcingData.Outcome

/-! # Worker pools

A pool works on tasks in any order of events. Each worker takes the first task that is left, looks
at the flag, does the work, and sends the result; a sink takes the results one after the other and
may ask for a stop, which then raises the flag. After that no more work is begun. Work that is
aborted has the result that is made of its message. `State.step?` is one event, `run` a whole run in
which a schedule chooses among the events that are possible. -/

namespace ForcingData.Pool

/-- What is done with each task and each result. Work sees the world as the sink has left it. -/
structure Job (ω τ ρ : Type) where
  work : ω → τ → Outcome ρ
  recover : τ → String → ρ
  /-- The new world, and whether to stop. -/
  sink : ω → ρ → ω × Bool

def Job.result {ω τ ρ : Type} (job : Job ω τ ρ) (world : ω) (task : τ) : ρ :=
  (job.work world task).recover (job.recover task)

inductive Worker (τ ρ : Type)
  | idle
  /-- Has a task, and has not looked at the flag. -/
  | holding (task : τ)
  /-- Has found the flag down. -/
  | working (task : τ)
  | finished (result : ρ)
  | gone
deriving Repr

/-- How many moves are left for the worker and for the sink, with the task or result that it has. -/
def Worker.weight {τ ρ : Type} : Worker τ ρ → Nat
  | .idle => 1
  | .holding _ => 6
  | .working _ => 5
  | .finished _ => 4
  | .gone => 0

def totalWeight {τ ρ : Type} : List (Worker τ ρ) → Nat
  | [] => 0
  | w :: ws => w.weight + totalWeight ws

structure State (ω τ ρ : Type) where
  /-- The tasks that no worker has taken. -/
  tasks : List τ
  workers : List (Worker τ ρ)
  /-- The results that were sent, and that the sink has not taken. -/
  results : List ρ
  /-- The sink has asked for a stop, and the flag is not up yet. -/
  stopping : Bool
  /-- The flag. -/
  cancelled : Bool
  world : ω

/-- Whose turn it is. -/
inductive Move
  | worker (index : Nat)
  | sink
deriving DecidableEq, Repr

namespace State
variable {ω τ ρ : Type}

def start (n : Nat) (tasks : List τ) (world : ω) : State ω τ ρ :=
  ⟨tasks, List.replicate n .idle, [], false, false, world⟩

/-- What a worker does next; nothing once it is gone. -/
def workerStep? (job : Job ω τ ρ) (s : State ω τ ρ) (i : Nat) : Worker τ ρ → Option (State ω τ ρ)
  | .idle =>
    match s.tasks with
    | [] => some { s with workers := s.workers.set i .gone }
    | task :: rest => some { s with tasks := rest, workers := s.workers.set i (.holding task) }
  | .holding task =>
    some { s with workers := s.workers.set i (if s.cancelled then .gone else .working task) }
  | .working task =>
    some { s with workers := s.workers.set i (.finished (job.result s.world task)) }
  | .finished result =>
    some { s with workers := s.workers.set i .idle, results := s.results ++ [result] }
  | .gone => none

def step? (job : Job ω τ ρ) (s : State ω τ ρ) : Move → Option (State ω τ ρ)
  | .worker i => s.workers[i]?.bind (s.workerStep? job i)
  | .sink =>
    if s.stopping then some { s with stopping := false, cancelled := true }
    else
      match s.results with
      | [] => none
      | result :: rest =>
        let (world, stop) := job.sink s.world result
        some { s with results := rest, world, stopping := stop && !s.cancelled }

/-- The moves that are possible. -/
def moves (job : Job ω τ ρ) (s : State ω τ ρ) : List Move :=
  (.sink :: (List.range s.workers.length).map Move.worker).filter fun m => (s.step? job m).isSome

/-- Every move makes this smaller. -/
def weight (s : State ω τ ρ) : Nat :=
  6 * s.tasks.length + totalWeight s.workers + 2 * s.results.length + s.stopping.toNat

/-- Goes on for a number of moves, or until none is possible. -/
def goOn (job : Job ω τ ρ) (schedule : Nat → Nat) : Nat → State ω τ ρ → State ω τ ρ
  | 0, s => s
  | fuel + 1, s =>
    let moves := s.moves job
    match moves[schedule fuel % moves.length]?.bind (s.step? job) with
    | some next => goOn job schedule fuel next
    | none => s

end State

section Run
variable {ω τ ρ : Type}

/-- At least one worker, and no more than there are tasks. -/
def workers (n : Nat) (tasks : List τ) : Nat := min (max n 1) (max tasks.length 1)

/-- Runs to the end. The outcome is the world, and whether the run was stopped. -/
def run (n : Nat) (schedule : Nat → Nat) (job : Job ω τ ρ) (tasks : List τ) (world : ω) :
    ω × Bool :=
  let s : State ω τ ρ := .start (workers n tasks) tasks world
  let last := s.goOn job schedule s.weight
  (last.world, last.cancelled)

/-- All results in the order they came, up to those that come after a stop. -/
def collect (n : Nat) (schedule : Nat → Nat) (work : τ → Outcome ρ) (recover : τ → String → ρ)
    (stop : ρ → Bool) (tasks : List τ) : List ρ × Bool :=
  let job : Job (List ρ) τ ρ :=
    ⟨fun _ => work, recover, fun results r => (results ++ [r], stop r)⟩
  run n schedule job tasks []

end Run
end ForcingData.Pool
