import ForcingData.FileTree.Disk

/-! # Work in steps

`Work ε α` is work on a file tree that others may change between two of its steps. Works that are
done together (`together`) take turns; the first that fails ends them all, and what is left of the
others is dropped. -/

namespace ForcingData

/-- What follows a step depends on the tree that it found. -/
inductive Work (ε α : Type)
  | done (result : Except ε α)
  | step (change : FileTree → FileTree) (next : FileTree → Work ε α)

namespace Work
variable {ε ε' α β : Type}

def fail (e : ε) : Work ε α := .done (.error e)

/-- A single step. -/
def once (x : Disk ε α) : Work ε α := .step (fun t => (x.on t).2) fun t => .done (x.on t).1

/-- A single step that only looks at the tree. -/
def look (f : FileTree → Except ε α) : Work ε α := .step id fun t => .done (f t)

protected def bind (f : α → Work ε β) : Work ε α → Work ε β
  | .done (.ok a) => f a
  | .done (.error e) => .done (.error e)
  | .step change next => .step change fun t => (next t).bind f

instance : Monad (Work ε) where
  pure a := .done (.ok a)
  bind w f := w.bind f

/-- The same work, and it does not matter if it fails. -/
def attempt : Work ε Unit → Work ε' Unit
  | .done _ => .done (.ok ())
  | .step change next => .step change fun t => (next t).attempt

/-- All that is left, step by step. -/
def run : Work ε α → Disk ε α
  | .done result => fun t => (result, t)
  | .step change next => fun t => (next t).run (change t)

/-- The next step. It fails if the work does. -/
def advance : Work ε α → Disk ε (Work ε α)
  | .done (.ok a) => pure (.done (.ok a))
  | .done (.error e) => throw e
  | .step change next => fun t =>
    match next t with
    | .done (.error e) => (.error e, change t)
    | w => (.ok w, change t)

/-- Several works, each of which has a turn wherever its place is among the turns. When these are
used up, what is left is done one after the other. -/
def together : List Nat → List (Work ε α) → Disk ε (List α)
  | [], works => works.mapM run
  | i :: turns, works => do
    match works[i]? with
    | none => together turns works
    | some w => together turns (works.set i (← w.advance))

end Work
end ForcingData
