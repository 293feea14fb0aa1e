/-! # Outcomes

Work on one file may abort: it then has no value, only a message. Nothing else is affected; whoever
started the work decides what to make of the message. -/

namespace ForcingData

inductive Outcome (α : Type) where
  | done (value : α)
  | aborted (message : String)
deriving DecidableEq, Repr, Inhabited

namespace Outcome
variable {α β : Type}

def bind (x : Outcome α) (f : α → Outcome β) : Outcome β :=
  match x with
  | done a => f a
  | aborted message => aborted message

instance : Monad Outcome where
  pure := done
  bind := bind

/-- The value, or what is made of the message. -/
def recover (x : Outcome α) (f : String → α) : α :=
  match x with
  | done a => a
  | aborted message => f message

end Outcome
end ForcingData
