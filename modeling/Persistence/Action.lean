import Persistence.Error

/-!
Actions: work on a state that can fail. A failure keeps the state as it was left, so what had been
done before it stays done.
-/

namespace Persistence

abbrev Action (State α : Type) := ExceptT Error (StateM State) α

namespace Action

variable {S T α : Type}

/-- The outcome of an action as a value; a failure is not raised. -/
def attempt (a : Action S α) : Action S (Except Error α) := fun s =>
  let (outcome, s) := a.run s
  (.ok outcome, s)

def explain (p : Problem) (a : Action S α) : Action S α := fun s =>
  let (outcome, s) := a.run s
  (outcome.mapError fun e => e.context p, s)

/-- Works on a part of the state, given by how it is read and how it is put back. -/
def onPart (read : S → T) (write : S → T → S) (a : Action T α) : Action S α := fun s =>
  let (outcome, t) := a.run (read s)
  (outcome, write s t)

end Action
end Persistence
