import Persistence.Proofs.Runs

/-!
Transactional blocks. A block is a tree: an operation or a transaction inside of it, and for each
answer and state that it may lead to, what the block does next. An error is an answer like any
other, so a block may go on after it.
-/

namespace Persistence.Manager

open Schema (Metadata)

variable {σ α : Type}

def Operation.Answer : Operation → Type
  | find .. => Option Oid
  | describe _ => Metadata
  | query .. => List Row
  | createQuery _ => BoundQuery
  | edit _ | persist _ | remove _ | refresh _ | detach _ | clear | flush | clearMetadata
  | clearQueries => Unit

section

variable [Connection σ]

def Operation.ask : (op : Operation) → ManagerM σ op.Answer
  | edit heap => changeHeap fun _ => heap
  | find type id => Manager.find type id
  | persist oid => Manager.persist oid
  | remove oid => Manager.remove oid
  | refresh oid => Manager.refresh oid
  | detach oid => Manager.detach oid
  | clear => Manager.clear
  | flush => Manager.flush
  | describe type => metadata type
  | query sql parameters => onSession (Session.query sql parameters)
  | createQuery source => Manager.createQuery source
  | clearMetadata => Manager.clearMetadata
  | clearQueries => Manager.clearQueries

theorem Operation.run_eq (op : Operation) : (op.run : ManagerM σ Unit) = discard op.ask := by
  cases op with
  | find | describe | query | createQuery => rfl
  | edit | persist | remove | refresh | detach | clear | flush | clearMetadata | clearQueries =>
    exact (id_map _).symm

/-- A block of operations and transactions that answers an `α`. What it does next depends on what
it was answered and on the state. -/
inductive Block (σ : Type) : Type → Type 1
  | done {α : Type} (outcome : Except Error α) : Block σ α
  | operation {α : Type} (op : Operation)
      (next : Except Error op.Answer → Manager σ → Block σ α) : Block σ α
  | transactional {α β : Type} (inner : Block σ β)
      (next : Except Error β → Manager σ → Block σ α) : Block σ α

namespace Block

def run : {α : Type} → Block σ α → ManagerM σ α
  | _, done outcome => liftM outcome
  | _, operation op next => do
    let outcome ← op.ask.attempt
    (next outcome (← get)).run
  | _, transactional inner next => do
    let outcome ← (Manager.transactional inner.run).attempt
    (next outcome (← get)).run

theorem run_operation (op : Operation) (next : Except Error op.Answer → Manager σ → Block σ α)
    (m : Manager σ) : (operation op next).run.run m =
      (next (op.ask.run m).1 (op.ask.run m).2).run.run (op.ask.run m).2 := rfl

theorem run_transactional {β : Type} (inner : Block σ β)
    (next : Except Error β → Manager σ → Block σ α) (m : Manager σ) :
    (transactional inner next).run.run m =
      (next ((Manager.transactional inner.run).run m).1
        ((Manager.transactional inner.run).run m).2).run.run
        ((Manager.transactional inner.run).run m).2 := rfl

end Block

def rolledBack (m : Manager σ) : Manager σ := ((onSession Session.rollback).run m).2

inductive Ending (m : Manager σ) (block : ManagerM σ α) : Except Error α → Manager σ → Prop
  | refused {e : Error} {t : Manager σ} :
      (onSession Session.begin).run m = (.error e, t) → Ending m block (.error e) t
  | failed {started last : Manager σ} {e : Error} : Begins m started →
      block.run started = (.error e, last) →
      Ending m block (.error e) { rolledBack last with work := m.work }
  | unflushed {started last flushed : Manager σ} {x : α} {e : Error} : Begins m started →
      block.run started = (.ok x, last) → flush.run last = (.error e, flushed) →
      Ending m block (.error e) { rolledBack flushed with work := m.work }
  | uncommitted {started last flushed t : Manager σ} {x : α} {e : Error} : Begins m started →
      block.run started = (.ok x, last) → flush.run last = (.ok ⟨⟩, flushed) →
      (onSession Session.commit).run flushed = (.error e, t) →
      Ending m block (.error e) { t with work := m.work }
  | committed {started last flushed t : Manager σ} {x : α} : Begins m started →
      block.run started = (.ok x, last) → flush.run last = (.ok ⟨⟩, flushed) →
      (onSession Session.commit).run flushed = (.ok ⟨⟩, t) → Ending m block (.ok x) t

theorem ending (block : ManagerM σ α) (m : Manager σ) :
    Ending m block ((transactional block).run m).1 ((transactional block).run m).2 := by
  suffices h : (transactional block).Post (fun x t => Ending m block (.ok x) t)
      (fun e t => Ending m block (.error e) t) m by
    match hrun : (transactional block).run m with
    | (.ok x, t) => exact h.of_run_ok hrun
    | (.error e, t) => exact h.of_run_error hrun
  -- the answer of the rollback is of no account
  have undone {e : Error} {last : Manager σ}
      (h : Ending m block (.error e) { rolledBack last with work := m.work }) :
      (onSession Session.rollback).Post
        (fun _ (t : Manager σ) => Ending m block (.error e) { t with work := m.work })
        (fun _ t => Ending m block (.error e) { t with work := m.work }) last := by
    rw [Action.post_iff_run (P := fun t : Manager σ => Ending m block _ { t with work := m.work })]
    exact h
  simp only [transactional, updateWork, Action.post_bind, Action.post_get]
  rw [Action.post_iff]
  refine ⟨fun _ started hstarted => ?_, fun e t ht => .refused ht⟩
  simp only [Action.post_attempt, Action.post_bind, Action.post_pure, Action.post_discard,
    Action.post_modify, Action.post_throw]
  rw [Action.post_iff]
  refine ⟨fun x last hlast => ?_, fun e last hlast => undone (.failed hstarted hlast)⟩
  rw [Action.post_iff]
  refine ⟨fun _ flushed hflushed => ?_, fun e flushed hflushed =>
    undone (.unflushed hstarted hlast hflushed)⟩
  rw [Action.post_iff]
  exact ⟨fun _ t ht => .committed hstarted hlast hflushed ht,
    fun e t ht => .uncommitted hstarted hlast hflushed ht⟩

end

end Persistence.Manager
