import Persistence.Action
import Persistence.Row
import Persistence.Sql.Rendering

/-!
Sessions: a connection with a log of statements and nested transactions.

Transactions nest, but only the outermost begin, commit and rollback reach the connection. A nested
rollback cannot undo its part alone, so it dooms the whole transaction: the outermost commit then
rolls back instead.
-/

namespace Persistence

/-- What a connection to a database offers. `σ` is its state, which its answers may depend on. -/
class Connection (σ : Type) where
  query : String → List Value → Action σ (List Row)
  /-- Answers the number of rows that were changed. -/
  update : String → List Value → Action σ Nat
  /-- The identifier that the last insert generated, as text. -/
  lastInsertId : Action σ String
  begin : Action σ Unit
  commit : Action σ Unit
  rollback : Action σ Unit

structure Session (σ : Type) where
  connection : σ
  /-- The statements sent so far with their parameters, if they are logged. -/
  log : Option (List (String × List Value)) := none
  /-- How many transactions are open, one inside the other. -/
  depth : Nat := 0
  /-- A nested transaction was rolled back. -/
  rollbackOnly : Bool := false

abbrev SessionM (σ α : Type) := Action (Session σ) α

namespace Session

variable {σ α : Type}

def onConnection (a : Action σ α) : SessionM σ α :=
  Action.onPart Session.connection (fun s c => { s with connection := c }) a

def record (sql : String) (parameters : List Value) (s : Session σ) : Session σ :=
  { s with log := s.log.map fun entries => entries ++ [(sql, parameters)] }

variable [Connection σ]

/-- Reads rows. The statement is logged whether it succeeds or not. -/
def query (sql : String) (parameters : List Value) : SessionM σ (List Row) := fun s =>
  let (rows, s) := (onConnection (Connection.query sql parameters)).run s
  (rows, s.record sql parameters)

def update (sql : String) (parameters : List Value) : SessionM σ Nat := fun s =>
  let (count, s) := (onConnection (Connection.update sql parameters)).run s
  (count, s.record sql parameters)

def select (q : Sql.Select) : SessionM σ (List Row) :=
  query (Sql.Statement.select q).sql (Sql.Statement.select q).parameters

def execute (s : Sql.Statement) : SessionM σ Nat := update s.sql s.parameters

def lastInsertId : SessionM σ String := onConnection Connection.lastInsertId

def begin : SessionM σ Unit := do
  if (← get).depth = 0 then
    (onConnection Connection.begin).explain (.transaction .beginFailed)
  modify fun s => { s with depth := s.depth + 1 }

/-- A rollback on the way out of a failure: its own failure is not told. -/
def rollbackQuietly : SessionM σ Unit := discard (onConnection Connection.rollback).attempt

/-- Commits the innermost transaction. A failed outermost commit is followed by a rollback. -/
def commit : SessionM σ Unit := do
  let s ← get
  match s.depth with
  | 0 => throw (.transaction .commitOutside)
  | 1 =>
    set { s with depth := 0, rollbackOnly := false }
    if s.rollbackOnly then
      rollbackQuietly
      throw (.transaction .rollbackOnly)
    match ← (onConnection Connection.commit).attempt with
    | .ok () => return
    | .error e =>
      rollbackQuietly
      throw (e.context (.transaction .commitFailed))
  | n + 2 => set { s with depth := n + 1 }

def rollback : SessionM σ Unit := do
  let s ← get
  match s.depth with
  | 0 => throw (.transaction .rollbackOutside)
  | 1 =>
    set { s with depth := 0, rollbackOnly := false }
    (onConnection Connection.rollback).explain (.transaction .rollbackFailed)
  | n + 2 => set { s with depth := n + 1, rollbackOnly := true }

end Session
end Persistence
