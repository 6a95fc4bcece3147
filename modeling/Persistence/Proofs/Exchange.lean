import Persistence.Proofs.Blocks
import Persistence.Proofs.Loading
import Persistence.Proofs.Settled

/-!
What instances exchange with their rows: the rows that are loaded for them, the columns that inserts
and updates bind for them, and the identifiers that the database has generated. An account lists it
for a whole run. What a failed operation has exchanged is not in it, nor is what was exchanged in a
block that has failed.
-/

namespace Persistence

open Schema (Metadata Snapshot Field)
open UnitOfWork (RowChange changedRows)

/-- What one instance exchanges with its row. -/
inductive Exchange
  /-- A row was loaded onto a blank instance, and from there onto the instance. -/
  | loaded (row : Row) (blank into : Instance)
  /-- A row was inserted with the bound columns, and the instance got the generated identifier. -/
  | inserted (bound : List (String × Value)) (id : Option String) (into : Instance)
  | updated (bound : List (String × Value))
deriving DecidableEq

namespace Exchange

/-- The value that is read from the column of a field or written to it: the coerced one of a loaded
row, the bound one, or the coerced identifier. -/
def value? (f : Field) : Exchange → Option Value
  | loaded row _ _ => (row.get? f.column).bind fun v => (f.type.coerce v).toOption
  | inserted bound id _ => (lookupEntry f.column bound).or
      (id.bind fun id => (f.type.coerce (.text id)).toOption)
  | updated bound => lookupEntry f.column bound

/-- The value that a field has from an exchange. It is as the slot of the field keeps it; a column
that a loaded row does not have, and a null for a field that is not nullable, leave the field as it
is on a blank instance. -/
def kept? (f : Field) : Exchange → Option Value
  | loaded row blank into => some (into.hold f.accessor.slot (f.given row blank))
  | inserted bound id into => (lookupEntry f.column bound).or
      (id.bind fun id => (f.type.coerce (.text id)).toOption.map (into.hold f.accessor.slot))
  | updated bound => lookupEntry f.column bound

/-- An insert has bound the declared default of a field in place of the null that the instance
holds. -/
def Substitutes (f : Field) : Exchange → Prop
  | inserted bound _ into => into.read f.accessor.slot = .null ∧
    ∃ v, v ≠ .null ∧ f.default = some v ∧ lookupEntry f.column bound = some v
  | loaded .. | updated _ => False

/-- A loaded row has a value for the field, which stands in a slot for values of its type. -/
def Plain (f : Field) : Exchange → Prop
  | loaded row blank into =>
    (f.supplied row).isSome ∧ blank.Suits f ∧ into.Suits f
  | inserted _ _ into => into.Suits f
  | updated _ => True

/-- An exchange, if it is about a field. -/
def about? (f : Field) (x : Exchange) : Option Exchange :=
  if (x.kept? f).isSome then some x else none

end Exchange

/-- The last of what an instance has exchanged that is of a kind. -/
def latest {α : Type} (kind : Exchange → Option α) (oid : Oid) (account : List (Oid × Exchange)) :
    Option α :=
  account.reverse.findSome? fun e => if e.1 = oid then kind e.2 else none

theorem latest_append {α : Type} (kind : Exchange → Option α) (oid : Oid)
    (xs ys : List (Oid × Exchange)) :
    latest kind oid (xs ++ ys) = (latest kind oid ys).or (latest kind oid xs) := by
  simp [latest, List.reverse_append, List.findSome?_append]

section Flush

variable {σ : Type} [Connection σ]

def Environment.toldFor (m : Metadata) (bound : List (String × Value)) :
    Action (Environment σ) String := do
  let _ ← onSession (Session.execute (.insert m.fullTableName bound))
  onSession Session.lastInsertId

def UnitOfWork.exchange? (w : UnitOfWork) (env : Environment σ) :
    RowChange → Option (Oid × Exchange)
  | .insert oid => do
    let t ← w.tracked.get? oid
    let values ← (env.heap.values t.metadata oid).toOption
    let bound := t.metadata.insertValues values
    let id := if t.metadata.generatesIdentity then
      ((Environment.toldFor t.metadata bound).run env).1.toOption else none
    return (oid, .inserted bound id (env.heap.content oid))
  | .update u => do
    let t ← w.tracked.get? u.oid
    return (u.oid, .updated (t.metadata.assignments u.changes))
  | .delete _ => none

def UnitOfWork.exchanges (w : UnitOfWork) : List RowChange → Environment σ → List (Oid × Exchange)
  | [], _ => []
  | r :: rest, env => (w.exchange? env r).toList ++ w.exchanges rest ((w.send r).run env).2

def UnitOfWork.committed (w : UnitOfWork) (env : Environment σ) : List (Oid × Exchange) :=
  match w.changeSet env.heap, (Environment.onSession Session.begin).run env with
  | .ok c, (.ok _, inner) => w.exchanges (changedRows c) inner
  | _, _ => []

end Flush

namespace Manager

variable {σ α : Type} [Connection σ]

def rowUnder (m : Metadata) (key : IdentityKey) : ManagerM σ (Option Row) := do
  match (← get).work.find? key with
  | some _ => return none
  | none => loadRow m key

def rowOf (type : EntityType) (id : Identifier) : ManagerM σ (Option Row) := do
  let m ← metadata type
  let key ← IdentityKey.ofIdentifier m id
  rowUnder m key

def rowAgain (oid : Oid) : ManagerM σ (Option Row) := do
  let m ← metadata ((← get).heap.typeOf oid)
  let x ← (← get).heap.toRead oid
  let ids ← m.identifierValues x
  let key ← IdentityKey.ofSnapshot m ids
  loadRow m key

def Operation.exchanges (m : Manager σ) : Operation → List (Oid × Exchange)
  | find type id =>
    match ((Manager.find type id).run m).1, ((rowOf type id).run m).1 with
    | .ok (some oid), .ok (some row) =>
      [(oid, .loaded row (m.heap.fresh type) (m.heap.fresh type))]
    | _, _ => []
  | refresh oid =>
    match ((Manager.refresh oid).run m).1, ((rowAgain oid).run m).1 with
    | .ok _, .ok (some row) =>
      [(oid, .loaded row (m.heap.fresh (m.heap.typeOf oid)) (m.heap.content oid))]
    | _, _ => []
  | flush =>
    match (Manager.flush.run m).1 with
    | .ok _ => m.work.committed m.toEnvironment
    | .error _ => []
  | edit _ | persist _ | remove _ | detach _ | clear | describe _ | query .. | createQuery _
  | clearMetadata | clearQueries => []

def exchangesWithin (block : ManagerM σ α) (exchanges : Manager σ → List (Oid × Exchange))
    (m : Manager σ) : List (Oid × Exchange) :=
  match (onSession Session.begin).run m with
  | (.ok _, started) => exchanges started ++ match block.run started with
    | (.ok _, last) => Operation.flush.exchanges last
    | (.error _, _) => []
  | (.error _, _) => []

def Block.exchanges (failed : Bool) {α : Type} : Block σ α → Manager σ → List (Oid × Exchange)
  | .done _, _ => []
  | .operation op next, m =>
    op.exchanges m ++ (next (op.ask.run m).1 (op.ask.run m).2).exchanges failed (op.ask.run m).2
  | .transactional inner next, m =>
    let ended := (Manager.transactional inner.run).run m
    (if ended.1.isOk || failed then exchangesWithin inner.run (inner.exchanges failed) m else []) ++
      (next ended.1 ended.2).exchanges failed ended.2

/-- What was exchanged on the way to a state. -/
inductive Account (failed : Bool) : List (Oid × Exchange) → Manager σ → Prop
  | built {o : Options} {heap : Heap} {connection : σ} {m : Manager σ} :
      build o heap connection = .ok m → Account failed [] m
  | run {account : List (Oid × Exchange)} {m : Manager σ} {α : Type} (b : Block σ α) :
      Account failed account m → Account failed (account ++ b.exchanges failed m) (b.run.run m).2
  | entered {account : List (Oid × Exchange)} {m inner : Manager σ} :
      Account failed account m → Begins m inner → Account failed account inner

end Manager
end Persistence
