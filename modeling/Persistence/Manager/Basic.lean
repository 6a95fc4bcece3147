import Persistence.ObjectQuery.Cache
import Persistence.ObjectQuery.Compilation
import Persistence.Schema.Diagnosis
import Persistence.UnitOfWork.Flush

/-!
Managers: loading, tracking and writing entities through one connection.

A manager has one unit of work. What it loads by identifier is tracked there, and later changes of
those instances are written by a flush. Instances belong to the heap, which managers that share
instances hand on to each other.
-/

namespace Persistence

open Schema (Metadata Registry Mapping)

structure Manager (σ : Type) extends Environment σ where
  registry : Registry
  cache : ObjectQuery.Cache
  work : UnitOfWork

abbrev ManagerM (σ α : Type) := Action (Manager σ) α

namespace Manager

variable {σ α : Type}

def inEnvironment (a : Action (Environment σ) α) : ManagerM σ α :=
  Action.onPart Manager.toEnvironment (fun m e => { m with toEnvironment := e }) a

def onSession (a : SessionM σ α) : ManagerM σ α := inEnvironment (Environment.onSession a)

def onRegistry (a : Schema.RegistryM α) : ManagerM σ α :=
  Action.onPart Manager.registry (fun m r => { m with registry := r }) a

def updateWork (f : UnitOfWork → UnitOfWork) : ManagerM σ Unit :=
  modify fun m => { m with work := f m.work }

def changeHeap (f : Heap → Heap) : ManagerM σ Unit := modify fun m => { m with heap := f m.heap }

def allocate (x : Instance) : ManagerM σ Oid := do
  let m ← get
  let (oid, heap) := m.heap.allocate x
  set { m with heap := heap }
  return oid

def metadata (type : EntityType) : ManagerM σ Metadata := do
  if (← get).registry.isRegistered type.className then
    onRegistry (Registry.describe type.className)
  else throw (.validation (.unregisteredClass type.className))

def ofType (type : EntityType) (oid : Oid) : ManagerM σ Oid := do
  let found := (← get).heap.typeOf oid
  if found = type then return oid
  else throw (.mapping (.notAnInstance found.className oid type.className))

structure Registration where
  type : EntityType
  mapping : Mapping

structure Options where
  registrations : List Registration := []
  /-- Whether built metadata is kept. -/
  keepMetadata : Bool := true
  cache : ObjectQuery.Cache := .empty
  /-- Whether statements are logged. -/
  logged : Bool := false

/-- Registers types in order; `earlier` are those before. A class name stands for one type, and
only the first registration of a type counts. -/
def registerAll (earlier : List EntityType) (r : Registry) :
    List Registration → Except Error Registry
  | [] => .ok r
  | x :: rest =>
    match earlier.find? fun t => t.className = x.type.className with
    | some t =>
      if t = x.type then registerAll earlier r rest
      else .error (.mapping (.ambiguousClass x.type.className))
    | none => registerAll (earlier ++ [x.type]) (r.register x.type.className x.mapping) rest

/-- A manager over a connection, with nothing tracked. -/
def build (o : Options) (heap : Heap) (connection : σ) : Except Error (Manager σ) := do
  let registry ← registerAll [] (Registry.empty.setMemoizing o.keepMetadata) o.registrations
  return {
    heap := heap
    session := { connection := connection, log := if o.logged then some [] else none }
    registry := registry
    cache := o.cache
    work := .empty }

def contains (m : Manager σ) (oid : Oid) : Bool := m.work.contains oid

def state (m : Manager σ) (oid : Oid) : Lifecycle := m.work.state oid

def create (type : EntityType) : ManagerM σ Oid := do
  allocate ((← get).heap.fresh type)

/-- Schedules an instance for insert, or keeps one that waits to be deleted. -/
def persist (oid : Oid) : ManagerM σ Unit := do
  let m ← metadata ((← get).heap.typeOf oid)
  m.requireIdentifiers
  updateWork fun w => w.persist oid m

/-- Schedules an instance for delete, or forgets one that waits to be inserted. -/
def remove (oid : Oid) : ManagerM σ Unit := do
  discard <| metadata ((← get).heap.typeOf oid)
  let work ← (← get).work.remove oid
  updateWork fun _ => work

def detach (oid : Oid) : ManagerM σ Unit := updateWork fun w => w.detach oid

def clear : ManagerM σ Unit := updateWork UnitOfWork.clear

def diagnose : ManagerM σ (List (String × List Schema.Finding)) :=
  onRegistry (fun r => let (all, r) := Registry.diagnoseAll.run r; (.ok all, r))

def clearMetadata : ManagerM σ Unit :=
  modify fun m => { m with registry := m.registry.invalidateAll }

def clearQueries : ManagerM σ Unit := modify fun m => { m with cache := m.cache.clear }

variable [Connection σ]

/-- The first row that the identifier columns of a key select, with all mapped columns. -/
def loadRow (m : Metadata) (key : IdentityKey) : ManagerM σ (Option Row) := do
  let rows ← onSession (Session.select
    { table := m.fullTableName, projection := .columns m.columns, filter := key.conditions m })
  return rows.head?

/-- The instance of an identifier: the tracked one if there is one, else a new one with the values
of its row, which is tracked from then on. -/
def find (type : EntityType) (id : Identifier) : ManagerM σ (Option Oid) := do
  let m ← metadata type
  let key ← IdentityKey.ofIdentifier m id
  match (← get).work.find? key with
  | some oid => some <$> ofType type oid
  | none =>
    match ← loadRow m key with
    | none => return none
    | some row =>
      let (outcome, x) := (m.hydrate row).run ((← get).heap.fresh type)
      let oid ← allocate x
      outcome
      let snapshot ← m.extract x
      updateWork fun w => w.track oid m key snapshot
      return some oid

/-- Copies the mapped fields of one instance onto another. -/
def copyFields (source : Instance) (fields : List Schema.Field) : Schema.Change :=
  fields.forM fun f => do
    let v ← f.accessor.get source
    let x ← f.accessor.set (← get) v
    set x

/-- Reads an instance anew from its row and tracks it as managed. If the row is gone the instance
is no longer tracked; any other failure leaves tracking as it was. -/
def refresh (oid : Oid) : ManagerM σ Unit := do
  let type := (← get).heap.typeOf oid
  let m ← metadata type
  let x ← (← get).heap.toRead oid
  let ids ← m.identifierValues x
  let key ← match IdentityKey.ofSnapshot m ids with
    | .ok key => pure key
    | .error e => throw (e.context (.state (.cannotRefresh type.className)))
  match ← loadRow m key with
  | none =>
    detach oid
    throw ⟨.entityNotFound type.className key.identifier, []⟩
  | some row =>
    let (outcome, loaded) := (m.hydrate row).run ((← get).heap.fresh type)
    outcome
    let x ← (← get).heap.toChange oid
    let (outcome, x) := (copyFields loaded m.fields).run x
    changeHeap fun h => h.put oid x
    outcome
    let snapshot ← m.extract x
    detach oid
    updateWork fun w => w.track oid m key snapshot

def flush : ManagerM σ Unit := do
  let work ← inEnvironment ((← get).work.commit.explain .flush)
  updateWork fun _ => work

/-- Runs a block inside a transaction and flushes before it is committed. If the block, the flush
or the commit fails, the transaction is rolled back, the unit of work is as it was before, and the
error is that of the failure. -/
def transactional (block : ManagerM σ α) : ManagerM σ α := do
  let saved := (← get).work
  onSession Session.begin
  match ← (do let a ← block; flush; return a : ManagerM σ α).attempt with
  | .ok a =>
    match ← (onSession Session.commit).attempt with
    | .ok () => return a
    | .error e =>
      updateWork fun _ => saved
      throw e
  | .error e =>
    discard (onSession Session.rollback).attempt
    updateWork fun _ => saved
    throw e

end Manager
end Persistence
