import Persistence.Instance
import Persistence.Session
import Persistence.UnitOfWork.Basic

/-!
Flushing a unit of work: everything that is pending is written in one transaction.

First the changes are computed by comparing each managed instance with its snapshot; if there are
none, nothing reaches the connection. Then the inserts, the updates and the deletes are sent. Only
when the transaction is committed does the unit of work change; after a failure it is as before.
-/

namespace Persistence

open Schema (Metadata Snapshot)

structure Environment (σ : Type) where
  heap : Heap
  session : Session σ

structure PendingUpdate where
  oid : Oid
  changes : List (String × Value)
  current : Snapshot
deriving DecidableEq

structure ChangeSet where
  inserts : List Oid
  updates : List PendingUpdate
  deletes : List Oid
deriving DecidableEq

def ChangeSet.isEmpty (c : ChangeSet) : Bool :=
  c.inserts.isEmpty && c.updates.isEmpty && c.deletes.isEmpty

structure Written where
  oid : Oid
  key : IdentityKey
  snapshot : Snapshot
deriving DecidableEq

def changedFields (snapshot current : Snapshot) : List (String × Value) :=
  current.filter fun e => lookupEntry e.1 snapshot ≠ some e.2

/-- Column and value of each field that an insert writes. The identifier is left to the database
if it generates one, and a null is replaced by the default of its field. -/
def Schema.Metadata.insertValues (m : Metadata) (values : Snapshot) : List (String × Value) :=
  let written := m.fields.filter fun f => !(m.generatesIdentity && m.isIdentifier f.name)
  written.map fun f =>
    let v := IdentityKey.snapshotValue values f.name
    (f.column, if v = .null then f.default.getD .null else v)

def Schema.Metadata.assignments (m : Metadata) (changes : List (String × Value)) :
    List (String × Value) :=
  changes.filterMap fun (name, v) => (m.column? name).map fun column => (column, v)

/-- The key under which the row of an instance was last written, which is where it is found. -/
def Tracked.rowKey (t : Tracked) : Except Error IdentityKey :=
  match t.key with
  | some key => .ok key
  | none => IdentityKey.ofSnapshot t.metadata t.snapshot

namespace Environment

variable {σ α : Type}

def onSession (a : SessionM σ α) : Action (Environment σ) α :=
  Action.onPart Environment.session (fun e s => { e with session := s }) a

def extract (m : Metadata) (oid : Oid) : Action (Environment σ) Snapshot := do
  let x ← (← get).heap.toRead oid
  let values ← m.extract x
  return values

def writeIdentifier (m : Metadata) (oid : Oid) (id : String) : Action (Environment σ) Unit := do
  let h := (← get).heap
  let x ← h.toChange oid
  let x ← m.setField x (m.identifiers.headD "") (.text id)
  modify fun e => { e with heap := h.put oid x }

end Environment

namespace UnitOfWork

/-- The managed instances with changes, in the order of tracking. -/
def pendingUpdates (h : Heap) : List (Oid × Tracked) → Except Error (List PendingUpdate)
  | [] => .ok []
  | (oid, t) :: rest =>
    if t.state = .managed then do
      let x ← h.toRead oid
      let current ← t.metadata.extract x
      let changes := changedFields t.snapshot current
      let more ← pendingUpdates h rest
      return if changes.isEmpty then more else ⟨oid, changes, current⟩ :: more
    else pendingUpdates h rest

def changeSet (w : UnitOfWork) (h : Heap) : Except Error ChangeSet := do
  let updates ← pendingUpdates h w.tracked.toList
  return ⟨w.insertions, updates, w.deletions⟩

def require (w : UnitOfWork) (oid : Oid) : Except Error Tracked :=
  match w.tracked.get? oid with
  | some t => .ok t
  | none => .error (.state (.notManaged oid))

variable {σ : Type} [Connection σ]

/-- Inserts the row of an instance and reads back what the database generated. The identity that
results may not be taken by another instance. -/
def insertRow (w : UnitOfWork) (oid : Oid) : Action (Environment σ) Written := do
  let t ← w.require oid
  let m := t.metadata
  let values ← Environment.extract m oid
  discard <| Environment.onSession (Session.execute
    (.insert m.fullTableName (m.insertValues values)))
  if m.generatesIdentity then
    let id ← Environment.onSession Session.lastInsertId
    Environment.writeIdentifier m oid id
  let snapshot ← Environment.extract m oid
  let key ← IdentityKey.ofSnapshot m snapshot
  match w.slots.get? key with
  | some other =>
    if other = oid then return ⟨oid, key, snapshot⟩
    else throw (.state (.identityTaken key.display))
  | none => return ⟨oid, key, snapshot⟩

def updateRow (w : UnitOfWork) (u : PendingUpdate) : Action (Environment σ) Written := do
  let t ← w.require u.oid
  let m := t.metadata
  let key ← t.rowKey
  discard <| Environment.onSession (Session.execute
    (.update m.fullTableName (m.assignments u.changes) (key.conditions m)))
  let key ← IdentityKey.ofSnapshot m u.current
  return ⟨u.oid, key, u.current⟩

def deleteRow (w : UnitOfWork) (oid : Oid) : Action (Environment σ) Unit := do
  let t ← w.require oid
  let key ← t.rowKey
  discard <| Environment.onSession (Session.execute
    (.delete t.metadata.fullTableName (key.conditions t.metadata)))

/-- Sends all inserts, then all updates, then all deletes. -/
def write (w : UnitOfWork) (c : ChangeSet) : Action (Environment σ) (List Written) := do
  let inserted ← c.inserts.mapM w.insertRow
  let updated ← c.updates.mapM w.updateRow
  c.deletes.forM w.deleteRow
  return inserted ++ updated

def applyWritten (w : UnitOfWork) (x : Written) : UnitOfWork :=
  match w.tracked.get? x.oid with
  | none => w
  | some t =>
    { w with
      tracked := w.tracked.insert x.oid
        { t with state := .managed, snapshot := x.snapshot, key := some x.key }
      slots := w.moveSlot t.key x.key x.oid }

/-- The unit of work after a flush. -/
def apply (w : UnitOfWork) (written : List Written) (deletes : List Oid) : UnitOfWork :=
  let w := written.foldl applyWritten w
  deletes.foldl detach { w with insertions := [] }

/-- Writes everything that is pending and answers the unit of work that results. -/
def commit (w : UnitOfWork) : Action (Environment σ) UnitOfWork := do
  let changes ← w.changeSet (← get).heap
  if changes.isEmpty then return w
  Environment.onSession Session.begin
  match ← (w.write changes).attempt with
  | .error e =>
    discard (Environment.onSession Session.rollback).attempt
    throw (e.context (.transaction .changesRolledBack))
  | .ok written =>
    Environment.onSession Session.commit
    return w.apply written changes.deletes

end UnitOfWork
end Persistence
