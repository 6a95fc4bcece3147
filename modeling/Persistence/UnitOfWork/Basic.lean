import Persistence.IdentityKey
import Persistence.Oid

/-!
The unit of work: which instances are tracked, in which state, and under which key.

It keeps every tracked instance with the field values last read from or written to the database, a
slot for each identity that is in use, and two queues of instances that wait to be inserted and to
be deleted. The instances themselves live elsewhere and are known here by their object identity.
-/

namespace Persistence

open Schema (Metadata Snapshot)

inductive Lifecycle
  /-- Waits to be inserted. -/
  | new
  /-- Loaded or written, with a snapshot to compare with. -/
  | managed
  /-- Waits to be deleted. -/
  | removed
  /-- Not tracked. -/
  | detached
deriving DecidableEq

def Lifecycle.name : Lifecycle → String
  | new => "New"
  | managed => "Managed"
  | removed => "Removed"
  | detached => "Detached"

structure Tracked where
  metadata : Metadata
  state : Lifecycle
  /-- Field values as last read from or written to the database. -/
  snapshot : Snapshot
  /-- The slot of the instance in the identity map, once it has an identity. -/
  key : Option IdentityKey
deriving DecidableEq

structure UnitOfWork where
  /-- The tracked instances, in the order in which they came to be tracked. -/
  tracked : OrderedMap Oid Tracked := .empty
  /-- The identity map: which instance stands for an identity. -/
  slots : OrderedMap IdentityKey Oid := .empty
  /-- Instances that wait to be inserted, in the order in which they were scheduled. -/
  insertions : List Oid := []
  /-- Instances that wait to be deleted, in the order in which they were scheduled. -/
  deletions : List Oid := []
deriving DecidableEq

def enqueue (oid : Oid) (queue : List Oid) : List Oid :=
  if oid ∈ queue then queue else queue ++ [oid]

namespace UnitOfWork

def empty : UnitOfWork := {}

def size (w : UnitOfWork) : Nat := w.tracked.size

def state (w : UnitOfWork) (oid : Oid) : Lifecycle :=
  match w.tracked.get? oid with
  | some t => t.state
  | none => .detached

def contains (w : UnitOfWork) (oid : Oid) : Bool :=
  w.state oid = .new ∨ w.state oid = .managed

def isScheduledForInsert (w : UnitOfWork) (oid : Oid) : Bool := w.insertions.contains oid

def isScheduledForDelete (w : UnitOfWork) (oid : Oid) : Bool := w.deletions.contains oid

def find? (w : UnitOfWork) (key : IdentityKey) : Option Oid :=
  match w.slots.get? key with
  | some oid => if w.tracked.contains oid then some oid else none
  | none => none

/-- Frees a slot if it belongs to the instance. -/
def freeSlot (w : UnitOfWork) (key : IdentityKey) (oid : Oid) : OrderedMap IdentityKey Oid :=
  if w.slots.get? key = some oid then w.slots.erase key else w.slots

/-- The slots after an instance has moved to a key: the one under a former key is freed. -/
def moveSlot (w : UnitOfWork) (former : Option IdentityKey) (key : IdentityKey) (oid : Oid) :
    OrderedMap IdentityKey Oid :=
  let slots := match former with
    | some old => if old ≠ key then w.freeSlot old oid else w.slots
    | none => w.slots
  slots.insert key oid

/-- Schedules an instance for insert, unless it is tracked. One that waits to be deleted is kept
instead. -/
def persist (w : UnitOfWork) (oid : Oid) (m : Metadata) : UnitOfWork :=
  match w.tracked.get? oid with
  | some t =>
    if t.state = .removed then
      { w with
        tracked := w.tracked.insert oid { t with state := .managed }
        deletions := w.deletions.erase oid }
    else w
  | none =>
    { w with
      tracked := w.tracked.insert oid ⟨m, .new, [], none⟩
      insertions := enqueue oid w.insertions }

/-- Schedules an instance for delete. One that waits to be inserted is forgotten instead. -/
def remove (w : UnitOfWork) (oid : Oid) : Except Error UnitOfWork :=
  match w.tracked.get? oid with
  | none => .error (.state (.notManaged oid))
  | some t =>
    match t.state with
    | .new =>
      .ok { w with tracked := w.tracked.erase oid, insertions := w.insertions.erase oid }
    | .managed =>
      .ok { w with
        tracked := w.tracked.insert oid { t with state := .removed }
        deletions := enqueue oid w.deletions }
    | .removed | .detached => .ok w

/-- Tracks an instance as managed under a key, with a snapshot to compare with. -/
def track (w : UnitOfWork) (oid : Oid) (m : Metadata) (key : IdentityKey)
    (snapshot : Snapshot) : UnitOfWork :=
  { tracked := w.tracked.insert oid ⟨m, .managed, snapshot, some key⟩
    slots := w.moveSlot ((w.tracked.get? oid).bind Tracked.key) key oid
    insertions := w.insertions.erase oid
    deletions := w.deletions.erase oid }

def detach (w : UnitOfWork) (oid : Oid) : UnitOfWork :=
  match w.tracked.get? oid with
  | none => w
  | some t =>
    { tracked := w.tracked.erase oid
      slots := match t.key with
        | some key => w.freeSlot key oid
        | none => w.slots
      insertions := w.insertions.erase oid
      deletions := w.deletions.erase oid }

def clear (_ : UnitOfWork) : UnitOfWork := empty

end UnitOfWork
end Persistence
