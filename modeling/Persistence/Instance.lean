import Persistence.OrderedMap
import Persistence.Storage

/-!
Entity instances and the heap they live in.

An instance belongs to a type and holds one slot for each field definition of that type. Instances
are shared: a manager and its callers see the same one through its object identity, so they are
kept in a heap, together with the marks of those who are reading or changing them.
-/

namespace Persistence

/-- A type of instances. Two types can go by the same class name; the variant tells them apart. -/
structure EntityType where
  className : String
  variant : Nat := 0
deriving DecidableEq

structure Slot where
  name : String
  storage : Storage
  value : Value
  valid : storage.convert value = .ok value
deriving DecidableEq

namespace Slot

def initial (name : String) (storage : Storage) : Slot :=
  ⟨name, storage, storage.initial, storage.convert_initial⟩

def write (s : Slot) (v : Value) : Except Error Slot :=
  match h : s.storage.convert v with
  | .ok w => .ok { s with value := w, valid := Storage.convert_convert h }
  | .error e => .error e

end Slot

structure Instance where
  type : EntityType
  slots : List Slot
deriving DecidableEq

namespace Instance

/-- What a slot holds; a slot that is not there reads as null. -/
def read (x : Instance) (i : Nat) : Value :=
  match x.slots[i]? with
  | some s => s.value
  | none => .null

/-- Writes a slot; one that is not there takes every value and keeps none. -/
def write (x : Instance) (i : Nat) (v : Value) : Except Error Instance :=
  match x.slots[i]? with
  | some s => (s.write v).map fun s => { x with slots := x.slots.set i s }
  | none => .ok x

def assign? (x : Instance) (name : String) (v : Value) : Option (Except Error Instance) :=
  (x.slots.findIdx? fun s => s.name == name).map fun i => x.write i v

/-- The slots by name, in the order of their definitions. -/
def dump (x : Instance) : List (String × Value) := x.slots.map fun s => (s.name, s.value)

end Instance

/-- Reads and writes one field of the instances of one type. -/
structure Accessor where
  owner : EntityType
  slot : Nat
deriving DecidableEq

namespace Accessor

def get (a : Accessor) (x : Instance) : Except Error Value :=
  if x.type = a.owner then .ok (x.read a.slot) else .error (.mapping .foreignInstance)

def set (a : Accessor) (x : Instance) (v : Value) : Except Error Instance :=
  if x.type = a.owner then x.write a.slot v else .error (.mapping .foreignInstance)

end Accessor

/-- Who is holding an instance while others run. -/
inductive Borrow
  | none
  | shared
  | exclusive
deriving DecidableEq

structure Object where
  content : Instance
  borrow : Borrow := .none
deriving DecidableEq

instance : Inhabited Object := ⟨⟨⟨"", 0⟩, []⟩, .none⟩

/-- All instances that were made, by their number, and what a new instance of each type holds. -/
structure Heap where
  initials : OrderedMap EntityType (List Slot)
  objects : List Object
deriving DecidableEq

namespace Heap

/-- A new instance of a type, not yet in the heap. A type without a definition has no slots. -/
def fresh (h : Heap) (type : EntityType) : Instance := ⟨type, (h.initials.get? type).getD []⟩

/-- Changes what new instances of a type hold. -/
def define (h : Heap) (type : EntityType) (slots : List Slot) : Heap :=
  { h with initials := h.initials.insert type slots }

def allocate (h : Heap) (x : Instance) : Oid × Heap :=
  (⟨h.objects.length⟩, { h with objects := h.objects ++ [⟨x, .none⟩] })

/-- The instance with an identity; one that was never given out reads as an empty instance. -/
def object (h : Heap) (oid : Oid) : Object := h.objects.getD oid.index default

def content (h : Heap) (oid : Oid) : Instance := (h.object oid).content

def typeOf (h : Heap) (oid : Oid) : EntityType := (h.content oid).type

/-- Replaces the instance with an identity; its borrow stays. -/
def put (h : Heap) (oid : Oid) (x : Instance) : Heap :=
  { h with objects := h.objects.modify oid.index fun o => { o with content := x } }

def setBorrow (h : Heap) (oid : Oid) (b : Borrow) : Heap :=
  { h with objects := h.objects.modify oid.index fun o => { o with borrow := b } }

/-- The instance for reading, unless someone holds it exclusively. -/
def toRead (h : Heap) (oid : Oid) : Except Error Instance :=
  if (h.object oid).borrow = .exclusive then
    .error (.state (.mutablyBorrowed (h.typeOf oid).className oid))
  else .ok (h.content oid)

def toChange (h : Heap) (oid : Oid) : Except Error Instance :=
  if (h.object oid).borrow = .none then .ok (h.content oid)
  else .error (.state (.alreadyBorrowed (h.typeOf oid).className oid))

end Heap
end Persistence
