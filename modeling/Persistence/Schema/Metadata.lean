import Persistence.Action
import Persistence.Row
import Persistence.Schema.Coercion
import Persistence.Schema.Mapping

/-!
Metadata: the checked description of an entity class, and its use on instances.

Extraction reads every mapped field of an instance into a snapshot; hydration writes the columns
of a row onto an instance. Both go field by field in declaration order.
-/

namespace Persistence.Schema

/-- Field names with values, as read off an instance. -/
abbrev Snapshot := List (String × Value)

structure Field where
  name : String
  column : String
  type : FieldType
  length : Option Nat
  nullable : Bool
  default : Option Value
  accessor : Accessor
deriving DecidableEq

/-- The description of an entity class. Field and association names are distinct, and every
identifier names a field. -/
structure Metadata where
  className : String
  table : String
  schema : Option String
  /-- Names of the identifier fields, in declaration order. -/
  identifiers : List String
  fields : List Field
  associations : List Association
  idSource : IdSource
  names_nodup : (fields.map Field.name ++ associations.map Association.name).Nodup
  identifiers_sublist : identifiers.Sublist (fields.map Field.name)
deriving DecidableEq

namespace Metadata

def fullTableName (m : Metadata) : String := qualifiedTable m.schema m.table

def field? (m : Metadata) (name : String) : Option Field := m.fields.find? fun f => f.name == name

def association? (m : Metadata) (name : String) : Option Association :=
  m.associations.find? fun a => a.name == name

def column? (m : Metadata) (field : String) : Option String := (m.field? field).map Field.column

def isIdentifier (m : Metadata) (field : String) : Bool := m.identifiers.contains field

def isComposite (m : Metadata) : Bool := m.identifiers.length > 1

/-- Whether inserts leave out the identifier and read it back. -/
def generatesIdentity (m : Metadata) : Bool :=
  m.idSource = .identity ∧ m.identifiers.length = 1

def requireIdentifiers (m : Metadata) : Except Error Unit :=
  if m.identifiers.isEmpty then .error (.mapping (.noIdentifiers m.className)) else .ok ()

def identifierFields (m : Metadata) : List Field := m.identifiers.filterMap m.field?

def columns (m : Metadata) : List String := m.fields.map Field.column

end Metadata

def readFields (x : Instance) : List Field → Except Error Snapshot
  | [] => .ok []
  | f :: rest => do
    let v ← f.accessor.get x
    let values ← readFields x rest
    return (f.name, v) :: values

namespace Metadata

/-- The values of all mapped fields. -/
def extract (m : Metadata) (x : Instance) : Except Error Snapshot := readFields x m.fields

def identifierValues (m : Metadata) (x : Instance) : Except Error Snapshot :=
  readFields x m.identifierFields

end Metadata

/-- A change of an instance that can fail; what was changed before a failure stays. -/
abbrev Change := Action Instance Unit

namespace Field

/-- Writes the value of the field's column, if the row has one. A null is written to nullable
fields only. -/
def hydrate (f : Field) (className : String) (row : Row) : Change :=
  match row.get? f.column with
  | none => pure ()
  | some v =>
    if v = .null ∧ f.nullable = false then pure ()
    else do
      let x ← get
      match f.type.coerce v >>= fun v => f.accessor.set x v with
      | .ok y => set y
      | .error e => throw (e.context (.mapping (.cannotHydrate className f.name f.column)))

end Field

namespace Metadata

def hydrate (m : Metadata) (row : Row) : Change :=
  m.fields.forM fun f => f.hydrate m.className row

def setField (m : Metadata) (x : Instance) (name : String) (v : Value) : Except Error Instance :=
  match m.field? name with
  | none => .error (.mapping (.noField m.className name))
  | some f => do
    let v ← f.type.coerce v
    f.accessor.set x v

end Metadata
end Persistence.Schema
