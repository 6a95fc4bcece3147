import Persistence.Instance

/-!
Mappings: how a class declares its table, its fields and its associations.
-/

namespace Persistence.Schema

structure FieldDef where
  name : String
  type : FieldType
  accessor : Accessor
  column : Option String := none
  length : Option Nat := none
  nullable : Bool := false
  /-- Written on insert in place of null. -/
  default : Option Value := none
  isIdentifier : Bool := false

/-- Where the identifier of a new row comes from. -/
inductive IdSource
  /-- The database assigns it, and it is read back after the insert. -/
  | identity
  /-- The caller assigns it before the insert. -/
  | sequence
deriving DecidableEq

/-- What a class declares. Only a mapping marked as an entity describes one. -/
structure Mapping where
  isEntity : Bool
  table : Option String := none
  schema : Option String := none
  fields : List FieldDef := []
  associations : List Association := []
  idSource : IdSource := .identity

end Persistence.Schema
