/-!
Associations from one entity class to another, as they are declared.

One side of an association stores it, in a join column or a join table; the other side names the
storing association of its target in `mappedBy`.
-/

namespace Persistence.Schema

inductive Multiplicity
  | oneToOne
  | oneToMany
  | manyToOne
  | manyToMany
deriving DecidableEq

def Multiplicity.name : Multiplicity → String
  | .oneToOne => "one-to-one"
  | .oneToMany => "one-to-many"
  | .manyToOne => "many-to-one"
  | .manyToMany => "many-to-many"

def Multiplicity.requirement : Multiplicity → String
  | .oneToOne => "a join column or mapped_by"
  | .oneToMany => "mapped_by"
  | .manyToOne => "a join column"
  | .manyToMany => "a join table or mapped_by"

/-- A column that holds the value of `referenced` in the row it points to. -/
structure JoinColumn where
  name : String
  referenced : String
  nullable : Bool := true
deriving DecidableEq

/-- The link table of a many-to-many association. `joinColumns` point to the side that declares
it, `inverseColumns` to the target. -/
structure JoinTable where
  name : String
  schema : Option String := none
  joinColumns : List JoinColumn
  inverseColumns : List JoinColumn
deriving DecidableEq

def qualifiedTable (schema : Option String) (table : String) : String :=
  match schema with
  | some s => s ++ "." ++ table
  | none => table

def JoinTable.fullName (t : JoinTable) : String := qualifiedTable t.schema t.name

structure Association where
  name : String
  kind : Multiplicity
  target : String
  mappedBy : Option String := none
  inversedBy : Option String := none
  /-- Recorded only: entities do not hold their associated instances. -/
  cascade : Bool := false
  /-- Recorded only, like `cascade`. -/
  eager : Bool := false
  joinColumn : Option JoinColumn := none
  joinTable : Option JoinTable := none
deriving DecidableEq

namespace Association

def isOwning (a : Association) : Bool := a.mappedBy.isNone

def isComplete (a : Association) : Bool :=
  match a.kind with
  | .manyToOne => a.joinColumn.isSome
  | .oneToOne => a.joinColumn.isSome || a.mappedBy.isSome
  | .oneToMany => a.mappedBy.isSome
  | .manyToMany => a.joinTable.isSome || a.mappedBy.isSome

end Association
end Persistence.Schema
