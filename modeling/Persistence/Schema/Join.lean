import Persistence.Schema.Registry

/-!
The joins that an association stands for.

A join is a list of steps, each a table under an alias with the column equalities that tie it to
what came before; the last step is the table of the target. A side that stores the association
uses its own columns, the other side those of the association it is mapped by. A many-to-many
association goes through its join table, under an alias made of the aliases of both sides.
-/

namespace Persistence.Schema

structure QualifiedColumn where
  aliasName : String
  column : String
deriving DecidableEq

def QualifiedColumn.text (c : QualifiedColumn) : String := c.aliasName ++ "." ++ c.column

structure ColumnEquality where
  left : QualifiedColumn
  right : QualifiedColumn
deriving DecidableEq

def ColumnEquality.text (e : ColumnEquality) : String := e.left.text ++ " = " ++ e.right.text

structure JoinStep where
  table : String
  aliasName : String
  equalities : List ColumnEquality
deriving DecidableEq

def JoinStep.condition (s : JoinStep) : String :=
  " AND ".intercalate (s.equalities.map ColumnEquality.text)

structure AssociationJoin where
  target : String
  links : List JoinStep
  targetStep : JoinStep
deriving DecidableEq

def AssociationJoin.steps (j : AssociationJoin) : List JoinStep := j.links ++ [j.targetStep]

/-- The alias of the join table between two aliases. -/
def linkAlias (sourceAlias targetAlias : String) : String := sourceAlias ++ "_" ++ targetAlias

namespace Association

/-- The association of the target that stores this one. -/
def inverse (a : Association) (source : String) (target : Metadata) (mappedBy : String) :
    Except Error Association :=
  match target.association? mappedBy with
  | some b => .ok b
  | none => .error (.mapping (.inverseMissing source a.name target.className mappedBy))

/-- The join table with the columns pointing to the source and to the target. On the side that
does not store the association the columns of the storing side swap their roles. -/
def linkColumns (a : Association) (source : String) (target : Metadata) :
    Except Error (JoinTable × List JoinColumn × List JoinColumn) :=
  match a.mappedBy with
  | none =>
    match a.joinTable with
    | some t => .ok (t, t.joinColumns, t.inverseColumns)
    | none => .error (.mapping (.joinTableRequired source a.name))
  | some mappedBy => do
    let b ← a.inverse source target mappedBy
    match b.joinTable with
    | some t => .ok (t, t.inverseColumns, t.joinColumns)
    | none => .error (.mapping (.inverseWithoutTable source a.name target.className mappedBy))

def directJoin (target : Metadata) (targetAlias : String) (e : ColumnEquality) :
    AssociationJoin :=
  ⟨target.className, [], ⟨target.fullTableName, targetAlias, [e]⟩⟩

def join (a : Association) (source : String) (target : Metadata)
    (sourceAlias targetAlias : String) : Except Error AssociationJoin :=
  match a.kind, a.joinColumn, a.mappedBy with
  | .manyToOne, some c, _ | .oneToOne, some c, _ =>
    .ok (directJoin target targetAlias ⟨⟨sourceAlias, c.name⟩, ⟨targetAlias, c.referenced⟩⟩)
  | .oneToMany, none, some mappedBy | .oneToOne, none, some mappedBy => do
    let b ← a.inverse source target mappedBy
    match b.joinColumn with
    | some c =>
      .ok (directJoin target targetAlias ⟨⟨targetAlias, c.name⟩, ⟨sourceAlias, c.referenced⟩⟩)
    | none => .error (.mapping (.inverseWithoutColumn source a.name target.className mappedBy))
  | .manyToMany, _, _ => do
    let (table, toSource, toTarget) ← a.linkColumns source target
    let link := linkAlias sourceAlias targetAlias
    let linkStep : JoinStep :=
      ⟨table.fullName, link,
        toSource.map fun c => ⟨⟨link, c.name⟩, ⟨sourceAlias, c.referenced⟩⟩⟩
    let targetStep : JoinStep :=
      ⟨target.fullTableName, targetAlias,
        toTarget.map fun c => ⟨⟨targetAlias, c.referenced⟩, ⟨link, c.name⟩⟩⟩
    return ⟨target.className, [linkStep], targetStep⟩
  | _, _, _ => .error (.mapping (.joinUndetermined a.kind source a.name))

end Association

/-- The joins of a named association of a class. -/
def associationJoin (source association sourceAlias targetAlias : String) :
    RegistryM AssociationJoin := do
  let m ← Registry.describe source
  match m.association? association with
  | none => throw (.mapping (.noAssociation source association))
  | some a =>
    let target ← Registry.describe a.target
    let j ← a.join source target sourceAlias targetAlias
    return j

end Persistence.Schema
