import Persistence.Error
import Persistence.Text.Blank

/-!
The SQL statements that are issued on behalf of entities: inserts, updates and deletes of a unit
of work, and the selects of look-ups.
-/

namespace Persistence.Sql

/-- Conditions `column = value`, all of which must hold. A null is matched by `IS NULL`. -/
abbrev Filter := List (String × Value)

inductive Aggregate
  | count
  | sum
  | avg
  | min
  | max
deriving DecidableEq

namespace Aggregate

def name : Aggregate → String
  | count => "COUNT"
  | sum => "SUM"
  | avg => "AVG"
  | min => "MIN"
  | max => "MAX"

def all : List Aggregate := [count, sum, avg, min, max]

def ofName (s : String) : Except Error Aggregate :=
  let wanted := Text.trim s
  match all.find? fun a => Text.sameName a.name wanted with
  | some a => .ok a
  | none => .error (.validation (.unknownAggregate wanted))

end Aggregate

inductive Direction
  | ascending
  | descending
deriving DecidableEq

namespace Direction

instance : Inhabited Direction := ⟨ascending⟩

def name : Direction → String
  | ascending => "ASC"
  | descending => "DESC"

end Direction

inductive Projection
  | columns (names : List String)
  | count
  | aggregate (function : Aggregate) (column : String)
deriving DecidableEq

structure Select where
  table : String
  projection : Projection
  filter : Filter := []
  order : List (String × Direction) := []
  limit : Option Nat := none
  offset : Option Nat := none
deriving DecidableEq

inductive Statement
  | insert (table : String) (values : List (String × Value))
  | update (table : String) (assignments : List (String × Value)) (filter : Filter)
  | delete (table : String) (filter : Filter)
  | select (query : Select)
deriving DecidableEq

def Statement.isQuery : Statement → Bool
  | .select _ => true
  | _ => false

end Persistence.Sql
