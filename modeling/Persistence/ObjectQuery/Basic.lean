import Persistence.OrderedMap

/-!
Object queries: selections that speak of entity classes and their fields.

A query selects from a root class and the classes joined to it. Its clauses are kept as text with
single spaces; what they say about fields becomes columns when the query is compiled.
-/

namespace Persistence

namespace ObjectQuery

inductive JoinKind
  | inner
  | left
deriving DecidableEq

def JoinKind.sql : JoinKind → String
  | .inner => "INNER JOIN"
  | .left => "LEFT JOIN"

structure AssociationRef where
  source : String
  name : String
deriving DecidableEq

def AssociationRef.text (a : AssociationRef) : String := a.source ++ "." ++ a.name

structure Join where
  kind : JoinKind
  className : String
  aliasName : String
  /-- The condition of an explicit join, or what an association join asks besides. -/
  condition : Option String
  /-- Set if the class is joined through an association. -/
  association : Option AssociationRef
deriving DecidableEq

end ObjectQuery

structure ObjectQuery where
  /-- What is selected: `*`, an alias, or expressions. -/
  projection : String
  root : String
  aliasName : Option String
  joins : List ObjectQuery.Join
  filter : Option String
  order : Option String
  /-- The class each alias stands for, in the order the aliases were introduced. -/
  aliases : OrderedMap String String
deriving DecidableEq

end Persistence
