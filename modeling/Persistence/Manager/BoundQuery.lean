import Persistence.Manager.Basic

/-!
Queries ready to run: compiled, with values for their parameters.

Values are bound by name and sent in the order of the placeholders. Results are instances that no
unit of work tracks.
-/

namespace Persistence

structure BoundQuery where
  /-- The class that the query selects from. -/
  root : String
  compiled : ObjectQuery.Compiled
  values : OrderedMap String Value := .empty

namespace BoundQuery

def parameterName (name : String) : String :=
  match name.toList with
  | ':' :: rest => String.ofList rest
  | _ => name

def setParameter (q : BoundQuery) (name : String) (v : Value) : BoundQuery :=
  { q with values := q.values.insert (parameterName name) v }

def sql (q : BoundQuery) : String := q.compiled.sql

def parameters (q : BoundQuery) : Except Error (List Value) := q.compiled.bind q.values

end BoundQuery

namespace Manager

variable {σ : Type}

/-- Reads and compiles a query text; a text read before comes from the cache. -/
def createQuery (source : String) : ManagerM σ BoundQuery := do
  let m ← get
  let (shared, cache, registry) := m.cache.parse source m.registry
  set { m with cache := cache, registry := registry }
  let shared ← shared
  let compiled ← onRegistry (ObjectQuery.compile shared.query)
  return { root := shared.query.root, compiled := compiled }

def hydrateAll (type : EntityType) (m : Schema.Metadata) : List Row → ManagerM σ (List Instance)
  | [] => return []
  | row :: rest => do
    let (outcome, x) := (m.hydrate row).run ((← get).heap.fresh type)
    outcome
    return x :: (← hydrateAll type m rest)

end Manager

namespace BoundQuery

variable {σ : Type} [Connection σ]

def rows (q : BoundQuery) : ManagerM σ (List Row) := do
  let parameters ← q.parameters
  (Manager.onSession (Session.query q.sql parameters)).explain (.query .executionFailed q.sql)

/-- One instance of a type for each row. The type has to be that of the root class. -/
def results (q : BoundQuery) (type : EntityType) : ManagerM σ (List Instance) := do
  let m ← Manager.metadata type
  if m.className ≠ q.root then
    throw (.query (.wrongRoot q.root type.className) q.sql)
  Manager.hydrateAll type m (← q.rows)

def singleResult (q : BoundQuery) (type : EntityType) : ManagerM σ (Option Instance) := do
  let found ← q.results type
  if found.length > 1 then throw (.query (.severalResults found.length) q.sql)
  return found.head?

/-- The first column of the only row. Without rows it is null. -/
def scalar (q : BoundQuery) : ManagerM σ Value := do
  match ← q.rows with
  | [] => return .null
  | [row] => return row.first?.getD .null
  | rows => throw (.query (.severalRows rows.length) q.sql)

end BoundQuery
end Persistence
