import Persistence.Manager.BoundQuery

/-!
Repositories: look-ups of entities of one type by criteria on their fields.

Apart from the look-ups by identifier, results are instances that no unit of work tracks.
-/

namespace Persistence

open Schema (Metadata)
open Sql (Aggregate Direction Select Filter)

/-- Values that fields must have, all of them at once. -/
abbrev Criteria := OrderedMap String Value

/-- A stretch of the rows that match, with the number of all of them. -/
structure Page where
  items : List Instance
  /-- How many rows match on all pages together. -/
  total : Nat
  /-- The first page is number one. -/
  number : Nat
  size : Nat
  pageCount : Nat
deriving DecidableEq

namespace Page

def maxSize : Nat := 1000

/-- Counts and offsets have sixty-four bits; a larger offset is cut to the greatest. -/
def maxCount : Nat := Nat.pow 2 64 - 1

def offset (number size : Nat) : Nat := min ((number - 1) * size) maxCount

def count (total size : Nat) : Nat := (total + size - 1) / size

end Page

namespace Repository

def column (m : Metadata) (field : String) : Except Error String :=
  match m.column? field with
  | some c => .ok c
  | none => .error (.validation (.noField m.className field))

def filter (m : Metadata) (criteria : Criteria) : Except Error Filter :=
  criteria.toList.mapM fun (field, v) => do return (← column m field, v)

def ordering (m : Metadata) (order : List (String × Direction)) :
    Except Error (List (String × Direction)) :=
  order.mapM fun (field, d) => do return (← column m field, d)

/-- A value as a count: a number that is not negative, or the text of one. -/
def toCount? : Value → Option Nat
  | .int n => if 0 ≤ n.toInt then some n.toInt.toNat else none
  | .text s => (Literal.count (Text.trimBlanks s.toList)).toOption
  | _ => none

variable {σ : Type} [Connection σ]

/-- The tracked instances of the identifiers that have a row, in order. -/
def findEach (type : EntityType) : List Identifier → ManagerM σ (List Oid)
  | [] => return []
  | id :: rest => do
    let found ← Manager.find type id
    let more ← findEach type rest
    return found.toList ++ more

def findByIds (type : EntityType) (ids : List Identifier) : ManagerM σ (List Oid) := do
  if ids.isEmpty then throw (.validation (.noIdentifiersGiven type.className))
  findEach type ids

def select (s : Select) : ManagerM σ (List Row) := Manager.onSession (Session.select s)

def findBy (type : EntityType) (criteria : Criteria) (order : List (String × Direction))
    (limit offset : Option Nat) : ManagerM σ (List Instance) := do
  let m ← Manager.metadata type
  let conditions ← filter m criteria
  let order ← ordering m order
  let rows ← select
    { table := m.fullTableName, projection := .columns m.columns, filter := conditions,
      order := order, limit := limit, offset := offset }
  Manager.hydrateAll type m rows

def findAll (type : EntityType) : ManagerM σ (List Instance) := findBy type .empty [] none none

def findOneBy (type : EntityType) (criteria : Criteria) : ManagerM σ (Option Instance) := do
  return (← findBy type criteria [] (some 1) none).getLast?

def count (type : EntityType) (criteria : Criteria) : ManagerM σ Nat := do
  let m ← Manager.metadata type
  let conditions ← filter m criteria
  let rows ← select { table := m.fullTableName, projection := .count, filter := conditions }
  let v := (rows.head?.bind Row.first?).getD (.int 0)
  match toCount? v with
  | some n => return n
  | none => throw (.conversion v "u64")

def exists? (type : EntityType) (criteria : Criteria) : ManagerM σ Bool := do
  let m ← Manager.metadata type
  m.requireIdentifiers
  let conditions ← filter m criteria
  let rows ← select
    { table := m.fullTableName
      projection := .columns (m.identifierFields.map Schema.Field.column)
      filter := conditions
      limit := some 1 }
  return !rows.isEmpty

/-- What an aggregate is taken of: a column, or all rows for a count of `*`. -/
def aggregateTarget (m : Metadata) (a : Aggregate) (field : String) : Except Error String :=
  if field = "*" then
    if a = .count then .ok "*" else .error (.validation (.aggregateNeedsField a.name))
  else column m field

/-- An aggregate over the rows that match; null if the database answers no row. -/
def aggregate (type : EntityType) (a : Aggregate) (field : String) (criteria : Criteria) :
    ManagerM σ Value := do
  let m ← Manager.metadata type
  let target ← aggregateTarget m a field
  let conditions ← filter m criteria
  let rows ← select
    { table := m.fullTableName, projection := .aggregate a target, filter := conditions }
  return (rows.head?.bind Row.first?).getD .null

def paginate (type : EntityType) (number size : Nat) (criteria : Criteria)
    (order : List (String × Direction)) : ManagerM σ Page := do
  if number = 0 then throw (.validation .pageNumberZero)
  if size = 0 ∨ Page.maxSize < size then
    throw (.validation (.pageSizeOutOfRange size Page.maxSize))
  let items ← findBy type criteria order (some size) (some (Page.offset number size))
  let total ← count type criteria
  return ⟨items, total, number, size, Page.count total size⟩

def runQuery (type : EntityType) (source : String) (values : List (String × Value)) :
    ManagerM σ (List Instance) := do
  if Text.isBlankText source then throw (.validation .emptyQueryText)
  let q ← Manager.createQuery source
  (values.foldl (fun q e => q.setParameter e.1 e.2) q).results type

end Repository
end Persistence
