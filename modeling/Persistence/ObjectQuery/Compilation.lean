import Persistence.ObjectQuery.Basic
import Persistence.ObjectQuery.Token
import Persistence.Schema.Join

/-!
Compilation of object queries to SQL.

Clauses are compiled token by token: `alias.field` becomes `alias.column` where the alias is in
scope, a parameter becomes a placeholder, and everything else stays as it is. The result is a list
of fragments, so the parameters come in the order of their placeholders.
-/

namespace Persistence.ObjectQuery

open Schema (Metadata Registry RegistryM)

inductive Fragment
  | text (s : String)
  | parameter (name : String)
deriving DecidableEq

namespace Fragment

def sql : Fragment → String
  | text s => s
  | parameter _ => "?"

def parameter? : Fragment → Option String
  | text _ => none
  | parameter name => some name

end Fragment

/-- SQL with the name of the parameter behind each placeholder, in order. -/
structure Compiled where
  sql : String
  parameters : List String
deriving DecidableEq

def Compiled.ofFragments (fs : List Fragment) : Compiled :=
  ⟨String.join (fs.map Fragment.sql), fs.filterMap Fragment.parameter?⟩

/-- The values of the parameters in the order of their placeholders. Values that the query does not
use are passed over. -/
def Compiled.bind (c : Compiled) (values : OrderedMap String Value) : Except Error (List Value) :=
  c.parameters.mapM fun name =>
    match values.get? name with
    | some v => .ok v
    | none => .error (.query (.unboundParameter name) c.sql)

/-- The class behind each alias. -/
abbrev Scope := OrderedMap String Metadata

/-- The column that a name stands for: that of the field, or the name itself if it is a column. -/
def columnFor (m : Metadata) (aliasName name : String) : Except Error String :=
  match m.column? name with
  | some column => .ok column
  | none =>
    if m.columns.contains name then .ok name
    else .error (.query (.noField m.className name) (aliasName ++ "." ++ name))

/-- The class of an alias, if the three tokens are `alias.field` without blanks inside. -/
def reference? (scope : Scope) (owner dot field : Token) : Option Metadata :=
  if owner.kind = .word ∧ dot.isMark "." ∧ dot.spaced = false ∧ field.kind = .word ∧
      field.spaced = false then
    scope.get? owner.text
  else none

def Fragment.ofToken (t : Token) : Fragment :=
  if t.kind = .parameter then .parameter t.text else .text t.text

def fragmentsOfTokens (scope : Scope) : List Token → Except Error (List Fragment)
  | owner :: dot :: field :: rest =>
    match reference? scope owner dot field with
    | some m => do
      let column ← columnFor m owner.text field.text
      let fs ← fragmentsOfTokens scope rest
      return .text owner.gap :: .text (owner.text ++ "." ++ column) :: fs
    | none => do
      let fs ← fragmentsOfTokens scope (dot :: field :: rest)
      return .text owner.gap :: .ofToken owner :: fs
  | t :: rest => do
    let fs ← fragmentsOfTokens scope rest
    return .text t.gap :: .ofToken t :: fs
  | [] => .ok []

def fragmentsOfText (scope : Scope) (text : String) : Except Error (List Fragment) := do
  fragmentsOfTokens scope (Token.unspaceHead (← Token.tokenize text))

/-- All columns of a class, under its alias if it has one. -/
def qualifiedColumns (m : Metadata) (aliasName : Option String) : String :=
  let qualify (column : String) : String := match aliasName with
    | some a => a ++ "." ++ column
    | none => column
  ", ".intercalate (m.columns.map qualify)

def selectsRoot (q : ObjectQuery) : Bool :=
  q.projection = "*" ∨ q.aliasName.any fun a => Text.sameName a (Text.trim q.projection)

def joinStep (kind : JoinKind) (table aliasName : String) (condition : List Fragment) :
    List Fragment :=
  .text (" " ++ kind.sql ++ " " ++ table ++ " " ++ aliasName ++ " ON ") :: condition

def Fragment.ofStep (kind : JoinKind) (s : Schema.JoinStep) : List Fragment :=
  joinStep kind s.table s.aliasName [.text s.condition]

/-- What an association join asks for besides the equalities of its columns. -/
def extraCondition (scope : Scope) : Option String → Except Error (List Fragment)
  | none => .ok []
  | some text => do return .text " AND (" :: (← fragmentsOfText scope text) ++ [.text ")"]

/-- Compiles one join. Its condition sees the aliases up to its own. -/
def compileJoin (q : ObjectQuery) (scope : Scope) (m : Metadata) (j : Join) :
    RegistryM (List Fragment) :=
  match j.association with
  | some a =>
    match q.aliases.get? a.source with
    | none => throw (.query (.unknownAlias a.source) a.text)
    | some source => do
      let joined ← Schema.associationJoin source a.name a.source j.aliasName
      let extra ← extraCondition scope j.condition
      return (joined.steps.map (Fragment.ofStep j.kind)).flatten ++ extra
  | none =>
    match j.condition with
    | none => throw (.query .joinWithoutCondition (j.className ++ " " ++ j.aliasName))
    | some text => do
      let condition ← fragmentsOfText scope text
      return joinStep j.kind m.fullTableName j.aliasName condition

def describeJoins : List Join → RegistryM (List (Join × Metadata))
  | [] => pure []
  | j :: rest => do
    let m ← Registry.describe j.className
    return (j, m) :: (← describeJoins rest)

def extend (scope : Scope) (joins : List (Join × Metadata)) : Scope :=
  joins.foldl (fun scope (j, m) => scope.insert j.aliasName m) scope

/-- Compiles joins from left to right; `scope` holds the aliases introduced before and `full` all
of them. An alias that is introduced twice stands for the class it was given last. -/
def compileJoins (q : ObjectQuery) (full : Scope) :
    Scope → List (Join × Metadata) → RegistryM (List Fragment)
  | _, [] => pure []
  | scope, (j, own) :: rest => do
    let m := (full.get? j.aliasName).getD own
    let scope := scope.insert j.aliasName m
    let here ← compileJoin q scope m j
    let more ← compileJoins q full scope rest
    return here ++ more

def compileClause (scope : Scope) (keyword : String) : Option String →
    Except Error (List Fragment)
  | none => .ok []
  | some text => do return .text keyword :: (← fragmentsOfText scope text)

def compile (q : ObjectQuery) : RegistryM Compiled := do
  let root ← Registry.describe q.root
  let scope := OrderedMap.ofList (q.aliasName.toList.map fun a => (a, root))
  let described ← describeJoins q.joins
  let full := extend scope described
  let projection ←
    if selectsRoot q then pure [.text (qualifiedColumns root q.aliasName)]
    else fragmentsOfText full q.projection
  let table := root.fullTableName ++ (match q.aliasName with
    | some a => " " ++ a
    | none => "")
  let joins ← compileJoins q full scope described
  let filter ← compileClause full " WHERE " q.filter
  let order ← compileClause full " ORDER BY " q.order
  return .ofFragments
    ([.text "SELECT "] ++ projection ++ [.text " FROM ", .text table] ++ joins ++ filter ++ order)

end Persistence.ObjectQuery
