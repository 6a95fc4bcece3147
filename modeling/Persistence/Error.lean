import Persistence.Identifier
import Persistence.Number.Literal
import Persistence.Oid
import Persistence.Schema.Association
import Persistence.Schema.FieldType

/-!
What can go wrong, and how it is told.

A problem names its cause by a constructor; its wording is given by `message` and nowhere else. An
error is a problem together with the problems that led to it, the outermost first and the root
last, and is told as their messages joined by colons.
-/

namespace Persistence

open Schema (FieldType Multiplicity)

inductive ValidationFault
  | emptyClassName
  | unregisteredClass (className : String)
  | unknownAggregate (name : String)
  | compositeExpected (className : String) (identifiers : List String)
  | notAnIdentifierField (className field : String)
  | missingIdentifierField (className field : String)
  | blankIdentifierField (className field : String)
  | invalidIdentifierField (className field : String)
  | noIdentifiersGiven (className : String)
  | pageNumberZero
  | pageSizeOutOfRange (size limit : Nat)
  | aggregateNeedsField (aggregate : String)
  | emptyQueryText
  | noField (className field : String)
  | other (message : String)
deriving DecidableEq

def ValidationFault.message : ValidationFault → String
  | emptyClassName => "class name cannot be empty"
  | unregisteredClass c => s!"`{c}` is not a registered entity type"
  | unknownAggregate n =>
    s!"invalid aggregate function `{n}`; expected one of COUNT, SUM, AVG, MIN, MAX"
  | compositeExpected c ids =>
    let names := ", ".intercalate ids
    s!"`{c}` has a composite identifier ({names}); pass a map of field values"
  | notAnIdentifierField c f => s!"`{f}` is not an identifier field of `{c}`"
  | missingIdentifierField c f => s!"missing value for identifier field `{f}` of `{c}`"
  | blankIdentifierField c f => s!"identifier field `{f}` of `{c}` cannot be null or empty"
  | invalidIdentifierField c f => s!"invalid value for identifier field `{f}` of `{c}`"
  | noIdentifiersGiven c => s!"no identifiers given to look up `{c}`"
  | pageNumberZero => "page numbers start at 1"
  | pageSizeOutOfRange n limit => s!"page size must be between 1 and {limit}, got {n}"
  | aggregateNeedsField a => s!"{a} needs a field, not `*`"
  | emptyQueryText => "query text cannot be empty"
  | noField c f => s!"`{c}` has no field `{f}`"
  | other m => m

inductive MappingFault
  | unknownFieldType (name : String)
  | notAnEntity (className : String)
  | unnamedField (className : String)
  | blankColumn (className field : String)
  | lengthNotAccepted (className field : String) (type : FieldType)
  | lengthOutOfRange (className field : String) (length : Nat)
  | fieldMappedTwice (className field : String)
  | associationWithoutTarget (className name : String)
  | unknownTarget (className name target : String)
  | nameMappedTwice (className name : String)
  | incompleteAssociation (kind : Multiplicity) (className name : String)
  | joinTableWithoutColumns (className name table : String)
  | noAssociation (className name : String)
  | inverseMissing (className name target mappedBy : String)
  | inverseWithoutColumn (className name target mappedBy : String)
  | inverseWithoutTable (className name target mappedBy : String)
  | joinTableRequired (className name : String)
  | joinUndetermined (kind : Multiplicity) (className name : String)
  | noIdentifiers (className : String)
  | unmappedIdentifier (className field : String)
  | noField (className field : String)
  | cannotHydrate (className field column : String)
  | foreignInstance
  | notAnInstance (className : String) (oid : Oid) (wanted : String)
  | ambiguousClass (className : String)
  | other (message : String)
deriving DecidableEq

def MappingFault.message : MappingFault → String
  | unknownFieldType s => s!"invalid column type `{s}`"
  | notAnEntity c => s!"class `{c}` is not an entity"
  | unnamedField c => s!"field of `{c}` has an empty name"
  | blankColumn c f => s!"field `{c}.{f}` has an empty column name"
  | lengthNotAccepted c f type =>
    let t := type.name
    s!"field `{c}.{f}`: length is only valid for string, text and decimal columns, not {t}"
  | lengthOutOfRange c f n =>
    let limit := FieldType.maxLength
    s!"field `{c}.{f}`: length must be between 1 and {limit}, got {n}"
  | fieldMappedTwice c f => s!"field `{f}` is mapped twice on `{c}`"
  | associationWithoutTarget c a => s!"association `{c}.{a}` has no target entity"
  | unknownTarget c a t => s!"association `{c}.{a}` targets unknown class `{t}`"
  | nameMappedTwice c a => s!"`{a}` is mapped twice on `{c}`"
  | incompleteAssociation kind c a =>
    let k := kind.name
    let needs := kind.requirement
    s!"{k} association `{c}.{a}` requires {needs}"
  | joinTableWithoutColumns c a t =>
    s!"join table `{t}` of `{c}.{a}` requires join columns on both sides"
  | noAssociation c a => s!"`{c}` has no association `{a}`"
  | inverseMissing c a t m => s!"`{c}.{a}` is mapped by `{t}.{m}`, which does not exist"
  | inverseWithoutColumn c a t m => s!"`{t}.{m}` (inverse of `{c}.{a}`) has no join column"
  | inverseWithoutTable c a t m => s!"`{t}.{m}` (inverse of `{c}.{a}`) has no join table"
  | joinTableRequired c a => s!"many-to-many association `{c}.{a}` requires a join table"
  | joinUndetermined kind c a =>
    let k := kind.name
    s!"{k} association `{c}.{a}` has no join column or mapped_by"
  | noIdentifiers c => s!"entity `{c}` has no identifier fields"
  | unmappedIdentifier c f => s!"identifier `{f}` of `{c}` is not a mapped field"
  | noField c f => s!"`{c}` has no field `{f}`"
  | cannotHydrate c f column => s!"cannot hydrate `{c}.{f}` from column `{column}`"
  | foreignInstance => "accessor for `?` applied to an instance of another type"
  | notAnInstance c oid wanted =>
    let o := oid.display
    s!"{c} {o} is not an instance of `{wanted}`"
  | ambiguousClass c => s!"two types are registered under the class name `{c}`"
  | other m => m

inductive Expectation
  | keyword (word : String)
  | entityName
  | joinTarget
  | associationName
  | aliasName
  | condition
deriving DecidableEq

def Expectation.name : Expectation → String
  | keyword w => s!"`{w}`"
  | entityName => "entity name"
  | joinTarget => "join target"
  | associationName => "association name"
  | aliasName => "alias"
  | condition => "condition"

inductive QueryFault
  | empty
  | unterminatedString
  | missingProjection
  | expected (what : Expectation)
  | unexpected (text : String)
  | unbalancedOpening
  | unbalancedClosing
  | unknownAlias (aliasName : String)
  | duplicateAlias (aliasName : String)
  | noAssociation (className name : String)
  | noField (className name : String)
  | joinWithoutCondition
  | unboundParameter (name : String)
  | executionFailed
  | wrongRoot (root wanted : String)
  | severalResults (count : Nat)
  | severalRows (count : Nat)
  | other (message : String)
deriving DecidableEq

def QueryFault.message : QueryFault → String
  | empty => "query is empty"
  | unterminatedString => "unterminated string literal"
  | missingProjection => "missing projection"
  | expected what =>
    let w := what.name
    s!"expected {w}"
  | unexpected t => s!"unexpected `{t}`"
  | unbalancedOpening => "unbalanced `(`"
  | unbalancedClosing => "unbalanced `)`"
  | unknownAlias a => s!"unknown alias `{a}`"
  | duplicateAlias a => s!"duplicate alias `{a}`"
  | noAssociation c a => s!"`{c}` has no association `{a}`"
  | noField c f => s!"`{c}` has no field `{f}`"
  | joinWithoutCondition => "explicit join requires an ON condition"
  | unboundParameter p => s!"parameter `:{p}` is not bound"
  | executionFailed => "query execution failed"
  | wrongRoot root wanted => s!"query selects from `{root}`, not `{wanted}`"
  | severalResults n => s!"expected at most one result, got {n}"
  | severalRows n => s!"expected a single row, got {n}"
  | other m => m

inductive StateFault
  | mutablyBorrowed (className : String) (oid : Oid)
  | alreadyBorrowed (className : String) (oid : Oid)
  | notManaged (oid : Oid)
  | cannotRefresh (className : String)
  | identityTaken (key : String)
  | other (message : String)
deriving DecidableEq

def StateFault.message : StateFault → String
  | mutablyBorrowed c oid =>
    let o := oid.display
    s!"{c} {o} is mutably borrowed"
  | alreadyBorrowed c oid =>
    let o := oid.display
    s!"{c} {o} is already borrowed"
  | notManaged oid =>
    let o := oid.display
    s!"entity {o} is not managed"
  | cannotRefresh c => s!"cannot refresh {c}"
  | identityTaken key => s!"another instance of {key} is already managed"
  | other m => m

inductive TransactionFault
  | beginFailed
  | commitFailed
  | rollbackFailed
  | commitOutside
  | rollbackOutside
  | rollbackOnly
  | changesRolledBack
  | other (message : String)
deriving DecidableEq

def TransactionFault.message : TransactionFault → String
  | beginFailed => "failed to begin transaction"
  | commitFailed => "commit failed"
  | rollbackFailed => "rollback failed"
  | commitOutside => "commit without an active transaction"
  | rollbackOutside => "rollback without an active transaction"
  | rollbackOnly => "transaction was marked rollback-only by a nested rollback"
  | changesRolledBack => "commit failed, changes rolled back"
  | other m => m

/-- One link in the chain of an error. -/
inductive Problem
  | validation (fault : ValidationFault)
  | mapping (fault : MappingFault)
  /-- The fragment is the part of the query the fault was found in; it may be empty. -/
  | query (fault : QueryFault) (fragment : String)
  | state (fault : StateFault)
  | transaction (fault : TransactionFault)
  /-- The row behind a reference or an instance is gone. -/
  | entityNotFound (className : String) (identifier : Identifier)
  /-- A flush failed; what made it fail is the cause. -/
  | flush
  /-- The connection reported a failure, with its own causes after it. -/
  | driver (texts : List String)
  | conversion (found : Value.Kind) (target : String)
  | number (fault : NumberFault)
  | adhoc (message : String)
deriving DecidableEq

namespace Problem

def message : Problem → String
  | validation f => "validation failed: " ++ f.message
  | mapping f => "mapping error: " ++ f.message
  | query f fragment =>
    "invalid query: " ++ f.message ++
      (if fragment.isEmpty then "" else " (near `" ++ fragment ++ "`)")
  | state f => "invalid entity state: " ++ f.message
  | transaction f => "transaction error: " ++ f.message
  | entityNotFound c id =>
    let i := id.display
    s!"entity not found: {c} with identifier {i}"
  | flush => "flush failed"
  | driver texts => ": ".intercalate texts
  | conversion found target =>
    let k := found.name
    s!"cannot convert {k} to {target}"
  | number f => f.message
  | adhoc m => m

end Problem

inductive ErrorKind
  | validation
  | mapping
  | query
  | state
  | transaction
  | entityNotFound
  | flush
  | driver
  | conversion
  | other
deriving DecidableEq

def Problem.kind : Problem → ErrorKind
  | validation _ => .validation
  | mapping _ => .mapping
  | query _ _ => .query
  | state _ => .state
  | transaction _ => .transaction
  | entityNotFound _ _ => .entityNotFound
  | flush => .flush
  | driver _ => .driver
  | conversion _ _ => .conversion
  | number _ | adhoc _ => .other

/-- A problem and what led to it, from the outermost to the root. -/
structure Error where
  problem : Problem
  causes : List Problem := []
deriving DecidableEq

namespace Error

def validation (f : ValidationFault) : Error := ⟨.validation f, []⟩
def mapping (f : MappingFault) : Error := ⟨.mapping f, []⟩
def query (f : QueryFault) (fragment : String) : Error := ⟨.query f fragment, []⟩
def state (f : StateFault) : Error := ⟨.state f, []⟩
def transaction (f : TransactionFault) : Error := ⟨.transaction f, []⟩
def conversion (v : Value) (target : String) : Error := ⟨.conversion v.kind target, []⟩
def number (f : NumberFault) : Error := ⟨.number f, []⟩

def context (e : Error) (p : Problem) : Error := ⟨p, e.problem :: e.causes⟩

def chain (e : Error) : List Problem := e.problem :: e.causes

def kind (e : Error) : ErrorKind := e.problem.kind

def cause? (e : Error) : Option Error :=
  match e.causes with
  | [] => none
  | p :: rest => some ⟨p, rest⟩

def root (e : Error) : Problem := e.causes.getLastD e.problem

def message (e : Error) : String := ": ".intercalate (e.chain.map Problem.message)

@[simp] theorem kind_context (e : Error) (p : Problem) : (e.context p).kind = p.kind := rfl

@[simp] theorem root_context (e : Error) (p : Problem) : (e.context p).root = e.root := by
  simp [root, context, List.getLast?_cons]

end Error
end Persistence
