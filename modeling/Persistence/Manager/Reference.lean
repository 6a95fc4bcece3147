import Persistence.Manager.Basic

/-!
References: related entities that may not have been loaded yet.

A reference that is not loaded knows its type and identifier only. Resolving it loads the entity;
the reference of a loaded entity needs no connection any more.
-/

namespace Persistence

inductive Reference
  | loaded (oid : Oid)
  | unloaded (type : EntityType) (id : Identifier)
deriving DecidableEq

namespace Reference

def isLoaded : Reference → Bool
  | loaded _ => true
  | unloaded _ _ => false

def oid? : Reference → Option Oid
  | loaded oid => some oid
  | unloaded _ _ => none

def identifier? : Reference → Option Identifier
  | loaded _ => none
  | unloaded _ id => some id

/-- The instance of a reference, found on first use. The reference is then `loaded`; if the entity
does not exist it stays as it is. -/
def resolve {σ : Type} [Connection σ] : Reference → ManagerM σ Oid
  | loaded oid => pure oid
  | unloaded type id => do
    match ← Manager.find type id with
    | some oid => return oid
    | none => throw ⟨.entityNotFound type.className id, []⟩

end Reference

/-- A reference to the entity with an identifier: loaded if it is tracked. The connection is not
used. -/
def Manager.reference {σ : Type} (type : EntityType) (id : Identifier) :
    ManagerM σ Reference := do
  let m ← metadata type
  let key ← IdentityKey.ofIdentifier m id
  match (← get).work.find? key with
  | some oid => .loaded <$> ofType type oid
  | none => return .unloaded type id

end Persistence
