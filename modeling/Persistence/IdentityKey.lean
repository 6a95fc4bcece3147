import Persistence.Schema.Metadata

/-!
Identity keys: the class of an instance with the values of its identifier fields.

A key is made from an identifier or from the values of an instance. Its values are coerced to the
types of their fields, so `"7"` and `7` address the same integer key, and none of them is blank.
Its fields are sorted by name, so the order in which a composite identifier is written is of no
account.
-/

namespace Persistence

open Schema (Metadata Snapshot)

structure IdentityKey where
  className : String
  /-- Field names with values, sorted by name. -/
  fields : List (String × Value)
deriving DecidableEq

namespace IdentityKey

/-- The key of a class with the given values, put in order. -/
def ofFields (className : String) (fields : List (String × Value)) : IdentityKey :=
  ⟨className, fields.mergeSort fun a b => a.1 ≤ b.1⟩

def coerceField (m : Metadata) (name : String) (v : Value) : Except Error Value :=
  if v.isBlank then .error (.validation (.blankIdentifierField m.className name))
  else match m.field? name with
    | none => .error (.mapping (.unmappedIdentifier m.className name))
    | some f =>
      match f.type.coerce v with
      | .ok v => .ok v
      | .error e => .error (e.context (.validation (.invalidIdentifierField m.className name)))

def collect (m : Metadata) (pick : String → Except Error Value) :
    List String → Except Error (List (String × Value))
  | [] => .ok []
  | name :: rest => do
    let v ← coerceField m name (← pick name)
    return (name, v) :: (← collect m pick rest)

/-- The key an identifier stands for. A single value is accepted for a single identifier field; a
composite has to name all identifier fields and nothing else. -/
def ofIdentifier (m : Metadata) (id : Identifier) : Except Error IdentityKey := do
  m.requireIdentifiers
  match id with
  | .scalar v =>
    if m.isComposite then
      .error (.validation (.compositeExpected m.className m.identifiers))
    else return ofFields m.className (← collect m (fun _ => .ok v) m.identifiers)
  | .composite values =>
    match values.keys.find? fun name => !m.isIdentifier name with
    | some extra => .error (.validation (.notAnIdentifierField m.className extra))
    | none =>
      let pick (name : String) : Except Error Value :=
        match values.get? name with
        | some v => .ok v
        | none => .error (.validation (.missingIdentifierField m.className name))
      return ofFields m.className (← collect m pick m.identifiers)

/-- The value of a field in a snapshot; null if the snapshot has none. -/
def snapshotValue (s : Snapshot) (name : String) : Value := (lookupEntry name s).getD .null

def ofSnapshot (m : Metadata) (s : Snapshot) : Except Error IdentityKey := do
  m.requireIdentifiers
  return ofFields m.className (← collect m (fun name => .ok (snapshotValue s name)) m.identifiers)

def get? (k : IdentityKey) (field : String) : Option Value := lookupEntry field k.fields

def identifier (k : IdentityKey) : Identifier :=
  match k.fields with
  | [(_, v)] => .scalar v
  | fields => .composite (.ofList fields)

def display (k : IdentityKey) : String := k.className ++ "(" ++ k.identifier.display ++ ")"

/-- Column and value of every identifier field, in declaration order. -/
def conditions (k : IdentityKey) (m : Metadata) : List (String × Value) :=
  m.identifierFields.map fun f => (f.column, (k.get? f.name).getD .null)

end IdentityKey
end Persistence
