import Persistence.Schema.Registry

/-!
Diagnosis of registered mappings: findings in words, without failing.
-/

namespace Persistence.Schema

inductive Finding
  | notDescribed (className : String) (why : Error)
  | noTableName (className : String)
  | noIdentifiers (className : String)
  | noFields (className : String)
  | unknownTarget (association target : String)

def Finding.message : Finding → String
  | notDescribed c e =>
    let why := e.message
    s!"Failed to load metadata for {c}: {why}"
  | noTableName c => s!"Entity {c} has no table name defined"
  | noIdentifiers c => s!"Entity {c} has no identifier fields"
  | noFields c => s!"Entity {c} has no mapped fields"
  | unknownTarget a t => s!"Association {a} targets non-existent class {t}"

def Metadata.findings (m : Metadata) (className : String) (registered : String → Bool) :
    List Finding :=
  (if Text.isBlankText m.table then [.noTableName className] else []) ++
    (if m.identifiers.isEmpty then [.noIdentifiers className] else []) ++
    (if m.fields.isEmpty then [.noFields className] else []) ++
    (m.associations.filter fun a => !registered a.target).map fun a =>
      .unknownTarget a.name a.target

namespace Registry

def diagnose (className : String) : StateM Registry (List Finding) := do
  let r ← get
  match ← (describe className).run with
  | .ok m => return m.findings className r.isRegistered
  | .error e => return [.notDescribed className e]

def diagnoseAll : StateM Registry (List (String × List Finding)) := do
  let all ← (← get).classes.mapM fun c => do return (c, ← diagnose c)
  return all.filter fun e => !e.2.isEmpty

end Registry
end Persistence.Schema
