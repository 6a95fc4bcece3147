import Persistence.Manager.Basic

/-!
A connection with prepared answers and a class of users, for runs that can be computed.
-/

namespace Persistence.Sample

open Schema (Mapping Metadata)

structure Scripted where
  rows : List (List Row) := []
  refuses : Bool := false

instance : Connection Scripted where
  query _ _ := fun s =>
    match s.rows with
    | [] => (.ok [], s)
    | answer :: rest => (.ok answer, { s with rows := rest })
  update _ _ := fun s =>
    (if s.refuses then .error (.validation (.other "read only")) else .ok 1, s)
  lastInsertId := pure "1"
  begin := pure ()
  commit := pure ()
  rollback := pure ()

def user : EntityType := ⟨"User", 0⟩

def userMapping : Mapping where
  isEntity := true
  table := some "users"
  fields :=
    [{ name := "id", type := .integer, accessor := ⟨user, 0⟩, isIdentifier := true },
     { name := "name", type := .string, accessor := ⟨user, 1⟩ }]

def userMetadata : Metadata := userMapping.toMetadata "User" (by decide)

def userSlots (id : Option Int64) (name : String) : List Slot :=
  [⟨"id", ⟨.int64, true⟩, id.elim .null .int, by cases id <;> rfl⟩,
   ⟨"name", ⟨.text, false⟩, .text name, rfl⟩]

def userObject (id : Option Int64) (name : String) : Object := ⟨⟨user, userSlots id name⟩, .none⟩

def userRow (id : Value) (name : String) : Row := .ofList [("id", id), ("name", .text name)]

def heap (users : List Object) : Heap := ⟨.ofList [(user, userSlots none "")], users⟩

def manager {σ : Type} (users : List Object) (connection : σ) : Manager σ where
  heap := heap users
  session := { connection := connection }
  registry := Schema.Registry.empty.register "User" userMapping
  cache := .empty
  work := .empty

theorem build_manager {σ : Type} (users : List Object) (connection : σ) :
    Manager.build { registrations := [⟨user, userMapping⟩] } (heap users) connection =
      .ok (manager users connection) := rfl

def enrolment : EntityType := ⟨"Enrolment", 0⟩

def enrolmentMetadata : Metadata :=
  Mapping.toMetadata
    { isEntity := true
      table := some "enrolments"
      fields :=
        [{ name := "student", type := .integer, accessor := ⟨enrolment, 0⟩, isIdentifier := true,
           column := some "student_no" },
         { name := "grade", type := .float, accessor := ⟨enrolment, 1⟩ },
         { name := "course", type := .string, accessor := ⟨enrolment, 2⟩, isIdentifier := true }] }
    "Enrolment" (by decide)

def tag : EntityType := ⟨"Tag", 0⟩

def tagMetadata : Metadata :=
  Mapping.toMetadata
    { isEntity := true
      table := some "tags"
      fields :=
        [{ name := "id", type := .string, accessor := ⟨tag, 0⟩, isIdentifier := true },
         { name := "label", type := .string, accessor := ⟨tag, 1⟩, nullable := true }] }
    "Tag" (by decide)

def member : EntityType := ⟨"Member", 1⟩

def role : EntityType := ⟨"Role", 2⟩

def memberMapping : Mapping where
  isEntity := true
  table := some "members"
  fields :=
    [{ name := "id", type := .integer, accessor := ⟨member, 0⟩, isIdentifier := true },
     { name := "name", type := .string, accessor := ⟨member, 1⟩, column := some "full_name" }]
  associations :=
    [{ name := "roles", kind := .manyToMany, target := "Role",
       joinTable := some ⟨"member_roles", none, [⟨"member_id", "id", false⟩], [⟨"role_id", "id", false⟩]⟩ }]

def roleMapping : Mapping where
  isEntity := true
  table := some "roles"
  fields :=
    [{ name := "id", type := .integer, accessor := ⟨role, 0⟩, isIdentifier := true },
     { name := "title", type := .string, accessor := ⟨role, 1⟩, column := some "label" }]

def forum : Schema.Registry :=
  (Schema.Registry.empty.register "Member" memberMapping).register "Role" roleMapping

end Persistence.Sample
