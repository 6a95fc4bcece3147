import Mathlib.Data.Multiset.Filter
import Mathlib.Logic.Function.Basic
import Persistence.IdentityKey
import Persistence.Proofs.Transactions

/-!
Relational stores. A table is a multiset of records. An insert adds one record, an update and a
delete go to exactly the records that meet their conditions, and no record may be given the
identifier of another one of its table. A rollback brings back the records of the begin.

A connection is a store for some classes if its answers to the statements about them are those of
such tables. It may refuse any statement.
-/

namespace Persistence

open Schema (Metadata)

abbrev Record := String → Value

namespace Record

/-- The conditions `column = value` hold. -/
def Meets (r : Record) (conditions : List (String × Value)) : Prop :=
  ∀ e ∈ conditions, r e.1 = e.2

instance (r : Record) (conditions : List (String × Value)) : Decidable (r.Meets conditions) :=
  inferInstanceAs (Decidable (∀ e ∈ conditions, r e.1 = e.2))

def assign (r : Record) (values : List (String × Value)) : Record := fun column =>
  (lookupEntry column values).getD (r column)

end Record

namespace Schema.Metadata

def SameIdentity (m : Metadata) (r s : Record) : Prop :=
  ∀ f ∈ m.identifierFields, r f.column = s f.column

instance (m : Metadata) (r s : Record) : Decidable (m.SameIdentity r s) :=
  inferInstanceAs (Decidable (∀ f ∈ m.identifierFields, r f.column = s f.column))

def Sole (m : Metadata) (r : Record) (rows : Multiset Record) : Prop :=
  rows.filter (m.SameIdentity r) = {r}

def insertedColumns (m : Metadata) : List String :=
  (m.fields.filter fun f => !(m.generatesIdentity && m.isIdentifier f.name)).map Field.column

end Schema.Metadata

/-- A statement is about the instances of a class. -/
inductive Sql.Statement.Concerns (m : Metadata) : Sql.Statement → Prop
  | insert {values : List (String × Value)} : values.map Prod.fst = m.insertedColumns →
      Concerns m (.insert m.fullTableName values)
  | update {assignments conditions : List (String × Value)} : assignments ≠ [] →
      (assignments.map Prod.fst).Sublist m.columns →
      conditions.map Prod.fst = m.identifierFields.map Schema.Field.column →
      Concerns m (.update m.fullTableName assignments conditions)
  | delete {conditions : List (String × Value)} :
      conditions.map Prod.fst = m.identifierFields.map Schema.Field.column →
      Concerns m (.delete m.fullTableName conditions)

abbrev Tables := String → Multiset Record

structure Database where
  tables : Tables
  /-- The tables that a rollback would bring back. -/
  saved : Tables
  /-- The record of the last insert, with its table. -/
  last : String × Record

/-- A statement about a class is taken. -/
inductive Database.Takes (m : Metadata) (d : Database) : Sql.Statement → Database → Prop
  | insert {table : String} {values : List (String × Value)} (r : Record) : r.Meets values →
      m.Sole r (r ::ₘ d.tables table) →
      Takes m d (.insert table values)
        { d with
          tables := Function.update d.tables table (r ::ₘ d.tables table)
          last := (table, r) }
  | update {table : String} {assignments conditions : List (String × Value)}
      (rows : Multiset Record) :
      rows = (d.tables table).map
        (fun r => if r.Meets conditions then r.assign assignments else r) →
      (∀ r ∈ d.tables table, r.Meets conditions → m.Sole (r.assign assignments) rows) →
      Takes m d (.update table assignments conditions)
        { d with tables := Function.update d.tables table rows }
  | delete {table : String} {conditions : List (String × Value)} :
      Takes m d (.delete table conditions)
        { d with
          tables := Function.update d.tables table
            ((d.tables table).filter fun r => ¬ r.Meets conditions) }

/-- A connection is a transactional relational store for some classes. Nothing is said of the
tables after a failed statement but that a rollback still brings back the same. -/
structure Store (σ : Type) [Connection σ] (classes : Metadata → Prop) where
  database : σ → Database
  execute : ∀ {m : Metadata} {x : Sql.Statement}, classes m → x.Concerns m → ∀ s : σ,
    (Connection.update x.sql x.parameters).Post
      (fun _ t => (database s).Takes m x (database t))
      (fun _ t => (database t).saved = (database s).saved) s
  lastInsertId : ∀ {m : Metadata}, classes m → m.generatesIdentity = true → ∀ s : σ,
    (database s).last.1 = m.fullTableName →
    Connection.lastInsertId.Post
      (fun id t => database t = database s ∧ ∀ f ∈ m.identifierFields,
        f.type.coerce (.text id) = .ok ((database s).last.2 f.column))
      (fun _ t => (database t).saved = (database s).saved) s
  begin : ∀ s : σ, Connection.begin.Post
    (fun _ t => (database t).tables = (database s).tables ∧
      (database t).saved = (database s).tables)
    (fun _ t => (database t).tables = (database s).tables) s
  commit : ∀ s : σ, Connection.commit.Post
    (fun _ t => (database t).tables = (database s).tables)
    (fun _ t => (database t).saved = (database s).saved) s
  rollback : ∀ s : σ, Connection.rollback.Post
    (fun _ t => (database t).tables = (database s).saved)
    (fun _ t => (database t).tables = (database s).saved) s

namespace Store

variable {σ : Type} [Connection σ] {classes : Metadata → Prop} (db : Store σ classes)
  {m : Metadata} {s : Session σ}

/-- What the connection of a session holds. -/
def holds (s : Session σ) : Database := db.database s.connection

theorem post_execute {x : Sql.Statement} (hm : classes m) (hx : x.Concerns m) :
    (Session.execute x).Post (fun _ t => s.SameNesting t ∧ (db.holds s).Takes m x (db.holds t))
      (fun _ t => s.SameNesting t ∧ (db.holds t).saved = (db.holds s).saved) s := by
  rw [Session.execute, Session.post_update]
  exact (db.execute hm hx s.connection).mono (fun _ _ h => ⟨⟨rfl, rfl⟩, h⟩)
    fun _ _ h => ⟨⟨rfl, rfl⟩, h⟩

theorem post_lastInsertId (hm : classes m) (hg : m.generatesIdentity = true)
    (hlast : (db.holds s).last.1 = m.fullTableName) :
    Session.lastInsertId.Post
      (fun id t => s.SameNesting t ∧ db.holds t = db.holds s ∧ ∀ f ∈ m.identifierFields,
        f.type.coerce (.text id) = .ok ((db.holds s).last.2 f.column))
      (fun _ t => s.SameNesting t ∧ (db.holds t).saved = (db.holds s).saved) s := by
  rw [Session.lastInsertId, Session.onConnection, Action.post_onPart]
  exact (db.lastInsertId hm hg s.connection hlast).mono (fun _ _ h => ⟨⟨rfl, rfl⟩, h⟩)
    fun _ _ h => ⟨⟨rfl, rfl⟩, h⟩

theorem post_begin (hs : s.depth = 0) :
    Session.begin.Post
      (fun _ t => t.depth = 1 ∧ (db.holds t).tables = (db.holds s).tables ∧
        (db.holds t).saved = (db.holds s).tables)
      (fun _ t => (db.holds t).tables = (db.holds s).tables) s := by
  rw [Session.post_begin]
  refine ⟨fun _ => ?_, fun h => absurd hs h⟩
  exact (db.begin s.connection).mono (fun _ _ h => ⟨rfl, h⟩) fun _ _ h => h

theorem post_rollback (hs : s.depth = 1) :
    Session.rollback.Post (fun _ t => (db.holds t).tables = (db.holds s).saved)
      (fun _ t => (db.holds t).tables = (db.holds s).saved) s := by
  simp only [Session.rollback, Session.onConnection, Action.post_bind, Action.post_get, hs,
    Action.post_set, Action.post_explain, Action.post_onPart]
  exact db.rollback s.connection

/-- The outermost commit keeps the tables, or it fails and they are as they were at the begin. -/
theorem post_commit (hs : s.depth = 1) :
    Session.commit.Post (fun _ t => (db.holds t).tables = (db.holds s).tables)
      (fun _ t => (db.holds t).tables = (db.holds s).saved) s := by
  simp only [Session.commit, Session.rollbackQuietly, Session.onConnection, Action.post_bind,
    Action.post_get, hs, Action.post_set, Action.post_ite, Action.post_discard,
    Action.post_attempt, Action.post_onPart, Action.post_throw, Action.post_pure]
  refine ⟨fun _ => db.rollback s.connection, fun _ => ?_⟩
  refine (db.commit s.connection).mono (fun _ t h => h) fun _ t h => ?_
  exact (db.rollback t).mono (fun _ _ h' => h'.trans h) fun _ _ h' => h'.trans h

end Store
end Persistence
