import Persistence.Proofs.Mirrored
import Persistence.Proofs.Sample
import Persistence.Proofs.Texts
import Persistence.Schema.Checks

/-!
A store of users in memory. It tells the statements by their text and takes the identifiers of new
users from a supply. What it does not know, it refuses: the change of an identifier is one such
statement.
-/

namespace Persistence.Sample

open Schema (Metadata FieldType)

structure AboutUsers (m : Metadata) : Prop where
  table : m.fullTableName = "users"
  columns : m.columns = ["id", "name"]
  identifiers : m.identifierFields.map Schema.Field.column = ["id"]
  types : ∀ f ∈ m.identifierFields, f.type = .integer
  inserted : m.insertedColumns = ["name"]

theorem aboutUsers_userMetadata : AboutUsers userMetadata where
  table := rfl
  columns := rfl
  identifiers := rfl
  types := by decide
  inserted := rfl

abbrev Users := OrderedMap Int64 Value

namespace Users

variable {users : Users} {e : Int64 × Value} {id : Int64} {m : Metadata}

def record (e : Int64 × Value) : Record := fun column =>
  if column = "id" then .int e.1 else if column = "name" then e.2 else .null

def records (users : Users) : Multiset Record := ↑(users.toList.map record)

def add (users : Users) (id : Int64) (name : Value) (h : id ∉ users.keys) : Users :=
  ⟨(id, name) :: users.toList, List.nodup_cons.mpr ⟨h, users.nodup⟩⟩

def rename (users : Users) (id : Int64) (name : Value) : Users where
  toList := users.toList.map fun e => (e.1, if e.1 = id then name else e.2)
  nodup := by
    rw [List.map_map]
    exact users.nodup

theorem sameIdentity_iff (hm : AboutUsers m) {r s : Record} :
    m.SameIdentity r s ↔ r "id" = s "id" := by
  simp [Metadata.SameIdentity, hm.identifiers,
    ← List.forall_mem_map (f := Schema.Field.column) (P := fun c => r c = s c)]

theorem meets_iff : (record e).Meets [("id", .int id)] ↔ e.1 = id := by
  simp [Record.Meets, record]

theorem sole_cons (hm : AboutUsers m) (users : Users) (name : Value) (h : id ∉ users.keys) :
    m.Sole (record (id, name)) (record (id, name) ::ₘ users.records) := by
  rw [Metadata.sole_cons_iff]
  intro s hs
  obtain ⟨e, he, rfl⟩ := List.mem_map.mp (Multiset.mem_coe.mp hs)
  rw [sameIdentity_iff hm]
  intro heq
  obtain rfl : id = e.1 := by simpa [record] using heq
  exact h (List.mem_map_of_mem he)

theorem sole_record (hm : AboutUsers m) (h : e ∈ users.toList) : m.Sole (record e) users.records := by
  obtain ⟨before, after, hrows⟩ := List.append_of_mem h
  have hn : ((e :: (before ++ after)).map Prod.fst).Nodup :=
    ((hrows ▸ List.perm_middle : users.toList.Perm _).map Prod.fst).nodup_iff.mp users.nodup
  rw [List.map_cons, List.nodup_cons] at hn
  have hrest := sole_cons hm ⟨before ++ after, hn.2⟩ e.2 hn.1
  have hperm : users.records = record e ::ₘ ↑((before ++ after).map record) := by
    rw [records, hrows, Multiset.cons_coe]
    exact Multiset.coe_eq_coe.mpr (List.perm_middle.map record)
  rw [hperm]
  exact hrest

theorem record_assign (e : Int64 × Value) (name : Value) :
    (record e).assign [("name", name)] = record (e.1, name) := by
  funext column
  by_cases hname : column = "name"
  · simp [Record.assign, lookupEntry, record, hname]
  · simp [Record.assign, lookupEntry, record, hname, Ne.symm hname]

theorem records_rename (users : Users) (id : Int64) (name : Value) :
    (users.rename id name).records = users.records.map fun r =>
      if r.Meets [("id", .int id)] then r.assign [("name", name)] else r := by
  simp only [records, rename, Multiset.map_coe, List.map_map]
  congr 1
  refine List.map_congr_left fun e _ => ?_
  simp only [Function.comp_apply, meets_iff, record_assign]
  split
  · rfl
  · rfl

theorem records_erase (users : Users) (id : Int64) :
    records (users.erase id) = users.records.filter fun r => ¬ r.Meets [("id", .int id)] := by
  simp only [records, OrderedMap.erase, Multiset.filter_coe, List.filter_map, Function.comp_def,
    meets_iff]

end Users

def clause (v : Value) : String := if v = .null then " WHERE id IS NULL" else " WHERE id = ?"

theorem sqlOf_pieces (v : Value) : Sql.sqlOf (Sql.Filter.pieces [("id", v)]) = clause v := by
  unfold clause
  split
  · rename_i h
    rw [h]
    rfl
  · rename_i h
    change Sql.sqlOf (.text " WHERE " :: Sql.separated " AND " [Sql.condition ("id", v)]) = _
    rw [Sql.condition, if_neg h]
    rfl

theorem parametersOf_pieces {v : Value} (h : v ≠ .null) :
    Sql.parametersOf (Sql.Filter.pieces [("id", v)]) = [v] := by
  change Sql.parametersOf (.text " WHERE " :: Sql.separated " AND " [Sql.condition ("id", v)]) = _
  rw [Sql.condition, if_neg h]
  rfl

theorem sql_insert (v : Value) :
    (Sql.Statement.insert "users" [("name", v)]).sql = "INSERT INTO users (name) VALUES (?)" := rfl

theorem sql_update (assignments : List (String × Value)) (v : Value) :
    (Sql.Statement.update "users" assignments [("id", v)]).sql = "UPDATE users SET " ++
      Sql.sqlOf (Sql.separated ", " (assignments.map Sql.assignment)) ++ clause v := by
  change Sql.sqlOf (_ ++ Sql.Filter.pieces [("id", v)]) = _
  rw [Sql.sqlOf_append, Sql.sqlOf_append, sqlOf_pieces]
  rfl

theorem sql_delete (v : Value) :
    (Sql.Statement.delete "users" [("id", v)]).sql = "DELETE FROM users" ++ clause v := by
  change Sql.sqlOf (_ ++ Sql.Filter.pieces [("id", v)]) = _
  rw [Sql.sqlOf_append, sqlOf_pieces]
  rfl

inductive Change
  | insert (name : Value)
  | rename (id : Int64) (name : Value)
  | delete (id : Int64)

namespace Change

def statement : Change → Sql.Statement
  | insert name => .insert "users" [("name", name)]
  | rename id name => .update "users" [("name", name)] [("id", .int id)]
  | delete id => .delete "users" [("id", .int id)]

def candidates : List Value → List Change
  | [.int id] => [insert (.int id), delete id]
  | [name] => [insert name]
  | [name, .int id] => [rename id name]
  | _ => []

theorem sql_statement (c : Change) : c.statement.sql =
    match c with
    | .insert _ => "INSERT INTO users (name) VALUES (?)"
    | .rename _ _ => "UPDATE users SET name = ? WHERE id = ?"
    | .delete _ => "DELETE FROM users WHERE id = ?" := by
  cases c <;> rfl

def read (sql : String) (parameters : List Value) : Option Change :=
  (candidates parameters).find? fun c => c.statement.sql = sql

theorem parameters_of_mem_candidates {parameters : List Value} {c : Change}
    (h : c ∈ candidates parameters) : parameters = c.statement.parameters := by
  unfold candidates at h
  split at h
  · obtain rfl | rfl : c = _ ∨ c = _ := by simpa using h
    · rfl
    · rfl
  all_goals
    first
    | obtain rfl := List.mem_singleton.mp h
      rfl
    | simp at h

end Change

structure Ticket where
  id : Int64
  text : String
  coerced : FieldType.integer.coerce (.text text) = .ok (.int id)

structure Memory where
  users : Users := .empty
  saved : Users := .empty
  supply : List Ticket
  last : Option (Ticket × Value) := none

namespace Memory

def change (s : Memory) : Change → Option Memory
  | .insert name =>
    match s.supply with
    | [] => none
    | ticket :: supply =>
      if h : ticket.id ∈ s.users.keys then none
      else some
        { s with
          users := s.users.add ticket.id name h
          supply := supply
          last := some (ticket, name) }
  | .rename id name => some { s with users := s.users.rename id name }
  | .delete id => some { s with users := s.users.erase id }

def refusal : Error := .validation (.other "refused")

instance : Connection Memory where
  query _ _ := pure []
  update sql parameters := fun s =>
    match (Change.read sql parameters).bind s.change with
    | some t => (.ok 1, t)
    | none => (.error refusal, s)
  lastInsertId := fun s =>
    match s.last with
    | some (ticket, _) => (.ok ticket.text, s)
    | none => (.error refusal, s)
  begin := modify fun s => { s with saved := s.users }
  commit := pure ()
  rollback := modify fun s => { s with users := s.saved }

def tables (users : Users) : Tables := Function.update (fun _ => 0) "users" users.records

def database (s : Memory) : Database where
  tables := tables s.users
  saved := tables s.saved
  last :=
    match s.last with
    | some (ticket, name) => ("users", Users.record (ticket.id, name))
    | none => ("", fun _ => .null)

variable {s t : Memory} {x : Sql.Statement} {c : Change} {m : Metadata}

theorem eq_insert {v : Value}
    (hsql : (Sql.Statement.insert "users" [("name", v)]).sql = c.statement.sql)
    (hparameters : [v] = c.statement.parameters) :
    .insert "users" [("name", v)] = c.statement := by
  rw [Change.sql_statement, sql_insert] at hsql
  cases c with
  | insert name =>
    obtain rfl : v = name := by injection hparameters
    rfl
  | rename | delete => simp at hsql

theorem eq_rename {assignments : List (String × Value)} {v : Value} (hne : assignments ≠ [])
    (hcolumns : (assignments.map Prod.fst).Sublist ["id", "name"])
    (hsql : (Sql.Statement.update "users" assignments [("id", v)]).sql = c.statement.sql)
    (hparameters : (Sql.Statement.update "users" assignments [("id", v)]).parameters =
      c.statement.parameters) :
    .update "users" assignments [("id", v)] = c.statement := by
  rw [Change.sql_statement, sql_update, clause] at hsql
  match assignments with
  | [] => exact absurd rfl hne
  | [(column, u)] =>
    obtain rfl | rfl : column = "id" ∨ column = "name" := by simpa using hcolumns
    · rw [show Sql.sqlOf (Sql.separated ", " ([("id", u)].map Sql.assignment)) = "id = ?"
        from rfl] at hsql
      cases c <;> split at hsql <;> simp at hsql
    · rw [show Sql.sqlOf (Sql.separated ", " ([("name", u)].map Sql.assignment)) = "name = ?"
        from rfl] at hsql
      cases c with
      | rename id name =>
        split at hsql
        · simp at hsql
        · rename_i hv
          have hboth : [u, v] = [name, .int id] := by
            rw [← parametersOf_pieces hv]
            exact hparameters
          obtain ⟨rfl, rfl⟩ : u = name ∧ v = .int id := by simpa using hboth
          rfl
      | insert | delete => split at hsql <;> simp at hsql
  | [(first, u), (second, name)] =>
    obtain ⟨rfl, rfl⟩ : first = "id" ∧ second = "name" := by
      simpa using hcolumns.eq_of_length rfl
    rw [show Sql.sqlOf (Sql.separated ", " ([("id", u), ("name", name)].map Sql.assignment)) =
      "id = ?, name = ?" from rfl] at hsql
    cases c <;> split at hsql <;> simp at hsql
  | _ :: _ :: _ :: _ => simpa using hcolumns.length_le

theorem eq_delete {v : Value}
    (hsql : (Sql.Statement.delete "users" [("id", v)]).sql = c.statement.sql)
    (hparameters : (Sql.Statement.delete "users" [("id", v)]).parameters = c.statement.parameters) :
    .delete "users" [("id", v)] = c.statement := by
  rw [Change.sql_statement, sql_delete, clause] at hsql
  cases c with
  | delete id =>
    split at hsql
    · simp at hsql
    · rename_i hv
      have hone : [v] = [.int id] := by
        rw [← parametersOf_pieces hv]
        exact hparameters
      obtain rfl : v = .int id := by simpa using hone
      rfl
  | insert | rename => split at hsql <;> simp at hsql

theorem eq_statement (hm : AboutUsers m) (hx : x.Concerns m) (hsql : x.sql = c.statement.sql)
    (hparameters : x.parameters = c.statement.parameters) : x = c.statement := by
  cases hx with
  | insert hvalues =>
    rw [hm.inserted] at hvalues
    obtain ⟨⟨column, v⟩, rfl, rfl⟩ := List.map_eq_singleton_iff.mp hvalues
    rw [hm.table] at *
    exact eq_insert hsql hparameters
  | update hne hcolumns hconditions =>
    rw [hm.columns] at hcolumns
    rw [hm.identifiers] at hconditions
    obtain ⟨⟨column, v⟩, rfl, rfl⟩ := List.map_eq_singleton_iff.mp hconditions
    rw [hm.table] at *
    exact eq_rename hne hcolumns hsql hparameters
  | delete hconditions =>
    rw [hm.identifiers] at hconditions
    obtain ⟨⟨column, v⟩, rfl, rfl⟩ := List.map_eq_singleton_iff.mp hconditions
    rw [hm.table] at *
    exact eq_delete hsql hparameters

theorem tables_users (users : Users) : tables users "users" = users.records := by
  rw [tables, Function.update_self]

theorem update_tables (users users' : Users) :
    Function.update (tables users) "users" users'.records = tables users' := by
  rw [tables, Function.update_idem, tables]

theorem takes_of_change (hm : AboutUsers m) (h : s.change c = some t) :
    s.database.Takes m c.statement t.database := by
  have htables : s.database.tables = tables s.users := rfl
  cases c with
  | insert name =>
    simp only [change] at h
    split at h
    · simp at h
    · rename_i ticket supply hsupply
      split at h
      · simp at h
      · rename_i hid
        obtain rfl := Option.some.inj h
        have hsole := s.users.sole_cons hm name hid
        rw [← tables_users] at hsole
        have htakes : s.database.Takes m (.insert "users" [("name", name)]) _ :=
          .insert (Users.record (ticket.id, name)) (by simp [Record.Meets, Users.record]) hsole
        rw [htables, tables_users] at htakes
        rw [show Users.record (ticket.id, name) ::ₘ s.users.records =
          (s.users.add ticket.id name hid).records from rfl, update_tables] at htakes
        exact htakes
  | rename id name =>
    obtain rfl := Option.some.inj h
    have hsole (r : Record) (hr : r ∈ s.database.tables "users")
        (hmeets : r.Meets [("id", .int id)]) :
        m.Sole (r.assign [("name", name)]) (s.users.rename id name).records := by
      rw [htables, tables_users] at hr
      obtain ⟨e, he, rfl⟩ := List.mem_map.mp (Multiset.mem_coe.mp hr)
      have hmem : (e.1, name) ∈ (s.users.rename id name).toList :=
        List.mem_map.mpr ⟨e, he, by rw [if_pos (Users.meets_iff.mp hmeets)]⟩
      rw [Users.record_assign]
      exact Users.sole_record hm hmem
    have htakes : s.database.Takes m
        (.update "users" [("name", name)] [("id", .int id)]) _ :=
      .update (s.users.rename id name).records
        (by rw [htables, tables_users, Users.records_rename]) hsole
    rw [htables, update_tables] at htakes
    exact htakes
  | delete id =>
    obtain rfl := Option.some.inj h
    have htakes : s.database.Takes m (.delete "users" [("id", .int id)]) _ := .delete
    rw [htables, tables_users, ← Users.records_erase, update_tables] at htakes
    exact htakes

def store : Store Memory AboutUsers where
  database := database
  execute := by
    intro m x hm hx s
    have hrun : (Connection.update x.sql x.parameters).run s =
        match (Change.read x.sql x.parameters).bind s.change with
        | some t => (.ok 1, t)
        | none => (.error refusal, s) := rfl
    cases hread : (Change.read x.sql x.parameters).bind s.change with
    | none =>
      rw [hread] at hrun
      exact (Action.post_of_run_error hrun).mpr rfl
    | some t =>
      rw [hread] at hrun
      refine (Action.post_of_run_ok hrun).mpr ?_
      obtain ⟨c, hc, hchange⟩ := Option.bind_eq_some_iff.mp hread
      have hsql : x.sql = c.statement.sql := by simpa [eq_comm] using List.find?_some hc
      have hparameters := Change.parameters_of_mem_candidates (List.mem_of_find?_eq_some hc)
      rw [eq_statement hm hx hsql hparameters]
      exact takes_of_change hm hchange
  lastInsertId := by
    intro m hm _ s hs
    have hrun : (Connection.lastInsertId : Action Memory String).run s =
        match s.last with
        | some (ticket, _) => (.ok ticket.text, s)
        | none => (.error refusal, s) := rfl
    cases hlast : s.last with
    | none =>
      rw [hlast] at hrun
      exact (Action.post_of_run_error hrun).mpr rfl
    | some e =>
      rw [hlast] at hrun
      refine (Action.post_of_run_ok hrun).mpr ⟨rfl, fun f hf => ?_⟩
      have hcolumn : f.column = "id" := by
        simpa [hm.identifiers] using List.mem_map_of_mem (f := Schema.Field.column) hf
      rw [hm.types f hf, hcolumn, show s.database.last.2 "id" = .int e.1.id by
        simp [database, hlast, Users.record]]
      exact e.1.coerced
  begin _ := ⟨rfl, rfl⟩
  commit _ := rfl
  rollback _ := rfl

theorem fits_of_storages {y : Instance}
    (h : y.slots.map Slot.storage = [⟨.int64, true⟩, ⟨.text, false⟩]) : y.Fits userMetadata where
  suits := by
    intro f hf
    have hany : ∀ f ∈ userMetadata.fields, ([⟨.int64, true⟩, ⟨.text, false⟩] :
        List Storage)[f.accessor.slot]?.any (fun s => s.base.kind = f.type.kind) := by decide
    obtain ⟨storage, hstorage, hkind⟩ := (Option.any_eq_true ..).mp (hany f hf)
    rw [← h, List.getElem?_map] at hstorage
    obtain ⟨s, hs, rfl⟩ := Option.map_eq_some_iff.mp hstorage
    rw [decide_eq_true_eq] at hkind
    exact ⟨s, hs, hkind⟩

theorem exists_row {users : Users} {e : Int64 × Value} {key : IdentityKey} (he : e ∈ users.toList)
    (hkey : key.conditions userMetadata = [("id", .int e.1)]) :
    ∃ r, userMetadata.rowsUnder key (tables users) = {r} ∧
      r.Mirrors userMetadata [("id", .int e.1), ("name", e.2)] := by
  refine ⟨Users.record e, ?_, fun f hf => ?_⟩
  · rw [Metadata.rowsUnder, hkey, show userMetadata.fullTableName = "users" from rfl, tables_users,
      ← Users.sole_record aboutUsers_userMetadata he]
    refine Multiset.filter_congr fun r _ => ?_
    rw [Users.sameIdentity_iff aboutUsers_userMetadata]
    simp [Record.Meets, Users.record, eq_comm]
  · obtain ⟨hname, hcolumn⟩ | ⟨hname, hcolumn⟩ : (f.name = "id" ∧ f.column = "id") ∨
        f.name = "name" ∧ f.column = "name" := by
      revert f
      decide
    · rw [hname, hcolumn]
      rfl
    · rw [hname, hcolumn]
      rfl

theorem mirrored {w : UnitOfWork} {h : Heap} {users : Users}
    (hw : ∀ e ∈ w.tracked.toList, e.2.metadata = userMetadata ∧
      (h.content e.1).slots.map Slot.storage = [⟨.int64, true⟩, ⟨.text, false⟩] ∧
      (e.2.state ≠ .new → ∃ u ∈ users.toList,
        e.2.key.map (fun key => key.conditions userMetadata) = some [("id", .int u.1)] ∧
          e.2.snapshot = [("id", .int u.1), ("name", u.2)]))
    (hkeys : ∀ e ∈ w.tracked.toList, ∀ f ∈ w.tracked.toList, e.2.key = f.2.key →
      e.2.key.isSome → e.1 = f.1) : w.Mirrored h (tables users) := by
  have hmem (oid : Oid) (t : Tracked) (ht : w.tracked.get? oid = some t) :
      (oid, t) ∈ w.tracked.toList := (OrderedMap.get?_eq_some_iff ..).mp ht
  constructor
  case tables_distinct =>
    intro i j t u ht hu _
    rw [(hw _ (hmem i t ht)).1, (hw _ (hmem j u hu)).1]
  case columns_nodup =>
    intro oid t ht
    rw [(hw _ (hmem oid t ht)).1]
    decide
  case fits =>
    intro oid t ht
    obtain ⟨hmetadata, hslots, -⟩ := hw _ (hmem oid t ht)
    rw [hmetadata]
    exact fits_of_storages hslots
  case no_default =>
    intro oid t ht _ f hf hdefault
    have hnone : ∀ f ∈ userMetadata.fields, f.default = none := by decide
    rw [(hw _ (hmem oid t ht)).1] at hf
    simp [hnone f hf] at hdefault
  case keys_distinct =>
    intro i j key hi hj
    obtain ⟨t, ht, hkey⟩ := UnitOfWork.exists_of_keyOf hi
    obtain ⟨u, hu, hkey'⟩ := UnitOfWork.exists_of_keyOf hj
    exact hkeys _ (hmem i t ht) _ (hmem j u hu) (hkey.trans hkey'.symm) (by simp [hkey])
  case rows =>
    intro oid t key ⟨ht, hs, hkey⟩
    obtain ⟨hmetadata, -, hstored⟩ := hw _ (hmem oid t ht)
    obtain ⟨e, he, hconditions, hsnapshot⟩ := hstored (by rcases hs with hs | hs <;> simp [hs])
    simp only [hkey, Option.map_some, Option.some.injEq] at hconditions
    rw [hmetadata, hsnapshot]
    exact exists_row he hconditions

end Memory
end Persistence.Sample
