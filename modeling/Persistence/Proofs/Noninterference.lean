import Persistence.Proofs.Alignment
import Persistence.Proofs.Binding
import Persistence.Proofs.Memoization
import Persistence.Proofs.Plans
import Persistence.Proofs.Script
import Persistence.Proofs.Stability

/-!
Values and texts. The text of a statement tells which columns are written and which are compared
with null, and nothing else of the values. So requests that differ in values only send the same
texts, as far as both of them get.
-/

namespace Persistence

open Schema (Field Metadata Registry)
open Sql (Aggregate Direction Filter Select Statement)

def shape (es : List (String × Value)) : List (String × Bool) :=
  es.map fun e => (e.1, decide (e.2 = .null))

namespace Sql

theorem Filter.written_congr {f f' : Filter} (h : shape f = shape f') :
    Filter.written (fun _ => "?") f = Filter.written (fun _ => "?") f' := by
  have hconditions (f : Filter) : (f.map fun e => e.1 ++ if e.2 = .null then " IS NULL" else " = " ++ "?") =
      (shape f).map fun e => e.1 ++ if e.2 then " IS NULL" else " = " ++ "?" := by
    simp [shape]
  have hnil (f : Filter) : f = [] ↔ shape f = [] := by simp [shape]
  simp only [Filter.written, hconditions, hnil, h]

theorem sql_select_congr {f f' : Filter} (q : Select) (h : shape f = shape f') :
    (Statement.select { q with filter := f }).sql = (Statement.select { q with filter := f' }).sql := by
  rw [Statement.sql_eq_written, Statement.sql_eq_written]
  unfold Statement.written
  simp only [Filter.written_congr h]

end Sql

theorem Repository.filter_eq {md : Metadata} {criteria : Criteria} {f : Filter}
    (hf : Repository.filter md criteria = .ok f) :
    f = criteria.toList.map fun e => ((md.column? e.1).getD "", e.2) := by
  suffices h : List.Forall₂ Eq f (criteria.toList.map fun e => ((md.column? e.1).getD "", e.2)) by
    rwa [List.forall₂_eq_eq_eq] at h
  rw [List.forall₂_map_right_iff]
  refine (ObjectQuery.Compiled.mapM_eq_ok_iff.mp hf).flip.imp fun x e he => ?_
  cases hcolumn : md.column? e.1 with
  | none => simp [Repository.column, hcolumn, bind, Except.bind] at he
  | some c =>
    simp only [Repository.column, hcolumn, bind, Except.bind, pure, Except.pure, Except.ok.injEq] at he
    rw [← he, Option.getD_some]

theorem IdentityKey.shape_conditions {md : Metadata} {key : IdentityKey} (hfull : key.Full)
    (hkey : key.Belongs md) :
    shape (key.conditions md) = md.identifierFields.map fun f => (f.column, false) := by
  obtain ⟨-, hnull⟩ := hfull.place hkey
  rw [← md.conditions_eq_place] at hnull
  rw [shape, IdentityKey.conditions, List.map_map]
  refine List.map_congr_left fun f hf => ?_
  have hne := hnull _ (List.mem_map_of_mem hf)
  simpa using hne

namespace Manager

def Conditions.Alike (c c' : Conditions) : Prop :=
  ∀ md f f', c md = .ok f → c' md = .ok f' → shape f = shape f'

namespace Conditions

theorem alike_ofIdentifier (id id' : Identifier) : (ofIdentifier id).Alike (ofIdentifier id') := by
  have hshape {md : Metadata} {id : Identifier} {f : Filter} (hf : ofIdentifier id md = .ok f) :
      shape f = md.identifierFields.map fun f => (f.column, false) := by
    rw [ofIdentifier] at hf
    cases hkey : IdentityKey.ofIdentifier md id with
    | error e => simp [hkey, bind, Except.bind] at hf
    | ok key =>
      simp only [hkey, bind, Except.bind, pure, Except.pure, Except.ok.injEq] at hf
      rw [← hf]
      exact IdentityKey.shape_conditions (IdentityKey.full_of_ofIdentifier hkey)
        (IdentityKey.belongs_of_ofIdentifier hkey)
  intro md f f' hf hf'
  rw [hshape hf, hshape hf']

theorem alike_ofCriteria {c c' : Criteria} (h : shape c.toList = shape c'.toList) :
    (ofCriteria c).Alike (ofCriteria c') := by
  have hshape {md : Metadata} {c : Criteria} {f : Filter} (hf : ofCriteria c md = .ok f) :
      shape f = (shape c.toList).map fun e => ((md.column? e.1).getD "", e.2) := by
    rw [Repository.filter_eq hf, shape, shape, List.map_map, List.map_map]
    rfl
  intro md f f' hf hf'
  rw [hshape hf, hshape hf', h]

end Conditions

end Manager

def Call.statement? : Call → Option Call
  | .query sql _ => some (.query sql [])
  | .update sql _ => some (.update sql [])
  | .lastInsertId | .begin | .commit | .rollback => none

/-- The statements among calls in order, without their parameters. -/
def statements (calls : List Call) : List Call := calls.filterMap Call.statement?

theorem statements_cons (c : Call) (cs : List Call) :
    statements (c :: cs) = c.statement?.toList ++ statements cs := by
  rw [statements, List.filterMap_cons]
  cases c.statement? <;> rfl

theorem statements_works (made : List CallRecord) :
    statements (works made) = statements (made.map CallRecord.call) := by
  induction made with
  | nil => rfl
  | cons c made ih =>
    obtain ⟨call, failure⟩ := c
    rw [List.map_cons, statements_cons, ← ih, works, List.filter_cons]
    cases call <;> rfl

theorem statements_append (cs cs' : List Call) :
    statements (cs ++ cs') = statements cs ++ statements cs' := List.filterMap_append

theorem statements_flatMap {α : Type} (xs : List α) (g : α → List Call) :
    statements (xs.flatMap g) = xs.flatMap fun x => statements (g x) := List.filterMap_flatMap

def SameStatements (cs cs' : List Call) : Prop :=
  statements cs <+: statements cs' ∨ statements cs' <+: statements cs

theorem sameStatements_of_eq {cs cs' : List Call} (h : statements cs = statements cs') :
    SameStatements cs cs' := .inl (h ▸ List.prefix_refl _)

theorem SameStatements.of_prefix {cs cs' ds ds' : List Call} (h : SameStatements cs cs')
    (hd : ds <+: cs) (hd' : ds' <+: cs') : SameStatements ds ds' := by
  have hd := hd.filterMap Call.statement?
  have hd' := hd'.filterMap Call.statement?
  rcases h with h | h
  · exact List.prefix_or_prefix_of_prefix (hd.trans h) hd'
  · exact List.prefix_or_prefix_of_prefix hd (hd'.trans h)

theorem SameStatements.eq_of_getElem? {cs cs' : List Call} (h : SameStatements cs cs') {k : Nat}
    {c c' : Call} (hc : (statements cs)[k]? = some c) (hc' : (statements cs')[k]? = some c') :
    c = c' := by
  obtain ⟨hk, hc⟩ := List.getElem?_eq_some_iff.mp hc
  obtain ⟨hk', hc'⟩ := List.getElem?_eq_some_iff.mp hc'
  rw [← hc, ← hc']
  exact h.elim (fun h => h.getElem hk) fun h => (h.getElem hk').symm

namespace Call

variable {es es' cs cs' : List (String × Value)}

theorem equalities_eq (separator : String) (es : List (String × Value)) :
    equalities separator es = separator.intercalate ((es.map Prod.fst).map fun c => c ++ " = ?") := by
  rw [equalities, List.map_map]
  rfl

theorem statement?_insert (table : String) (h : es.map Prod.fst = es'.map Prod.fst) :
    (insert table es).statement? = (insert table es').statement? := by
  have hmarks (es : List (String × Value)) :
      (es.map fun _ => "?") = (es.map Prod.fst).map fun _ => "?" := by
    rw [List.map_map]
    rfl
  have hnil (es : List (String × Value)) : es = [] ↔ es.map Prod.fst = [] := by simp
  simp only [insert, statement?, hmarks, hnil, h]

theorem statement?_assign (table : String) (h : es.map Prod.fst = es'.map Prod.fst)
    (hc : cs.map Prod.fst = cs'.map Prod.fst) :
    (assign table es cs).statement? = (assign table es' cs').statement? := by
  simp only [assign, statement?, equalities_eq, h, hc]

theorem statement?_delete (table : String) (h : es.map Prod.fst = es'.map Prod.fst) :
    (delete table es).statement? = (delete table es').statement? := by
  simp only [delete, statement?, equalities_eq, h]

end Call

namespace Tracked

def Changed (t : Tracked) (x : Instance) (f : Field) : Prop :=
  lookupEntry f.name t.snapshot ≠ some (x.read f.accessor.slot)

instance (t : Tracked) (x : Instance) (f : Field) : Decidable (t.Changed x f) :=
  inferInstanceAs (Decidable (_ ≠ _))

structure Alike (t t' : Tracked) (x x' : Instance) : Prop where
  metadata : t'.metadata = t.metadata
  state : t'.state = t.state
  changed : t.state = .managed → ∀ f ∈ t.metadata.fields, (t'.Changed x' f ↔ t.Changed x f)

variable {t t' : Tracked} {x x' : Instance}

theorem Alike.insertion (h : t.Alike t' x x') :
    statements (t'.insertion x') = statements (t.insertion x) := by
  rw [Tracked.insertion, Tracked.insertion, h.metadata, statements_cons, statements_cons]
  congr 2
  refine Call.statement?_insert _ ?_
  simp

theorem Alike.alteration (h : t.Alike t' x x') (key key' : IdentityKey) :
    statements (t'.alteration key' x') = statements (t.alteration key x) := by
  by_cases hs : t.state = .managed
  swap
  · simp [Tracked.alteration, h.state, hs]
  have hchanged : (t.metadata.fields.filter fun f =>
      lookupEntry f.name t'.snapshot ≠ some (x'.read f.accessor.slot)) =
      t.metadata.fields.filter fun f =>
        lookupEntry f.name t.snapshot ≠ some (x.read f.accessor.slot) :=
    List.filter_congr fun f hf => decide_eq_decide.mpr (h.changed hs f hf)
  rw [Tracked.alteration, Tracked.alteration, h.metadata, h.state]
  simp only [hchanged]
  split
  · rw [statements_cons, statements_cons]
    congr 2
    refine Call.statement?_assign _ ?_ ?_
    · simp
    · simp [Metadata.place]
  · rfl

theorem Alike.deletion (h : t.Alike t' x x') (key key' : IdentityKey) :
    statements (t'.deletion key') = statements (t.deletion key) := by
  rw [Tracked.deletion, Tracked.deletion, h.metadata, statements_cons, statements_cons]
  congr 2
  refine Call.statement?_delete _ ?_
  simp [Metadata.place]

end Tracked

namespace UnitOfWork

structure Alike (w w' : UnitOfWork) (h h' : Heap) : Prop where
  tracked : w'.tracked.keys = w.tracked.keys
  insertions : w'.insertions = w.insertions
  deletions : w'.deletions = w.deletions
  each : ∀ oid t t', w.tracked.get? oid = some t → w'.tracked.get? oid = some t' →
    t.Alike t' (h.content oid) (h'.content oid)

variable {w w' : UnitOfWork} {h h' : Heap}

def callsOf (w : UnitOfWork) (calls : Oid → Tracked → List Call) (oids : List Oid) : List Call :=
  oids.flatMap fun oid => (w.tracked.get? oid).elim [] (calls oid)

theorem Alike.statements_callsOf (ha : w.Alike w' h h') {calls calls' : Oid → Tracked → List Call}
    (hcalls : ∀ oid t t', t.Alike t' (h.content oid) (h'.content oid) →
      statements (calls' oid t') = statements (calls oid t)) (oids : List Oid) :
    statements (w'.callsOf calls' oids) = statements (w.callsOf calls oids) := by
  rw [callsOf, callsOf, statements_flatMap, statements_flatMap]
  refine List.flatMap_congr fun oid _ => ?_
  have hsome : (w'.tracked.get? oid).isSome = (w.tracked.get? oid).isSome := by
    rw [Bool.eq_iff_iff, OrderedMap.get?_isSome_iff, OrderedMap.get?_isSome_iff, ha.tracked]
  cases ht : w.tracked.get? oid with
  | none =>
    rw [ht, Option.isSome_none, Option.isSome_eq_false_iff, Option.isNone_iff_eq_none] at hsome
    rw [hsome]
    rfl
  | some t =>
    rw [ht, Option.isSome_some] at hsome
    obtain ⟨t', ht'⟩ := Option.isSome_iff_exists.mp hsome
    rw [ht']
    exact hcalls oid t t' (ha.each oid t t' ht ht')

theorem changes_eq (w : UnitOfWork) (h : Heap) (address : Oid → IdentityKey) : w.changes h address =
    w.callsOf (fun oid t => t.insertion (h.content oid)) w.insertions ++
      w.callsOf (fun oid t => t.alteration (address oid) (h.content oid)) w.tracked.keys ++
      w.callsOf (fun oid t => t.deletion (address oid)) w.deletions := by
  have htracked : (w.tracked.toList.flatMap fun e => e.2.alteration (address e.1) (h.content e.1)) =
      w.callsOf (fun oid t => t.alteration (address oid) (h.content oid)) w.tracked.keys := by
    rw [callsOf, OrderedMap.keys, List.flatMap_map]
    refine List.flatMap_congr fun e he => ?_
    rw [(w.tracked.get?_eq_some_iff e.1 e.2).mpr he]
    rfl
  rw [← htracked]
  rfl

theorem Alike.statements_changes (ha : w.Alike w' h h') (address address' : Oid → IdentityKey) :
    statements (w'.changes h' address') = statements (w.changes h address) := by
  simp only [changes_eq, statements_append]
  rw [ha.insertions, ha.deletions, ha.tracked,
    ha.statements_callsOf (fun _ _ _ h => h.insertion),
    ha.statements_callsOf (fun oid _ _ h => h.alteration (address oid) (address' oid)),
    ha.statements_callsOf (fun oid _ _ h => h.deletion (address oid) (address' oid))]

end UnitOfWork

namespace Manager

/-- The same classes are mapped in the same way, and what is tracked is the same but for values. The
connections may be any. -/
structure Alike {σ σ' : Type} (m : Manager σ) (m' : Manager σ') : Prop where
  mappings : m.registry.mappings = m'.registry.mappings
  work : m.work.Alike m'.work m.heap m'.heap

/-- Requests that send statements, which differ in identifiers and in values of criteria that are
null in neither or in both. -/
inductive Request.Alike : Request → Request → Prop
  | find (type : EntityType) (id id' : Identifier) : Alike (.find type id) (.find type id')
  | findBy (type : EntityType) {c c' : Criteria} (order : List (String × Direction))
      (limit offset : Option Nat) : shape c.toList = shape c'.toList →
      Alike (.inquire (.findBy type c order limit offset))
        (.inquire (.findBy type c' order limit offset))
  | findOneBy (type : EntityType) {c c' : Criteria} : shape c.toList = shape c'.toList →
      Alike (.inquire (.findOneBy type c)) (.inquire (.findOneBy type c'))
  | count (type : EntityType) {c c' : Criteria} : shape c.toList = shape c'.toList →
      Alike (.inquire (.count type c)) (.inquire (.count type c'))
  | exists? (type : EntityType) {c c' : Criteria} : shape c.toList = shape c'.toList →
      Alike (.inquire (.exists? type c)) (.inquire (.exists? type c'))
  | aggregate (type : EntityType) (a : Aggregate) (field : String) {c c' : Criteria} :
      shape c.toList = shape c'.toList →
      Alike (.inquire (.aggregate type a field c)) (.inquire (.aggregate type a field c'))
  | flush : Alike .flush .flush

variable {σ σ' α α' : Type} {m : Manager (Recorded σ)} {m' : Manager (Recorded σ')}
  {type : EntityType} {frame : Frame} {conditions conditions' : Conditions} {q q' : Request}

theorem sameStatements_planned (hview : m.registry.view = m'.registry.view)
    (hc : conditions.Alike conditions') :
    SameStatements (planned m type frame conditions) (planned m' type frame conditions') := by
  have hnone (cs : List Call) : SameStatements [] cs ∧ SameStatements cs [] :=
    ⟨.inl List.nil_prefix, .inr List.nil_prefix⟩
  rw [planned, planned, ← hview]
  cases m.registry.view type.className with
  | error e => exact (hnone _).1
  | ok md =>
    dsimp only
    cases frame md with
    | error e => exact (hnone _).1
    | ok s =>
      cases hf : conditions md with
      | error e => exact (hnone _).1
      | ok f =>
        cases hf' : conditions' md with
        | error e => exact (hnone _).2
        | ok f' =>
          refine sameStatements_of_eq ?_
          rw [statements_cons, statements_cons, ask, ask, Call.statement?, Call.statement?,
            Sql.sql_select_congr s (hc md f f' hf hf')]

def SendSame (m t : Manager (Recorded σ)) (m' t' : Manager (Recorded σ')) : Prop :=
  ∃ made made', t.session.connection.calls = m.session.connection.calls ++ made ∧
    t'.session.connection.calls = m'.session.connection.calls ++ made' ∧
    SameStatements (works made) (works made')

theorem Makes.sendSame {t : Manager (Recorded σ)} {t' : Manager (Recorded σ')}
    {script script' : List Call} (h : Makes script m t) (h' : Makes script' m' t')
    (hs : SameStatements script script') : SendSame m t m' t' := by
  obtain ⟨made, hmade, hprefix⟩ := h
  obtain ⟨made', hmade', hprefix'⟩ := h'
  exact ⟨made, made', hmade, hmade', hs.of_prefix hprefix hprefix'⟩

theorem KeepsTo.sendSame {a : ManagerM (Recorded σ) α} {a' : ManagerM (Recorded σ') α'}
    (h : KeepsTo type frame conditions a) (h' : KeepsTo type frame conditions' a')
    (hview : m.registry.view = m'.registry.view) (hc : conditions.Alike conditions') :
    SendSame m ((discard a).run m).2 m' ((discard a').run m').2 := by
  rw [Action.state_discard, Action.state_discard]
  exact (h m).sendSame (h' m') (sameStatements_planned hview hc)

variable [Connection σ] [Connection σ']

theorem makes_flush (h : m.work.Consistent) :
    Makes (m.work.script m.heap) m (flush.run m).2 := by
  obtain ⟨made, hmade, hprefix, -⟩ := flush_makes h (Prod.eta (flush.run m)).symm
  exact ⟨made, hmade, hprefix⟩

theorem sameStatements_script (h : Reachable anyOperation m) (h' : Reachable anyOperation m')
    (hm : m.Alike m') : SameStatements (m.work.script m.heap) (m'.work.script m'.heap) := by
  obtain ⟨address, -, haddress⟩ := exists_address h
  obtain ⟨address', -, haddress'⟩ := exists_address h'
  rw [UnitOfWork.script_eq_changes h.consistent haddress,
    UnitOfWork.script_eq_changes h'.consistent haddress']
  exact sameStatements_of_eq (hm.work.statements_changes address address').symm

theorem Request.Alike.sendSame (hq : q.Alike q') (h : Reachable anyOperation m)
    (h' : Reachable anyOperation m') (hm : m.Alike m') :
    SendSame m (q.run.run m).2 m' (q'.run.run m').2 := by
  have hview : m.registry.view = m'.registry.view :=
    Registry.view_congr h.described.1 h'.described.1 hm.mappings
  cases hq with
  | find type id id' =>
    exact (keepsTo_find id).sendSame (keepsTo_find id') hview
      (Conditions.alike_ofIdentifier id id')
  | findBy type order limit offset hc =>
    exact (keepsTo_findBy _ order limit offset).sendSame (keepsTo_findBy _ order limit offset)
      hview (Conditions.alike_ofCriteria hc)
  | findOneBy type hc =>
    exact (keepsTo_findOneBy _).sendSame (keepsTo_findOneBy _) hview
      (Conditions.alike_ofCriteria hc)
  | count type hc =>
    exact (keepsTo_count _).sendSame (keepsTo_count _) hview (Conditions.alike_ofCriteria hc)
  | exists? type hc =>
    exact (keepsTo_exists _).sendSame (keepsTo_exists _) hview (Conditions.alike_ofCriteria hc)
  | aggregate type a field hc =>
    exact (keepsTo_aggregate a field _).sendSame (keepsTo_aggregate a field _) hview
      (Conditions.alike_ofCriteria hc)
  | flush =>
    exact (makes_flush h.consistent).sendSame (makes_flush h'.consistent)
      (sameStatements_script h h' hm)

/-- Two runs of a request that differ in values only, in those of its arguments and in those of the
instances, send the same statements as far as both of them get: their texts are the same one by one,
and only the parameters may differ. -/
theorem same_statements_of_alike (h : Reachable anyOperation m) (h' : Reachable anyOperation m')
    (hm : m.Alike m') (hq : q.Alike q') :
    ∃ made made', (q.run.run m).2.session.connection.calls = m.session.connection.calls ++ made ∧
      (q'.run.run m').2.session.connection.calls = m'.session.connection.calls ++ made' ∧
      ∀ (k : Nat) (c c' : Call), (statements (made.map CallRecord.call))[k]? = some c →
        (statements (made'.map CallRecord.call))[k]? = some c' → c = c' := by
  obtain ⟨made, made', hmade, hmade', hsame⟩ := hq.sendSame h h' hm
  refine ⟨made, made', hmade, hmade', fun k c c' hc hc' => ?_⟩
  rw [← statements_works] at hc hc'
  exact hsame.eq_of_getElem? hc hc'

section Samples

open Sample

def crew (newcomer renamed : String) (id : Int64) : Manager (Recorded Scripted) :=
  let start := manager [userObject none newcomer]
    { inner := ⟨[[userRow (.int id) "Bob"], [userRow (.int 3) "Cy"]], false⟩ }
  let loaded := (Operation.find user (.scalar (.int 3))).after
    ((Operation.find user (.scalar (.int id))).after start)
  let edited :=
    (Operation.edit (loaded.heap.put ⟨1⟩ ⟨user, userSlots (some id) renamed⟩)).after loaded
  (Operation.remove ⟨2⟩).after ((Operation.persist ⟨0⟩).after edited)

theorem reachable_crew (newcomer renamed : String) (id : Int64) :
    Reachable anyOperation (crew newcomer renamed id) := by
  have built : Reachable anyOperation (Sample.manager [userObject none newcomer]
      ({ inner := ⟨[[userRow (.int id) "Bob"], [userRow (.int 3) "Cy"]], false⟩ } :
        Recorded Scripted)) := .built (build_manager ..)
  exact built.run (((((Runs.done _).operation (.find _ _) trivial).operation (.find _ _)
    trivial).operation (.edit _) trivial).operation (.persist ⟨0⟩) trivial |>.operation
    (.remove ⟨2⟩) trivial)

def plainCrew : Manager (Recorded Scripted) := crew "Ann" "Bea" 2

def slyCrew : Manager (Recorded Scripted) := crew "'); DROP TABLE users; --" "? WHERE 1 = 1" (-7)

theorem mappings_crew (newcomer renamed : String) (id : Int64) :
    (crew newcomer renamed id).registry.mappings =
      (Schema.Registry.empty.register "User" userMapping).mappings := by
  have hafter (op : Operation) (m : Manager (Recorded Scripted)) :
      (op.after m).registry.mappings = m.registry.mappings := (op.within_run m).mappings
  rw [crew]
  simp only [hafter]
  rfl

theorem alike_crews : plainCrew.Alike slyCrew := by
  have hall : plainCrew.work.tracked.toList.all (fun e =>
      (slyCrew.work.tracked.get? e.1).all fun t => decide (t.metadata = e.2.metadata ∧
        t.state = e.2.state ∧ ∀ f ∈ e.2.metadata.fields,
          (t.Changed (slyCrew.heap.content e.1) f ↔
            e.2.Changed (plainCrew.heap.content e.1) f))) = true := by
    decide +kernel
  have hkeys : slyCrew.work.tracked.keys = plainCrew.work.tracked.keys := by decide +kernel
  refine ⟨(mappings_crew _ _ _).trans (mappings_crew _ _ _).symm, hkeys, by decide +kernel,
    by decide +kernel, fun oid t t' ht ht' => ?_⟩
  have h := List.all_eq_true.mp hall _ ((plainCrew.work.tracked.get?_eq_some_iff oid t).mp ht)
  rw [ht', Option.all_some] at h
  obtain ⟨hmetadata, hstate, hchanged⟩ := of_decide_eq_true h
  exact ⟨hmetadata, hstate, fun _ => hchanged⟩

theorem same_statements_of_alike_crews : plainCrew.Alike slyCrew ∧ ∃ made made',
    (flush.run plainCrew).2.session.connection.calls =
      plainCrew.session.connection.calls ++ made ∧
    (flush.run slyCrew).2.session.connection.calls = slyCrew.session.connection.calls ++ made' ∧
    works made = [.update "INSERT INTO users (name) VALUES (?)" [.text "Ann"], .lastInsertId,
      .update "UPDATE users SET name = ? WHERE id = ?" [.text "Bea", .int 2],
      .update "DELETE FROM users WHERE id = ?" [.int 3]] ∧
    works made' = [.update "INSERT INTO users (name) VALUES (?)" [.text "'); DROP TABLE users; --"],
      .lastInsertId, .update "UPDATE users SET name = ? WHERE id = ?" [.text "? WHERE 1 = 1", .int (-7)],
      .update "DELETE FROM users WHERE id = ?" [.int 3]] ∧
    ∀ (k : Nat) (c c' : Call), (statements (made.map CallRecord.call))[k]? = some c →
      (statements (made'.map CallRecord.call))[k]? = some c' → c = c' := by
  have hreachable : Reachable anyOperation plainCrew := reachable_crew _ _ _
  have hreachable' : Reachable anyOperation slyCrew := reachable_crew _ _ _
  obtain ⟨made, made', hmade, hmade', hsame⟩ :=
    same_statements_of_alike hreachable hreachable' alike_crews .flush
  have hplain : made = (Request.flush.run.run plainCrew).2.session.connection.calls.drop
      plainCrew.session.connection.calls.length := by rw [hmade, List.drop_left]
  have hsly : made' = (Request.flush.run.run slyCrew).2.session.connection.calls.drop
      slyCrew.session.connection.calls.length := by rw [hmade', List.drop_left]
  refine ⟨alike_crews, made, made', hmade, hmade', ?_, ?_, hsame⟩
  · rw [hplain]
    decide +kernel
  · rw [hsly]
    decide +kernel

end Samples

end Manager
end Persistence
