import Persistence.Proofs.Mirrored

/-!
Sending one row to a store. An insert, an update and a delete each move the place of their own
instance, to a record that mirrors the values of the instance or to none, and leave all else as it
was. Whether they succeed or fail, the transaction stays open and can still be rolled back.
-/

namespace Persistence

open Schema (Metadata Snapshot Field)

variable {σ : Type} [Connection σ] {classes : Metadata → Prop}

namespace Store

variable {db : Store σ classes} {s t u : Session σ}

def SameTransaction (db : Store σ classes) (s t : Session σ) : Prop :=
  s.SameNesting t ∧ (db.holds t).saved = (db.holds s).saved

theorem SameTransaction.refl (s : Session σ) : db.SameTransaction s s := ⟨⟨rfl, rfl⟩, rfl⟩

theorem SameTransaction.trans (h : db.SameTransaction s t) (h' : db.SameTransaction t u) :
    db.SameTransaction s u :=
  ⟨⟨h'.1.1.trans h.1.1, h'.1.2.trans h.1.2⟩, h'.2.trans h.2⟩

end Store

structure Written.InPlace (x : Written) (m : Metadata) (h : Heap) (r : Record) : Prop where
  values : h.values m x.oid = .ok x.snapshot
  mirrors : r.Mirrors m x.snapshot
  meets : r.Meets (x.key.conditions m)

theorem Written.InPlace.congr {x : Written} {m : Metadata} {h h' : Heap} {r : Record}
    (hx : x.InPlace m h r) (hobject : h'.object x.oid = h.object x.oid) : x.InPlace m h' r :=
  ⟨(Heap.values_congr hobject).trans hx.values, hx.mirrors, hx.meets⟩

namespace UnitOfWork

variable (db : Store σ classes) {w : UnitOfWork} {env : Environment σ} {places : Places}
  {oid : Oid} {t : Tracked} {m : Metadata} {key : IdentityKey} {r : Record}

structure Moved (places : Places) (oid : Oid) (place : Option Place) (env env' : Environment σ) :
    Prop where
  transaction : db.SameTransaction env.session env'.session
  objects : ∀ j, j ≠ oid → env'.heap.object j = env.heap.object j
  laid : Laid (places.set oid place) (db.holds env'.session).tables
  unclaimed : (places.set oid place).unclaimed (db.holds env'.session).tables =
    places.unclaimed (db.holds env.session).tables

theorem post_receive_store (hm : classes m)
    (hlast : (db.holds env.session).last = (m.fullTableName, r))
    (hfit : (env.heap.content oid).Fits m)
    (hown : m.generatesIdentity = true → m.IdentifiersApart)
    (hr : ∀ f ∈ m.fields, ¬ (m.generatesIdentity = true ∧ f.name ∈ m.identifiers) →
      r f.column = (env.heap.content oid).read f.accessor.slot) :
    (receive m oid).Post
      (fun _ env' => db.SameTransaction env.session env'.session ∧
        db.holds env'.session = db.holds env.session ∧
        (∀ j, j ≠ oid → env'.heap.object j = env.heap.object j) ∧
        (env'.heap.content oid).Fits m ∧
        r.Mirrors m (m.snapshotOf (env'.heap.content oid)))
      (fun _ env' => db.SameTransaction env.session env'.session) env := by
  rw [receive, Action.post_ite]
  refine ⟨fun hg => ?_, fun hg => ?_⟩
  · rw [Action.post_bind]
    have htable : (db.holds env.session).last.1 = m.fullTableName := by rw [hlast]
    refine (Environment.post_onSession (db.post_lastInsertId hm hg htable)).mono
      (fun id told htold => ?_) fun _ _ h => ⟨h.2.1, h.2.2⟩
    obtain ⟨hheap, hnesting, hsame, hid⟩ := htold
    have htransaction : db.SameTransaction env.session told.session := ⟨hnesting, by rw [hsame]⟩
    simp only [Environment.writeIdentifier_eq, Action.post_bind, Action.post_get,
      Action.post_liftExcept, Action.post_modify, hheap]
    refine ⟨fun h' hh' => ?_, fun _ _ => htransaction⟩
    obtain ⟨hobjects, hfit', f, hf, hids, hcoerce, hother⟩ := Heap.identify_eq_ok hg hfit hh'
    refine ⟨htransaction, hsame, hobjects, hfit', mirrors_snapshotOf_iff.mpr fun g hg' => ?_⟩
    have hidentifier := Metadata.mem_identifierFields.mpr ⟨hf, by simp [hids]⟩
    by_cases hname : g.name = f.name
    · -- the database tells the identifier that it has stored
      obtain rfl := eq_of_key_eq m.fieldNames_nodup hg' hf hname
      have hstored := hid g hidentifier
      rw [hlast, hcoerce] at hstored
      exact (Except.ok.inj hstored).symm
    · rw [hother _ fun hslot => hname (by rw [hown hg f hidentifier g hg' hslot])]
      exact hr g hg' fun h => hname (by simpa [hids] using h.2)
  · refine ⟨.refl _, rfl, fun _ _ => rfl, hfit, mirrors_snapshotOf_iff.mpr fun f hf => ?_⟩
    exact hr f hf fun h => hg h.1

omit [Connection σ] in
theorem statement_insert_eq {h : Heap} {x : Sql.Statement} (hw : w.tracked.get? oid = some t)
    (hx : w.statement h (.insert oid) = .ok x) :
    x = .insert t.metadata.fullTableName
      (t.metadata.insertValues (t.metadata.snapshotOf (h.content oid))) := by
  simp only [statement, require_eq_ok.mpr hw, bind, Except.bind] at hx
  split at hx
  · simp at hx
  · rename_i values hv
    rw [← Except.ok.inj hx, Heap.values_eq hv]

omit [Connection σ] in
theorem statement_update_eq {h : Heap} {u : PendingUpdate} {x : Sql.Statement}
    (hw : w.tracked.get? u.oid = some t) (hkey : t.key = some key)
    (hx : w.statement h (.update u) = .ok x) :
    x = .update t.metadata.fullTableName (t.metadata.assignments u.changes)
      (key.conditions t.metadata) := by
  simp only [statement, require_eq_ok.mpr hw, Tracked.rowKey, hkey, bind, Except.bind] at hx
  exact (Except.ok.inj hx).symm

omit [Connection σ] in
theorem statement_delete_eq {h : Heap} {x : Sql.Statement} (hw : w.tracked.get? oid = some t)
    (hkey : t.key = some key) (hx : w.statement h (.delete oid) = .ok x) :
    x = .delete t.metadata.fullTableName (key.conditions t.metadata) := by
  simp only [statement, require_eq_ok.mpr hw, Tracked.rowKey, hkey, bind, Except.bind] at hx
  exact (Except.ok.inj hx).symm

variable (hm : classes t.metadata) (laid : Laid places (db.holds env.session).tables)
  (hclass : ∀ j q, places j = some q → q.table = t.metadata.fullTableName →
    q.metadata = t.metadata)

include hm laid hclass

theorem post_send_insert (hw : w.tracked.get? oid = some t) (hplace : places oid = none)
    (hfit : (env.heap.content oid).Fits t.metadata)
    (hown : t.metadata.generatesIdentity = true → t.metadata.IdentifiersApart)
    (hdefault : ∀ f ∈ t.metadata.fields, f.default.isSome →
      (env.heap.content oid).read f.accessor.slot ≠ .null) :
    (w.send (.insert oid)).Post
      (fun xs env' => ∃ x r, xs = [x] ∧ x.oid = oid ∧
        Moved db places oid (some ⟨t.metadata, r⟩) env env' ∧ x.InPlace t.metadata env'.heap r)
      (fun _ env' => db.SameTransaction env.session env'.session) env := by
  simp only [send, Action.post_bind, Action.post_get, Action.post_liftExcept, Action.post_discard]
  refine ⟨fun x hx => ?_, fun _ _ => .refl _⟩
  obtain rfl := statement_insert_eq hw hx
  have hcolumns : ((t.metadata.insertValues (t.metadata.snapshotOf (env.heap.content oid))).map
      Prod.fst) = t.metadata.insertedColumns := by
    rw [Metadata.insertValues, List.map_map]
    rfl
  refine (Environment.post_onSession (db.post_execute hm (.insert hcolumns))).mono
    (fun _ taken htaken => ?_) fun _ _ h => ⟨h.2.1, h.2.2⟩
  obtain ⟨hheap, hnesting, htakes⟩ := htaken
  obtain ⟨r, hr, hlast, hsaved, hlaid, hunclaimed⟩ := laid.insert hclass hplace htakes
  have htransaction : db.SameTransaction env.session taken.session := ⟨hnesting, hsaved⟩
  simp only [conclude, Action.post_bind, Action.post_get, Action.post_liftExcept,
    Action.post_pure, require_eq_ok.mpr hw, Except.ok.injEq, forall_eq', reduceCtorEq,
    false_implies, implies_true, and_true]
  refine (post_receive_store db hm hlast (by rwa [hheap]) hown fun f hf hwritten => ?_).mono
    (fun _ received hreceived => ?_) fun _ _ h => htransaction.trans h
  · rw [hheap]
    exact eq_of_meets_insertValues hdefault hr hf hwritten
  obtain ⟨htransaction', hsame, hobjects, hfit', hmirrors⟩ := hreceived
  refine ⟨fun x hx => ?_, fun _ _ => htransaction.trans htransaction'⟩
  obtain ⟨rfl, hv, hkey, -⟩ := settle_eq_ok_iff.mp hx
  have hsnapshot := Heap.values_eq hv
  refine ⟨x, r, rfl, rfl, ⟨htransaction.trans htransaction', ?_, ?_, ?_⟩, hv, ?_, ?_⟩
  · intro j hj
    rw [hobjects j hj, hheap]
  · rwa [hsame]
  · rwa [hsame]
  · rwa [hsnapshot]
  · rw [hsnapshot] at hkey
    exact hfit'.meets hmirrors hkey

theorem post_send_update {u : PendingUpdate} (hw : w.tracked.get? u.oid = some t)
    (hkey : t.key = some key) (hplace : places u.oid = some ⟨t.metadata, r⟩)
    (hmeets : r.Meets (key.conditions t.metadata)) (hmirrors : r.Mirrors t.metadata t.snapshot)
    (hcolumns : t.metadata.columns.Nodup) (hfit : (env.heap.content u.oid).Fits t.metadata)
    (hcurrent : env.heap.values t.metadata u.oid = .ok u.current)
    (hchanges : u.changes = changedFields t.snapshot u.current) (hne : u.changes ≠ []) :
    (w.send (.update u)).Post
      (fun xs env' => ∃ x r, xs = [x] ∧ x.oid = u.oid ∧
        Moved db places u.oid (some ⟨t.metadata, r⟩) env env' ∧ x.InPlace t.metadata env'.heap r)
      (fun _ env' => db.SameTransaction env.session env'.session) env := by
  have hvalues := Heap.values_eq hcurrent
  rw [hvalues] at hchanges
  simp only [send, Action.post_bind, Action.post_get, Action.post_liftExcept, Action.post_discard]
  refine ⟨fun x hx => ?_, fun _ _ => .refl _⟩
  obtain rfl := statement_update_eq hw hkey hx
  have hconcerns : Sql.Statement.Concerns t.metadata (.update t.metadata.fullTableName
      (t.metadata.assignments u.changes) (key.conditions t.metadata)) := by
    rw [hchanges] at hne ⊢
    exact .update (assignments_ne_nil hne) (assignments_sublist _ _) (key.map_fst_conditions _)
  refine (Environment.post_onSession (db.post_execute hm hconcerns)).mono
    (fun _ taken htaken => ?_) fun _ _ h => ⟨h.2.1, h.2.2⟩
  obtain ⟨hheap, hnesting, htakes⟩ := htaken
  obtain ⟨hsaved, hlaid, hunclaimed⟩ :=
    laid.update hclass hplace (key.map_fst_conditions _) hmeets htakes
  have hmirrors' : (r.assign (t.metadata.assignments u.changes)).Mirrors t.metadata u.current := by
    rw [hchanges, hvalues]
    exact mirrors_assign hcolumns hmirrors
  simp only [conclude, Action.post_bind, Action.post_liftExcept, Action.post_pure,
    require_eq_ok.mpr hw, Except.ok.injEq, forall_eq', reduceCtorEq, false_implies, implies_true,
    and_true]
  refine ⟨fun k hk => ?_, fun _ _ => ⟨hnesting, hsaved⟩⟩
  refine ⟨_, _, rfl, rfl, ⟨⟨hnesting, hsaved⟩, fun j _ => by rw [hheap], hlaid, hunclaimed⟩,
    by rwa [hheap], hmirrors', ?_⟩
  rw [hvalues] at hmirrors' hk
  exact hfit.meets hmirrors' hk

theorem post_send_delete (hw : w.tracked.get? oid = some t) (hkey : t.key = some key)
    (hplace : places oid = some ⟨t.metadata, r⟩) (hmeets : r.Meets (key.conditions t.metadata)) :
    (w.send (.delete oid)).Post
      (fun xs env' => xs = [] ∧ Moved db places oid none env env' ∧
        (∀ table, (db.holds env'.session).tables table ⊆ (db.holds env.session).tables table) ∧
        ∀ s ∈ (db.holds env'.session).tables t.metadata.fullTableName,
          ¬ s.Meets (key.conditions t.metadata))
      (fun _ env' => db.SameTransaction env.session env'.session) env := by
  simp only [send, Action.post_bind, Action.post_get, Action.post_liftExcept, Action.post_discard]
  refine ⟨fun x hx => ?_, fun _ _ => .refl _⟩
  obtain rfl := statement_delete_eq hw hkey hx
  refine (Environment.post_onSession
    (db.post_execute hm (.delete (key.map_fst_conditions _)))).mono
    (fun _ taken htaken => ?_) fun _ _ h => ⟨h.2.1, h.2.2⟩
  obtain ⟨hheap, hnesting, htakes⟩ := htaken
  obtain ⟨hsaved, hlaid, hunclaimed, hsubset, hgone⟩ :=
    laid.delete hclass hplace (key.map_fst_conditions _) hmeets htakes
  simp only [conclude, Action.post_pure]
  exact ⟨trivial, ⟨⟨hnesting, hsaved⟩, fun j _ => by rw [hheap], hlaid, hunclaimed⟩, hsubset, hgone⟩

end UnitOfWork
end Persistence
