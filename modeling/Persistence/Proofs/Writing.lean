import Persistence.Proofs.Consistency
import Persistence.Proofs.Postcondition

/-!
What a flush writes: which instances it takes, and under which keys. The instances are the waiting
ones and the changed managed ones, each once, and each is written under the key of the values it
has been written with.
-/

namespace Persistence

open Schema (Metadata Snapshot)
open Persistence.Action (post_of_forall post_mapM)

variable {σ : Type} [Connection σ]

namespace Heap

def values (h : Heap) (m : Metadata) (oid : Oid) : Except Error Snapshot := do
  let x ← h.toRead oid
  m.extract x

def identify (h : Heap) (m : Metadata) (oid : Oid) (id : String) : Except Error Heap := do
  let x ← h.toChange oid
  let x ← m.setField x (m.identifiers.headD "") (.text id)
  return h.put oid x

end Heap

namespace Environment

omit [Connection σ] in
theorem post_onSession {α : Type} {a : SessionM σ α} {env : Environment σ}
    {Q : α → Session σ → Prop} {E : Error → Session σ → Prop} (h : a.Post Q E env.session) :
    (onSession a).Post (fun x t => t.heap = env.heap ∧ Q x t.session)
      (fun e t => t.heap = env.heap ∧ E e t.session) env := by
  rw [onSession, Action.post_onPart]
  exact h.mono (fun _ _ hQ => ⟨rfl, hQ⟩) fun _ _ hE => ⟨rfl, hE⟩

omit [Connection σ] in
theorem post_onSession_heap {α : Type} (a : SessionM σ α) (env : Environment σ) :
    (onSession a).Post (fun _ t => t.heap = env.heap) (fun _ t => t.heap = env.heap) env := by
  rw [onSession, Action.post_onPart]
  exact post_of_forall _ (fun _ _ => rfl) fun _ _ => rfl

omit [Connection σ] in
theorem extract_eq (m : Metadata) (oid : Oid) : (extract m oid : Action (Environment σ) Snapshot) =
    get >>= fun env => liftM (env.heap.values m oid) := by
  simp [extract, Heap.values]

omit [Connection σ] in
theorem writeIdentifier_eq (m : Metadata) (oid : Oid) (id : String) :
    (writeIdentifier m oid id : Action (Environment σ) Unit) =
      (do
        let env ← get
        let h ← env.heap.identify m oid id
        modify fun env => { env with heap := h }) := by
  simp [writeIdentifier, Heap.identify]

end Environment

namespace UnitOfWork

variable {w : UnitOfWork}

theorem pendingUpdates_cons {h : Heap} {oid : Oid} {t : Tracked} {rest : List (Oid × Tracked)}
    {us : List PendingUpdate} (hus : pendingUpdates h ((oid, t) :: rest) = .ok us) :
    (t.state ≠ .managed ∧ pendingUpdates h rest = .ok us) ∨
      t.state = .managed ∧ ∃ current more, h.values t.metadata oid = .ok current ∧
        pendingUpdates h rest = .ok more ∧
        (changedFields t.snapshot current = [] ∧ us = more ∨
          changedFields t.snapshot current ≠ [] ∧
            us = ⟨oid, changedFields t.snapshot current, current⟩ :: more) := by
  rw [pendingUpdates] at hus
  split at hus
  · rename_i hs
    rw [← bind_assoc, show (h.toRead oid >>= fun x => t.metadata.extract x) =
      h.values t.metadata oid from rfl] at hus
    cases hv : h.values t.metadata oid with
    | error e => simp [hv, bind, Except.bind] at hus
    | ok current =>
      cases hrest : pendingUpdates h rest with
      | error e => simp [hv, hrest, bind, Except.bind] at hus
      | ok more =>
        simp only [hv, hrest, bind, Except.bind, pure, Except.pure, Except.ok.injEq] at hus
        refine .inr ⟨hs, current, more, rfl, rfl, ?_⟩
        split at hus
        · rename_i hempty
          exact .inl ⟨by simpa using hempty, hus.symm⟩
        · rename_i hempty
          exact .inr ⟨by simpa using hempty, hus.symm⟩
  · rename_i hs
    exact .inl ⟨hs, hus⟩

theorem pendingUpdates_sublist {h : Heap} {es : List (Oid × Tracked)} {us : List PendingUpdate}
    (hus : pendingUpdates h es = .ok us) :
    (us.map PendingUpdate.oid).Sublist
      ((es.filter fun e => e.2.state = .managed).map Prod.fst) := by
  induction es generalizing us with
  | nil =>
    rw [← Except.ok.inj hus]
    exact List.Sublist.refl _
  | cons e es ih =>
    obtain ⟨oid, t⟩ := e
    obtain ⟨hs, hrest⟩ | ⟨hs, current, more, -, hmore, h⟩ := pendingUpdates_cons hus
    · rw [List.filter_cons_of_neg (by simpa using hs)]
      exact ih hrest
    · rw [List.filter_cons_of_pos (by simpa using hs), List.map_cons]
      obtain ⟨-, rfl⟩ | ⟨-, rfl⟩ := h
      · exact (ih hmore).cons oid
      · exact (ih hmore).cons_cons oid

theorem of_mem_pendingUpdates {h : Heap} {es : List (Oid × Tracked)} {us : List PendingUpdate}
    {u : PendingUpdate} (hus : pendingUpdates h es = .ok us) (hu : u ∈ us) :
    ∃ t, (u.oid, t) ∈ es ∧ t.state = .managed ∧ h.values t.metadata u.oid = .ok u.current ∧
      u.changes = changedFields t.snapshot u.current ∧ u.changes ≠ [] := by
  induction es generalizing us with
  | nil =>
    rw [← Except.ok.inj hus] at hu
    simp at hu
  | cons e es ih =>
    obtain ⟨oid, t⟩ := e
    obtain ⟨-, hrest⟩ | ⟨hs, current, more, hv, hmore, hus⟩ := pendingUpdates_cons hus
    · obtain ⟨t', ht', h'⟩ := ih hrest hu
      exact ⟨t', List.mem_cons_of_mem _ ht', h'⟩
    · obtain ⟨-, rfl⟩ | ⟨hne, rfl⟩ := hus
      · obtain ⟨t', ht', h'⟩ := ih hmore hu
        exact ⟨t', List.mem_cons_of_mem _ ht', h'⟩
      · rcases List.mem_cons.mp hu with rfl | hu
        · exact ⟨t, List.mem_cons_self, hs, hv, rfl, hne⟩
        · obtain ⟨t', ht', h'⟩ := ih hmore hu
          exact ⟨t', List.mem_cons_of_mem _ ht', h'⟩

theorem unchanged_of_pendingUpdates {h : Heap} {es : List (Oid × Tracked)}
    {us : List PendingUpdate} {oid : Oid} {t : Tracked} (hus : pendingUpdates h es = .ok us)
    (ht : (oid, t) ∈ es) (hs : t.state = .managed) (hu : oid ∉ us.map PendingUpdate.oid) :
    ∃ current, h.values t.metadata oid = .ok current ∧ changedFields t.snapshot current = [] := by
  induction es generalizing us with
  | nil => simp at ht
  | cons e es ih =>
    obtain ⟨oid', t'⟩ := e
    obtain ⟨hs', hrest⟩ | ⟨-, current, more, hv, hmore, hus⟩ := pendingUpdates_cons hus
    · rcases List.mem_cons.mp ht with heq | ht
      · rw [(Prod.mk.inj heq).2] at hs
        exact absurd hs hs'
      · exact ih hrest ht hu
    · obtain ⟨hnil, rfl⟩ | ⟨-, rfl⟩ := hus
      · rcases List.mem_cons.mp ht with heq | ht
        · obtain ⟨rfl, rfl⟩ := Prod.mk.inj heq
          exact ⟨current, hv, hnil⟩
        · exact ih hmore ht hu
      · rw [List.map_cons, List.mem_cons, not_or] at hu
        rcases List.mem_cons.mp ht with heq | ht
        · exact absurd (Prod.mk.inj heq).1 hu.1
        · exact ih hmore ht hu.2

theorem changeSet_eq {h : Heap} {c : ChangeSet} (hc : w.changeSet h = .ok c) :
    c.inserts = w.insertions ∧ c.deletes = w.deletions ∧
      pendingUpdates h w.tracked.toList = .ok c.updates := by
  unfold changeSet at hc
  cases hus : pendingUpdates h w.tracked.toList with
  | error e => simp [hus, bind, Except.bind] at hc
  | ok us =>
    simp only [hus, bind, Except.bind, pure, Except.pure] at hc
    rw [← Except.ok.inj hc]
    exact ⟨rfl, rfl, rfl⟩

theorem nodup_updates {h : Heap} {c : ChangeSet} (hc : w.changeSet h = .ok c) :
    (c.updates.map PendingUpdate.oid).Nodup := by
  obtain ⟨-, -, hus⟩ := changeSet_eq hc
  exact (pendingUpdates_sublist hus).nodup
    ((List.filter_sublist.map Prod.fst).nodup w.tracked.nodup)

theorem pending_of_mem_updates {h : Heap} {c : ChangeSet} (hc : w.changeSet h = .ok c)
    {u : PendingUpdate} (hu : u ∈ c.updates) :
    ∃ t, w.tracked.get? u.oid = some t ∧ t.state = .managed ∧
      h.values t.metadata u.oid = .ok u.current ∧
      u.changes = changedFields t.snapshot u.current ∧ u.changes ≠ [] := by
  obtain ⟨-, -, hus⟩ := changeSet_eq hc
  obtain ⟨t, ht, h⟩ := of_mem_pendingUpdates hus hu
  exact ⟨t, (w.tracked.get?_eq_some_iff u.oid t).mpr ht, h⟩

theorem state_of_mem_updates {h : Heap} {c : ChangeSet} (hc : w.changeSet h = .ok c)
    {u : PendingUpdate} (hu : u ∈ c.updates) : w.state u.oid = .managed := by
  obtain ⟨t, ht, hs, -⟩ := pending_of_mem_updates hc hu
  rw [state_of_get? ht, hs]

theorem unchanged_of_not_mem_updates {h : Heap} {c : ChangeSet} (hc : w.changeSet h = .ok c)
    {oid : Oid} {t : Tracked} (ht : w.tracked.get? oid = some t) (hs : t.state = .managed)
    (hu : oid ∉ c.updates.map PendingUpdate.oid) :
    ∃ current, h.values t.metadata oid = .ok current ∧ changedFields t.snapshot current = [] := by
  obtain ⟨-, -, hus⟩ := changeSet_eq hc
  exact unchanged_of_pendingUpdates hus ((w.tracked.get?_eq_some_iff oid t).mp ht) hs hu

theorem require_eq_ok {oid : Oid} {t : Tracked} :
    w.require oid = .ok t ↔ w.tracked.get? oid = some t := by
  unfold require
  cases w.tracked.get? oid <;> simp

/-- What a flush does about one row. -/
inductive RowChange
  | insert (oid : Oid)
  | update (u : PendingUpdate)
  | delete (oid : Oid)

def RowChange.oid : RowChange → Oid
  | .insert oid => oid
  | .update u => u.oid
  | .delete oid => oid

def statement (w : UnitOfWork) (h : Heap) : RowChange → Except Error Sql.Statement
  | .insert oid => do
    let t ← w.require oid
    let values ← h.values t.metadata oid
    return .insert t.metadata.fullTableName (t.metadata.insertValues values)
  | .update u => do
    let t ← w.require u.oid
    let key ← t.rowKey
    return .update t.metadata.fullTableName (t.metadata.assignments u.changes)
      (key.conditions t.metadata)
  | .delete oid => do
    let t ← w.require oid
    let key ← t.rowKey
    return .delete t.metadata.fullTableName (key.conditions t.metadata)

def receive (m : Metadata) (oid : Oid) : Action (Environment σ) Unit :=
  if m.generatesIdentity then do
    let id ← Environment.onSession Session.lastInsertId
    Environment.writeIdentifier m oid id
  else pure ()

def settle (w : UnitOfWork) (m : Metadata) (oid : Oid) (h : Heap) : Except Error Written := do
  let snapshot ← h.values m oid
  let key ← IdentityKey.ofSnapshot m snapshot
  match w.slots.get? key with
  | some other =>
    if other = oid then return ⟨oid, key, snapshot⟩
    else .error (.state (.identityTaken key.display))
  | none => return ⟨oid, key, snapshot⟩

def conclude (w : UnitOfWork) : RowChange → Action (Environment σ) (List Written)
  | .insert oid => do
    let t ← w.require oid
    receive t.metadata oid
    return [← w.settle t.metadata oid (← get).heap]
  | .update u => do
    let t ← w.require u.oid
    let key ← IdentityKey.ofSnapshot t.metadata u.current
    return [⟨u.oid, key, u.current⟩]
  | .delete _ => return []

def send (w : UnitOfWork) (r : RowChange) : Action (Environment σ) (List Written) := do
  let s ← w.statement (← get).heap r
  discard <| Environment.onSession (Session.execute s)
  w.conclude r

theorem send_insert (oid : Oid) :
    w.send (.insert oid) = ((fun x => [x]) <$> w.insertRow oid : Action (Environment σ) _) := by
  simp only [insertRow, send, statement, conclude, settle, receive, Environment.extract_eq]
  cases w.require oid with
  | error e => simp
  | ok t =>
    by_cases hg : t.metadata.generatesIdentity = true
    · simp only [Action.liftM_ok, bind_assoc, pure_bind, hg, if_true, map_bind, bind_pure_comp,
        liftM_bind, liftM_map, bind_map_left]
      refine bind_congr fun _ => bind_congr fun _ => bind_congr fun _ => bind_congr fun _ =>
        bind_congr fun _ => bind_congr fun _ => bind_congr fun values => bind_congr fun key => ?_
      cases w.slots.get? key with
      | none => simp
      | some other => by_cases h : other = oid <;> simp [h]
    · simp only [Action.liftM_ok, bind_assoc, pure_bind, hg, if_false, map_bind, bind_pure_comp,
        liftM_bind, liftM_map, bind_map_left, Bool.false_eq_true]
      refine bind_congr fun _ => bind_congr fun _ => bind_congr fun _ => bind_congr fun _ =>
        bind_congr fun values => bind_congr fun key => ?_
      cases w.slots.get? key with
      | none => simp
      | some other => by_cases h : other = oid <;> simp [h]

theorem send_update (u : PendingUpdate) :
    w.send (.update u) = ((fun x => [x]) <$> w.updateRow u : Action (Environment σ) _) := by
  simp only [updateRow, send, statement, conclude]
  cases w.require u.oid with
  | error e => simp
  | ok t => simp

theorem send_delete (oid : Oid) :
    w.send (.delete oid) = ((fun _ => []) <$> w.deleteRow oid : Action (Environment σ) _) := by
  simp only [deleteRow, send, statement, conclude]
  cases w.require oid with
  | error e => simp
  | ok t => simp

def changedRows (c : ChangeSet) : List RowChange :=
  c.inserts.map .insert ++ c.updates.map .update ++ c.deletes.map .delete

theorem write_eq (c : ChangeSet) :
    w.write c = (List.flatten <$> (changedRows c).mapM w.send : Action (Environment σ) _) := by
  have hone (xs : List Written) : (xs.map fun x => [x]).flatten = xs := by
    rw [← List.flatMap_def, List.flatMap_singleton']
  have hnone (xs : List Unit) : (xs.map fun _ => ([] : List Written)).flatten = [] := by
    simp
  simp only [write, changedRows, List.mapM_append, List.mapM_map, send_insert, send_update,
    send_delete, Function.comp_def, Action.mapM_map_comp, Action.forM_eq_mapM, bind_assoc,
    bind_pure_comp, bind_map_left, map_bind, Functor.map_map, List.flatten_append, hone,
    hnone, List.append_nil]

theorem settle_eq_ok_iff {m : Metadata} {oid : Oid} {h : Heap} {x : Written} :
    w.settle m oid h = .ok x ↔ x.oid = oid ∧ h.values m oid = .ok x.snapshot ∧
      IdentityKey.ofSnapshot m x.snapshot = .ok x.key ∧
      ∀ other, w.slots.get? x.key = some other → other = oid := by
  obtain ⟨o, k, values⟩ := x
  unfold settle
  cases hv : h.values m oid with
  | error e => simp [bind, Except.bind]
  | ok v =>
    cases hk : IdentityKey.ofSnapshot m v with
    | error e =>
      simp only [bind, Except.bind, hk]
      constructor
      · simp
      · rintro ⟨-, hv', hk', -⟩
        simp_all
    | ok key =>
      simp only [bind, Except.bind, hk]
      cases hs : w.slots.get? key with
      | none =>
        simp only [pure, Except.pure, Except.ok.injEq, Written.mk.injEq]
        constructor
        · rintro ⟨rfl, rfl, rfl⟩
          simp_all
        · rintro ⟨rfl, rfl, hk', -⟩
          simp_all
      | some other =>
        by_cases ho : other = oid
        · simp only [ho, if_true, pure, Except.pure, Except.ok.injEq, Written.mk.injEq]
          constructor
          · rintro ⟨rfl, rfl, rfl⟩
            simp_all
          · rintro ⟨rfl, rfl, hk', -⟩
            simp_all
        · simp only [ho, if_false]
          constructor
          · simp
          · rintro ⟨rfl, hv', hk', hfree⟩
            simp_all

def WrittenAs (w : UnitOfWork) (x : Written) : Prop :=
  ∃ t, w.tracked.get? x.oid = some t ∧ IdentityKey.ofSnapshot t.metadata x.snapshot = .ok x.key

def RowChange.written : RowChange → List Oid
  | .insert oid => [oid]
  | .update u => [u.oid]
  | .delete _ => []

theorem post_conclude (r : RowChange) (env : Environment σ) :
    (w.conclude r).Post
      (fun xs _ => xs.map Written.oid = r.written ∧ ∀ x ∈ xs, w.WrittenAs x)
      (fun _ _ => True) env := by
  cases r with
  | insert oid =>
    simp only [conclude, Action.post_bind, Action.post_liftExcept, Action.post_get,
      Action.post_pure, implies_true, and_true]
    intro t ht
    refine post_of_forall _ (fun _ env x hx => ?_) fun _ _ => trivial
    obtain ⟨rfl, hv, hk, -⟩ := settle_eq_ok_iff.mp hx
    simpa [RowChange.written, WrittenAs, require_eq_ok.mp ht] using hk
  | update u =>
    simp only [conclude, Action.post_bind, Action.post_liftExcept, Action.post_pure, implies_true,
      and_true]
    intro t ht key hkey
    simpa [RowChange.written, WrittenAs, require_eq_ok.mp ht] using hkey
  | delete oid => simp [conclude, RowChange.written]

theorem post_write (c : ChangeSet) (env : Environment σ) :
    (w.write c).Post (fun xs _ =>
        xs.map Written.oid = c.inserts ++ c.updates.map PendingUpdate.oid ∧
        ∀ x ∈ xs, w.WrittenAs x)
      (fun _ _ => True) env := by
  have hrows : (changedRows c).flatMap RowChange.written =
      c.inserts ++ c.updates.map PendingUpdate.oid := by
    simp only [changedRows, RowChange.written, List.flatMap_append, List.flatMap_map]
    rw [List.map_eq_flatMap, List.flatMap_singleton']
    simp
  rw [write_eq, Action.post_map, ← hrows]
  refine post_mapM (J := fun before xss _ =>
    xss.flatten.map Written.oid = before.flatMap RowChange.written ∧
      ∀ x ∈ xss.flatten, w.WrittenAs x) (by simp) fun before r rest xss env _ hJ => ?_
  simp only [send, Action.post_bind, Action.post_get, Action.post_liftExcept, Action.post_discard,
    implies_true, and_true]
  refine fun s _ => post_of_forall _ (fun _ env => ?_) fun _ _ => trivial
  refine (post_conclude r env).mono (fun xs _ hxs => ?_) fun _ _ => id
  rw [List.flatten_append, List.flatten_cons, List.flatten_nil, List.append_nil, List.map_append,
    hJ.1, hxs.1, List.flatMap_append]
  refine ⟨by simp, fun x hx => ?_⟩
  exact (List.mem_append.mp hx).elim (hJ.2 x) (hxs.2 x)

/-- The changes are known and not nothing, a transaction can be begun, and all rows are taken. -/
def Writes (w : UnitOfWork) (env : Environment σ) (written : List Written) : Prop :=
  ∃ c inner done, w.changeSet env.heap = .ok c ∧ c.isEmpty = false ∧
    (Environment.onSession Session.begin).run env = (.ok ⟨⟩, inner) ∧
    (w.write c).run inner = (.ok written, done)

theorem Writes.unique {env : Environment σ} {xs ys : List Written} (hx : w.Writes env xs)
    (hy : w.Writes env ys) : xs = ys := by
  obtain ⟨c, inner, done, hc, -, hinner, hxs⟩ := hx
  obtain ⟨c', inner', done', hc', -, hinner', hys⟩ := hy
  obtain rfl : c = c' := Except.ok.inj (hc.symm.trans hc')
  obtain rfl : inner = inner' := (Prod.mk.inj (hinner.symm.trans hinner')).2
  exact Except.ok.inj (Prod.mk.inj (hxs.symm.trans hys)).1

/-- All that a flush that answers can have done. -/
inductive Commits (w : UnitOfWork) (env : Environment σ) : UnitOfWork → Environment σ → Prop
  | unchanged {c : ChangeSet} : w.changeSet env.heap = .ok c → c.isEmpty = true →
      Commits w env w env
  | written {c : ChangeSet} {inner done env' : Environment σ} {written : List Written} :
      w.changeSet env.heap = .ok c → c.isEmpty = false →
      (Environment.onSession Session.begin).run env = (.ok ⟨⟩, inner) →
      (w.write c).run inner = (.ok written, done) →
      (Environment.onSession Session.commit).run done = (.ok ⟨⟩, env') →
      Commits w env (w.apply written w.deletions) env'

theorem post_commit (env : Environment σ) :
    w.commit.Post (w.Commits env) (fun _ _ => True) env := by
  simp only [commit, Action.post_bind, Action.post_get, Action.post_liftExcept, Action.post_ite,
    Action.post_pure, implies_true, and_true]
  intro c hc
  refine ⟨fun hempty => .unchanged hc hempty, fun hne => ?_⟩
  rw [Action.post_iff]
  refine ⟨fun _ inner hinner => ?_, fun _ _ _ => trivial⟩
  rw [Action.post_attempt, Action.post_iff]
  refine ⟨fun written done hwritten => ?_, fun e done _ => ?_⟩
  · simp only [Action.post_bind, Action.post_pure]
    rw [Action.post_iff]
    refine ⟨fun _ env' henv' => ?_, fun _ _ _ => trivial⟩
    rw [(changeSet_eq hc).2.1]
    exact .written hc (by simpa using hne) hinner hwritten henv'
  · simp only [Action.post_bind, Action.post_discard, Action.post_attempt, Action.post_throw]
    exact post_of_forall _ (fun _ _ => trivial) fun _ _ => trivial

theorem Commits.writes {w' : UnitOfWork} {env env' : Environment σ} (h : w.Commits env w' env') :
    (w' = w ∧ ¬ ∃ written, w.Writes env written) ∨
      ∃ written, w.Writes env written ∧ w' = w.apply written w.deletions := by
  cases h with
  | unchanged hc hempty =>
    refine .inl ⟨rfl, ?_⟩
    rintro ⟨written, c', inner, done, hc', hne, -⟩
    obtain rfl := Except.ok.inj (hc.symm.trans hc')
    simp [hempty] at hne
  | written hc hne hinner hwritten _ => exact .inr ⟨_, ⟨_, _, _, hc, hne, hinner, hwritten⟩, rfl⟩

theorem wrote (h : w.Consistent) {heap : Heap} {c : ChangeSet} {written : List Written}
    (hc : w.changeSet heap = .ok c)
    (hoids : written.map Written.oid = c.inserts ++ c.updates.map PendingUpdate.oid)
    (hkeys : ∀ x ∈ written, w.WrittenAs x) : w.Wrote written := by
  obtain ⟨hins, -, -⟩ := changeSet_eq hc
  rw [hins] at hoids
  have hmem (x : Written) (hx : x ∈ written) :
      x.oid ∈ w.insertions ∨ x.oid ∈ c.updates.map PendingUpdate.oid := by
    rw [← List.mem_append, ← hoids]
    exact List.mem_map_of_mem hx
  constructor
  case nodup =>
    rw [hoids, List.nodup_append]
    refine ⟨h.insertions_nodup, nodup_updates hc, fun a ha b hb hab => ?_⟩
    obtain ⟨u, hu, rfl⟩ := List.mem_map.mp hb
    have hnew := (h.mem_insertions a).mp ha
    rw [hab, state_of_mem_updates hc hu] at hnew
    simp at hnew
  case covers =>
    intro oid hoid
    refine List.mem_map.mp ?_
    rw [hoids]
    exact List.mem_append_left _ hoid
  case live =>
    intro x hx
    refine (hmem x hx).imp (h.mem_insertions x.oid).mp fun hu => ?_
    obtain ⟨u, hu, hoid⟩ := List.mem_map.mp hu
    rw [← hoid]
    exact state_of_mem_updates hc hu
  case keyed =>
    intro x hx t ht
    obtain ⟨t', ht', hkey⟩ := hkeys x hx
    rw [ht] at ht'
    rwa [Option.some.inj ht']

theorem Writes.wrote (h : w.Consistent) {env : Environment σ} {written : List Written}
    (hw : w.Writes env written) : w.Wrote written := by
  obtain ⟨c, inner, done, hc, -, -, hrun⟩ := hw
  obtain ⟨hoids, hkeys⟩ := (post_write c inner).of_run_ok hrun
  exact UnitOfWork.wrote h hc hoids hkeys

end UnitOfWork
end Persistence
