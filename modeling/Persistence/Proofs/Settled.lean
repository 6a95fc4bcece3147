import Persistence.Proofs.Bookkeeping
import Persistence.Proofs.FailedFlush
import Persistence.Proofs.Underway

/-!
Flushing twice. A unit of work is settled if nobody waits and every managed instance holds the
values of its snapshot. A flush that succeeds leaves it settled, and a settled one has nothing to
write.
-/

namespace Persistence

open Schema (Metadata Snapshot)
open Persistence.Action (post_of_forall post_mapM)

theorem Heap.of_identify {h h' : Heap} {m : Metadata} {oid : Oid} {id : String}
    (hid : h.identify m oid id = .ok h') : ∃ y,
      m.setField (h.content oid) (m.identifiers.headD "") (.text id) = .ok y ∧
        h' = h.put oid y := by
  unfold identify toChange at hid
  split at hid
  · cases hy : m.setField (h.content oid) (m.identifiers.headD "") (.text id) with
    | error e => simp only [hy, bind, Except.bind, reduceCtorEq] at hid
    | ok y =>
      simp only [hy, bind, Except.bind, pure, Except.pure, Except.ok.injEq] at hid
      exact ⟨y, rfl, hid.symm⟩
  · simp [bind, Except.bind] at hid

theorem Heap.object_identify {h h' : Heap} {m : Metadata} {oid : Oid} {id : String}
    (hid : h.identify m oid id = .ok h') (j : Oid) (hj : j ≠ oid) : h'.object j = h.object j := by
  obtain ⟨y, -, rfl⟩ := of_identify hid
  exact object_put_of_ne y hj

namespace UnitOfWork

structure Settled (w : UnitOfWork) (h : Heap) : Prop where
  insertions : w.insertions = []
  deletions : w.deletions = []
  unchanged : ∀ oid t, w.tracked.get? oid = some t → t.state = .managed →
    ∃ current, h.values t.metadata oid = .ok current ∧ changedFields t.snapshot current = []

variable {w : UnitOfWork} {h h' : Heap} {c : ChangeSet} {oid : Oid} {t : Tracked}

theorem pendingUpdates_eq_nil {es : List (Oid × Tracked)}
    (hes : ∀ e ∈ es, e.2.state = .managed → ∃ current,
      h.values e.2.metadata e.1 = .ok current ∧ changedFields e.2.snapshot current = []) :
    pendingUpdates h es = .ok [] := by
  induction es with
  | nil => rfl
  | cons e es ih =>
    obtain ⟨oid, t⟩ := e
    have hrest := ih fun e he => hes e (List.mem_cons_of_mem _ he)
    rw [pendingUpdates]
    split
    · rename_i hs
      obtain ⟨current, hcurrent, hsame⟩ := hes (oid, t) List.mem_cons_self hs
      rw [← bind_assoc, show (h.toRead oid >>= fun x => t.metadata.extract x) =
        h.values t.metadata oid from rfl, hcurrent]
      simp [hsame, hrest, bind, Except.bind, pure, Except.pure]
    · exact hrest

theorem Settled.changeSet (hw : w.Settled h) : w.changeSet h = .ok ⟨[], [], []⟩ := by
  have hnone : pendingUpdates h w.tracked.toList = .ok [] := by
    refine pendingUpdates_eq_nil fun e he => ?_
    exact hw.unchanged e.1 e.2 ((w.tracked.get?_eq_some_iff e.1 e.2).mpr he)
  simp [UnitOfWork.changeSet, hnone, hw.insertions, hw.deletions, bind, Except.bind, pure,
    Except.pure]

theorem settled_of_isEmpty (hc : w.changeSet h = .ok c) (hempty : c.isEmpty = true) :
    w.Settled h := by
  obtain ⟨hins, hdel, -⟩ := changeSet_eq hc
  simp only [ChangeSet.isEmpty, Bool.and_eq_true, List.isEmpty_iff] at hempty
  obtain ⟨⟨hinserts, hupdates⟩, hdeletes⟩ := hempty
  refine ⟨hins ▸ hinserts, hdel ▸ hdeletes, fun oid t ht hs => ?_⟩
  exact unchanged_of_not_mem_updates hc ht hs (by simp [hupdates])

theorem Settled.congr (hw : w.Settled h)
    (hsame : ∀ oid t, w.tracked.get? oid = some t → h'.toRead oid = h.toRead oid) :
    w.Settled h' where
  insertions := hw.insertions
  deletions := hw.deletions
  unchanged := by
    intro oid t ht hs
    rw [Heap.values, hsame oid t ht]
    exact hw.unchanged oid t ht hs

theorem Consistent.tracked_after_apply (hw : w.Consistent) {written : List Written}
    (hwrote : w.Wrote written)
    (ht : (w.apply written w.deletions).tracked.get? oid = some t) :
    (∃ x ∈ written, x.oid = oid ∧ ∃ t₀, w.tracked.get? oid = some t₀ ∧ t = x.record t₀) ∨
      oid ∉ written.map Written.oid ∧ w.tracked.get? oid = some t ∧ t.state = .managed := by
  by_cases hd : oid ∈ w.deletions
  · simp [hw.get?_tracked_apply_of_deleted hwrote hd] at ht
  by_cases hx : oid ∈ written.map Written.oid
  · obtain ⟨x, hmem, rfl⟩ := List.mem_map.mp hx
    rw [hw.get?_tracked_apply_of_written hwrote hmem, Option.map_eq_some_iff] at ht
    obtain ⟨t₀, ht₀, rfl⟩ := ht
    exact .inl ⟨x, hmem, rfl, t₀, ht₀, rfl⟩
  · rw [hw.get?_tracked_apply_of_kept hwrote hx hd] at ht
    refine .inr ⟨hx, ht, ?_⟩
    have hstate := state_of_get? ht
    cases hs : t.state with
    | managed => rfl
    | new =>
      rw [hs, ← hw.mem_insertions] at hstate
      obtain ⟨x, hmem, rfl⟩ := hwrote.covers oid hstate
      exact absurd (List.mem_map_of_mem hmem) hx
    | removed =>
      rw [hs, ← hw.mem_deletions] at hstate
      exact absurd hstate hd
    | detached => exact absurd hs (hw.not_detached oid t ht)

theorem Consistent.queues_after_apply (hw : w.Consistent) {written : List Written}
    (hwrote : w.Wrote written) :
    (w.apply written w.deletions).insertions = [] ∧
      (w.apply written w.deletions).deletions = [] := by
  have hc := hw.apply hwrote w.deletions
  have hmanaged (oid : Oid) (s : Lifecycle) (hs : s ≠ .managed) (hd : s ≠ .detached) :
      (w.apply written w.deletions).state oid ≠ s := by
    intro hstate
    obtain ⟨t, ht, hst⟩ := exists_of_state (hstate ▸ hd)
    obtain ⟨x, -, -, t₀, -, rfl⟩ | ⟨-, -, hkept⟩ := hw.tracked_after_apply hwrote ht
    · exact hs (hstate.symm.trans hst.symm)
    · exact hs (hstate.symm.trans (hst.symm.trans hkept))
  simp only [List.eq_nil_iff_forall_not_mem, hc.mem_insertions, hc.mem_deletions]
  exact ⟨fun oid => hmanaged oid .new (by simp) (by simp),
    fun oid => hmanaged oid .removed (by simp) (by simp)⟩

def Holds (w : UnitOfWork) (h : Heap) (x : Written) : Prop :=
  ∃ t, w.tracked.get? x.oid = some t ∧ h.values t.metadata x.oid = .ok x.snapshot

theorem Holds.congr {x : Written} (hx : w.Holds h x) (hobject : h'.object x.oid = h.object x.oid) :
    w.Holds h' x := by
  obtain ⟨t, ht, hvalues⟩ := hx
  exact ⟨t, ht, (Heap.values_congr hobject).trans hvalues⟩

theorem changedFields_snapshotOf (m : Metadata) (x : Instance) :
    changedFields (m.snapshotOf x) (m.snapshotOf x) = [] := by
  rw [changedFields, List.filter_eq_nil_iff]
  rintro ⟨name, v⟩ hmem
  have hnames : ((m.snapshotOf x).map Prod.fst).Nodup := by
    simpa [Schema.Metadata.snapshotOf, Function.comp_def] using m.fieldNames_nodup
  simp [(lookupEntry_eq_some_iff hnames).mpr hmem]

theorem changedFields_self {m : Metadata} {values : Snapshot} (hv : h.values m oid = .ok values) :
    changedFields values values = [] := by
  rw [Heap.values_eq hv]
  exact changedFields_snapshotOf m _

section Sending

variable {σ : Type} [Connection σ] {env : Environment σ} {r : RowChange}

theorem post_receive_objects (m : Metadata) (oid : Oid) (env : Environment σ) :
    (receive m oid).Post (fun _ env' => ∀ j, j ≠ oid → env'.heap.object j = env.heap.object j)
      (fun _ _ => True) env := by
  rw [receive, Action.post_ite]
  refine ⟨fun _ => ?_, fun _ _ _ => rfl⟩
  rw [Action.post_bind]
  refine (Environment.post_onSession_heap _ env).mono (fun id told htold => ?_) fun _ _ _ => trivial
  simp only [Environment.writeIdentifier_eq, Action.post_bind, Action.post_get,
    Action.post_liftExcept, Action.post_modify, implies_true, and_true]
  intro h' hh' j hj
  rw [Heap.object_identify hh' j hj, htold]

theorem post_send_holds (hr : ∀ u, r = .update u → ∃ t, w.tracked.get? u.oid = some t ∧
      env.heap.values t.metadata u.oid = .ok u.current) :
    (w.send r).Post
      (fun xs env' => (∀ j, j ≠ r.oid → env'.heap.object j = env.heap.object j) ∧
        ∀ x ∈ xs, x.oid = r.oid ∧ w.Holds env'.heap x)
      (fun _ _ => True) env := by
  simp only [send, Action.post_bind, Action.post_get, Action.post_liftExcept, Action.post_discard,
    implies_true, and_true]
  intro s _
  refine (Environment.post_onSession_heap _ env).mono (fun _ taken htaken => ?_)
    fun _ _ _ => trivial
  cases r with
  | insert oid =>
    simp only [conclude, Action.post_bind, Action.post_get, Action.post_liftExcept,
      Action.post_pure, implies_true, and_true]
    intro t ht
    refine (post_receive_objects t.metadata oid taken).mono (fun _ received hothers => ?_)
      fun _ _ _ => trivial
    intro x hx
    obtain ⟨rfl, hv, -, -⟩ := settle_eq_ok_iff.mp hx
    refine ⟨fun j hj => by rw [hothers j hj, htaken], fun y hy => ?_⟩
    obtain rfl := List.mem_singleton.mp hy
    exact ⟨rfl, t, require_eq_ok.mp ht, hv⟩
  | update u =>
    obtain ⟨t, ht, hv⟩ := hr u rfl
    simp only [conclude, Action.post_bind, Action.post_liftExcept, Action.post_pure, implies_true,
      and_true]
    intro _ _ key _
    refine ⟨fun _ _ => by rw [htaken], fun y hy => ?_⟩
    obtain rfl := List.mem_singleton.mp hy
    exact ⟨rfl, t, ht, by rw [htaken]; exact hv⟩
  | delete oid =>
    simp only [conclude, Action.post_pure]
    exact ⟨fun _ _ => by rw [htaken], by simp⟩

theorem post_write_holds (hw : w.Consistent) (hc : w.changeSet env.heap = .ok c) :
    (w.write c).Post
      (fun written env' =>
        (∀ oid, oid ∉ (changedRows c).map RowChange.oid →
          env'.heap.object oid = env.heap.object oid) ∧ ∀ x ∈ written, w.Holds env'.heap x)
      (fun _ _ => True) env := by
  rw [write_eq, Action.post_map]
  refine (post_mapM (J := fun before xss (env' : Environment σ) =>
    (∀ oid, oid ∉ before.map RowChange.oid → env'.heap.object oid = env.heap.object oid) ∧
      ∀ x ∈ xss.flatten, x.oid ∈ before.map RowChange.oid ∧ w.Holds env'.heap x)
    ⟨fun _ _ => rfl, by simp⟩ ?_).mono (fun _ _ h => ⟨h.1, fun x hx => (h.2 x hx).2⟩) fun _ _ => id
  rintro before r rest xss env₁ hrows ⟨hwaiting, hwritten⟩
  have hfresh := oid_not_mem_before hw hc hrows
  refine (post_send_holds fun u hu => ?_).mono (fun xs env₂ hxs => ?_) fun _ _ => id
  · subst hu
    have hmem : .update u ∈ changedRows c := by simp [hrows]
    have hmem : u ∈ c.updates := by simpa [changedRows] using hmem
    obtain ⟨t, ht, -, hv, -⟩ := pending_of_mem_updates hc hmem
    exact ⟨t, ht, (Heap.values_congr (hwaiting u.oid hfresh)).trans hv⟩
  · obtain ⟨hothers, hnew⟩ := hxs
    refine ⟨fun oid hoid => ?_, fun x hx => ?_⟩
    · rw [List.map_append, List.mem_append, not_or] at hoid
      rw [hothers oid fun heq => hoid.2 (by simp [heq]), hwaiting oid hoid.1]
    · rw [List.flatten_append, List.flatten_cons, List.flatten_nil, List.append_nil] at hx
      rw [List.map_append, List.mem_append]
      rcases List.mem_append.mp hx with hx | hx
      · obtain ⟨hmem, hholds⟩ := hwritten x hx
        refine ⟨.inl hmem, hholds.congr (hothers x.oid fun heq => hfresh (heq ▸ hmem))⟩
      · exact ⟨.inr (by simp [(hnew x hx).1]), (hnew x hx).2⟩

def Free (w : UnitOfWork) (x : Written) : Prop :=
  ∀ other, w.slots.get? x.key = some other → other = x.oid

theorem post_write_free (c : ChangeSet) (env : Environment σ) :
    (w.write c).Post
      (fun written _ => ∀ x ∈ written, x.oid ∈ c.updates.map PendingUpdate.oid ∨ w.Free x)
      (fun _ _ => True) env := by
  rw [write_eq, Action.post_map]
  refine post_mapM (J := fun _ xss (_ : Environment σ) =>
    ∀ x ∈ xss.flatten, x.oid ∈ c.updates.map PendingUpdate.oid ∨ w.Free x) (by simp) ?_
  intro before r rest xss env hrows hJ
  simp only [send, Action.post_bind, Action.post_get, Action.post_liftExcept, Action.post_discard,
    implies_true, and_true]
  refine fun s _ => post_of_forall _ (fun _ taken => ?_) fun _ _ => trivial
  suffices h : (w.conclude r).Post
      (fun xs _ => ∀ x ∈ xs, x.oid ∈ c.updates.map PendingUpdate.oid ∨ w.Free x)
      (fun _ _ => True) taken by
    refine h.mono (fun xs _ hxs x hx => ?_) fun _ _ => id
    rw [List.flatten_append, List.flatten_cons, List.flatten_nil, List.append_nil] at hx
    exact (List.mem_append.mp hx).elim (hJ x) (hxs x)
  cases r with
  | insert oid =>
    simp only [conclude, Action.post_bind, Action.post_liftExcept, Action.post_get,
      Action.post_pure, implies_true, and_true]
    refine fun t _ => post_of_forall _ (fun _ received x hx y hy => ?_) fun _ _ => trivial
    obtain ⟨hoid, -, -, hfree⟩ := settle_eq_ok_iff.mp hx
    rw [List.mem_singleton.mp hy]
    exact .inr fun other hother => (hfree other hother).trans hoid.symm
  | update u =>
    simp only [conclude, Action.post_bind, Action.post_liftExcept, Action.post_pure, implies_true,
      and_true]
    intro _ _ key _ x hx
    have hmem : .update u ∈ changedRows c := by simp [hrows]
    have hu : u ∈ c.updates := by simpa [changedRows] using hmem
    rw [List.mem_singleton.mp hx]
    exact .inl (List.mem_map_of_mem hu)
  | delete oid => simp [conclude]

structure WroteAll (w : UnitOfWork) (c : ChangeSet) (written : List Written) (h h' : Heap) :
    Prop where
  oids : written.map Written.oid = c.inserts ++ c.updates.map PendingUpdate.oid
  wrote : w.Wrote written
  free : ∀ x ∈ written, x.oid ∈ c.updates.map PendingUpdate.oid ∨ w.Free x
  holds : ∀ x ∈ written, w.Holds h' x
  others : ∀ oid, oid ∉ (changedRows c).map RowChange.oid → h'.object oid = h.object oid

theorem Commits.wrote {w' : UnitOfWork} {env env' : Environment σ} (h : w.Commits env w' env')
    (hw : w.Consistent) : ∃ c, w.changeSet env.heap = .ok c ∧
      (c.isEmpty = true ∧ w' = w ∧ env' = env ∨ c.isEmpty = false ∧ ∃ written,
        w.WroteAll c written env.heap env'.heap ∧ w' = w.apply written w.deletions) := by
  cases h with
  | @unchanged c hc hempty => exact ⟨c, hc, .inl ⟨hempty, rfl, rfl⟩⟩
  | @written c inner done env' written hc hne hinner hwritten henv' =>
    have hheap := (Environment.post_onSession_heap _ env).of_run_ok hinner
    have hc' : w.changeSet inner.heap = .ok c := by rw [hheap, hc]
    obtain ⟨hothers, hholds⟩ := (post_write_holds hw hc').of_run_ok hwritten
    obtain ⟨hoids, hkeys⟩ := (post_write c inner).of_run_ok hwritten
    refine ⟨c, hc, .inr ⟨hne, written, ?_, rfl⟩⟩
    rw [(Environment.post_onSession_heap _ done).of_run_ok henv']
    exact ⟨hoids, UnitOfWork.wrote hw hc hoids hkeys, (post_write_free c inner).of_run_ok hwritten,
      hholds, fun oid h => by rw [hothers oid h, hheap]⟩

theorem post_commit_settled (hw : w.Consistent) (env : Environment σ) :
    w.commit.Post (fun w' env' => w'.Settled env'.heap) (fun _ _ => True) env := by
  refine (post_commit env).mono (fun w' env' h => ?_) fun _ _ => id
  obtain ⟨c, hc, ⟨hempty, rfl, rfl⟩ | ⟨-, written, hall, rfl⟩⟩ := h.wrote hw
  · exact settled_of_isEmpty hc hempty
  obtain ⟨hins, hdel⟩ := hw.queues_after_apply hall.wrote
  refine ⟨hins, hdel, fun oid t ht _ => ?_⟩
  obtain ⟨x, hx, rfl, t₀, ht₀, rfl⟩ | ⟨hnot, ht, hs⟩ := hw.tracked_after_apply hall.wrote ht
  · obtain ⟨t₁, ht₁, hvalues⟩ := hall.holds x hx
    rw [ht₀] at ht₁
    obtain rfl := Option.some.inj ht₁
    exact ⟨x.snapshot, hvalues, changedFields_self hvalues⟩
  · -- neither written nor deleted, so its row was not touched
    rw [hall.oids, List.mem_append, not_or] at hnot
    have hnotdel : oid ∉ c.deletes := by
      rw [(changeSet_eq hc).2.1, hw.mem_deletions, state_of_get? ht, hs]
      simp
    have hrow : oid ∉ (changedRows c).map RowChange.oid := by
      simpa [changedRows, RowChange.oid, Function.comp_def, hnotdel] using hnot
    obtain ⟨current, hcurrent, hsame⟩ := unchanged_of_not_mem_updates hc ht hs hnot.2
    exact ⟨current, (Heap.values_congr (hall.others oid hrow)).trans hcurrent, hsame⟩

end Sending
end UnitOfWork

namespace Manager

variable {σ : Type} [Connection σ] {m m' : Manager (Recorded σ)}

theorem flush_of_settled (h : m.work.Settled m.heap) : flush.run m = (.ok ⟨⟩, m) := by
  refine Action.Post.run_eq ?_
  rw [post_flush_iff]
  simp [UnitOfWork.commit, h.changeSet, ChangeSet.isEmpty]

/-- After a flush that succeeds another one does nothing at all, as long as what is tracked and what
those instances hold is the same: it makes no call and leaves everything as it was. -/
theorem flush_idempotent (h : Reachable anyOperation m) (hrun : flush.run m = (.ok ⟨⟩, m')) :
    ∀ m'' : Manager (Recorded σ), m''.work = m'.work →
      (∀ oid t, m'.work.tracked.get? oid = some t → m''.heap.toRead oid = m'.heap.toRead oid) →
      flush.run m'' = (.ok ⟨⟩, m'') := by
  intro m'' hwork hread
  have hflush : flush.Post (fun _ t => t.work.Settled t.heap) (fun _ _ => True) m := by
    rw [post_flush_iff]
    exact UnitOfWork.post_commit_settled h.consistent m.toEnvironment
  refine flush_of_settled ?_
  rw [hwork]
  exact (hflush.of_run_ok hrun).congr hread

open Sample in
def mixed : Manager (Recorded Scripted) :=
  let start := manager [userObject none "Ann"]
    { inner := ⟨[[userRow (.int 2) "Bob"], [userRow (.int 3) "Cy"]], false⟩ }
  let loaded := (Operation.find user (.scalar (.int 3))).after
    ((Operation.find user (.scalar (.int 2))).after start)
  let edited := (Operation.edit (loaded.heap.put ⟨1⟩ ⟨user, userSlots (some 5) "Bea"⟩)).after loaded
  (Operation.remove ⟨2⟩).after ((Operation.persist ⟨0⟩).after edited)

theorem reachable_mixed : Reachable anyOperation mixed := by
  have built : Reachable anyOperation (Sample.manager [Sample.userObject none "Ann"]
      ({ inner := ⟨[[Sample.userRow (.int 2) "Bob"], [Sample.userRow (.int 3) "Cy"]], false⟩ } :
        Recorded Sample.Scripted)) := .built (Sample.build_manager ..)
  refine built.run (((((Runs.done _).operation (.find _ _) trivial).operation (.find _ _)
    trivial).operation (.edit _) trivial).operation (.persist ⟨0⟩) trivial |>.operation
    (.remove ⟨2⟩) trivial)

theorem flush_idempotent_mixed : ∃ m', flush.run mixed = (.ok ⟨⟩, m') ∧
    m'.session.connection.calls.drop 2 =
      [⟨.begin, none⟩, ⟨.update "INSERT INTO users (name) VALUES (?)" [.text "Ann"], none⟩,
        ⟨.lastInsertId, none⟩,
        ⟨.update "UPDATE users SET id = ?, name = ? WHERE id = ?"
          [.int 5, .text "Bea", .int 2], none⟩,
        ⟨.update "DELETE FROM users WHERE id = ?" [.int 3], none⟩, ⟨.commit, none⟩] ∧
    flush.run m' = (.ok ⟨⟩, m') := by
  have hdone : (flush.run mixed).1.isOk = true := by decide +kernel
  match hrun : flush.run mixed with
  | (.ok x, m') =>
    have hm' : m' = (flush.run mixed).2 := by rw [hrun]
    refine ⟨m', rfl, ?_, flush_idempotent reachable_mixed hrun m' rfl fun _ _ _ => rfl⟩
    rw [hm']
    decide +kernel
  | (.error e, m') => simp [hrun, Except.isOk, Except.toBool] at hdone

end Manager
end Persistence
