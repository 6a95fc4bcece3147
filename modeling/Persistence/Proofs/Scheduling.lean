import Persistence.Proofs.Script
import Persistence.Proofs.Steadiness

/-!
Scheduling is per instance. Calls that persist, remove or detach instances share the queues and the
identity map, but what is known of an instance after them depends on its own calls only, whatever
else is called in between. A flush writes what is pending then.
-/

namespace Persistence

open Schema (Metadata Snapshot)

/-- A call that schedules work for an instance, or drops it. -/
inductive Scheduling
  | persist (oid : Oid)
  | remove (oid : Oid)
  | detach (oid : Oid)
deriving DecidableEq

namespace Scheduling

def oid : Scheduling → Oid
  | persist oid | remove oid | detach oid => oid

def operation : Scheduling → Manager.Operation
  | persist oid => .persist oid
  | remove oid => .remove oid
  | detach oid => .detach oid

/-- The calls for one instance. -/
def own (calls : List Scheduling) (oid : Oid) : List Scheduling := calls.filter fun c => c.oid = oid

def entry (m : Metadata) : Scheduling → Option Tracked → Option Tracked
  | persist _, none => some ⟨m, .new, [], none⟩
  | persist _, some t => if t.state = .removed then some { t with state := .managed } else some t
  | remove _, none => none
  | remove _, some t =>
    match t.state with
    | .new => none
    | .managed => some { t with state := .removed }
    | .removed | .detached => some t
  | detach _, _ => none

/-- What a call answers: an instance that is not tracked cannot be removed. -/
def outcome (w : UnitOfWork) : Scheduling → Except Error Unit
  | remove oid =>
    if w.tracked.get? oid = none then .error (.state (.notManaged oid)) else .ok ⟨⟩
  | persist _ | detach _ => .ok ⟨⟩

theorem own_own (calls : List Scheduling) (oid : Oid) : own (own calls oid) oid = own calls oid := by
  simp [own]

theorem mem_own {calls : List Scheduling} {oid : Oid} {c : Scheduling} :
    c ∈ own calls oid ↔ c ∈ calls ∧ c.oid = oid := by
  simp [own]

end Scheduling

namespace UnitOfWork

variable {w w' : UnitOfWork} {oid j : Oid} {classes : Oid → Metadata} {c : Scheduling}
  {calls : List Scheduling}

def schedule (classes : Oid → Metadata) (w : UnitOfWork) : Scheduling → UnitOfWork
  | .persist oid => w.persist oid (classes oid)
  | .remove oid =>
    match w.remove oid with
    | .ok w' => w'
    | .error _ => w
  | .detach oid => w.detach oid

theorem remove_eq_error {e : Error} (he : w.remove oid = .error e) :
    w.tracked.get? oid = none ∧ e = .state (.notManaged oid) := by
  unfold remove at he
  split at he
  · rename_i ht
    exact ⟨ht, (Except.error.inj he).symm⟩
  · split at he <;> simp at he

theorem schedule_of_refused (hc : (c.outcome w).isOk = false) : w.schedule classes c = w := by
  cases c with
  | persist oid | detach oid => simp [Scheduling.outcome, Except.isOk, Except.toBool] at hc
  | remove oid =>
    have ht : w.tracked.get? oid = none := by
      by_contra ht
      simp [Scheduling.outcome, ht, Except.isOk, Except.toBool] at hc
    simp [schedule, remove, ht]

theorem get?_tracked_persist (m : Metadata) : (w.persist oid m).tracked.get? j =
    if oid = j then (Scheduling.persist oid).entry m (w.tracked.get? j) else w.tracked.get? j := by
  by_cases hj : oid = j
  · subst hj
    rw [if_pos rfl, persist]
    cases ht : w.tracked.get? oid with
    | none => simp [Scheduling.entry, OrderedMap.get?_insert]
    | some t => by_cases hs : t.state = .removed <;> simp [Scheduling.entry, hs, ht, OrderedMap.get?_insert]
  · rw [if_neg hj, persist]
    cases w.tracked.get? oid with
    | none => simp [OrderedMap.get?_insert, hj]
    | some t => by_cases hs : t.state = .removed <;> simp [hs, hj, OrderedMap.get?_insert]

theorem get?_tracked_remove (hw : w.remove oid = .ok w') (m : Metadata) : w'.tracked.get? j =
    if oid = j then (Scheduling.remove oid).entry m (w.tracked.get? j) else w.tracked.get? j := by
  unfold remove at hw
  cases ht : w.tracked.get? oid with
  | none => simp [ht] at hw
  | some t =>
    simp only [ht] at hw
    by_cases hj : oid = j
    · subst hj
      rw [if_pos rfl, ht]
      cases hs : t.state <;> simp only [hs, Except.ok.injEq] at hw <;> subst hw <;>
        simp [Scheduling.entry, hs, ht, OrderedMap.get?_insert, OrderedMap.get?_erase]
    · rw [if_neg hj]
      cases hs : t.state <;> simp only [hs, Except.ok.injEq] at hw <;> subst hw <;>
        simp [hj, OrderedMap.get?_insert, OrderedMap.get?_erase]

theorem get?_tracked_schedule : (w.schedule classes c).tracked.get? j =
    if c.oid = j then c.entry (classes j) (w.tracked.get? j) else w.tracked.get? j := by
  cases c with
  | persist oid =>
    refine (get?_tracked_persist (classes oid)).trans ?_
    by_cases hj : oid = j <;> simp [Scheduling.oid, hj]
  | remove oid =>
    cases hw : w.remove oid with
    | ok w' =>
      rw [schedule, hw]
      exact get?_tracked_remove hw (classes j)
    | error e =>
      have ht := (remove_eq_error hw).1
      by_cases hj : oid = j
      · subst hj
        simp [schedule, hw, Scheduling.oid, Scheduling.entry, ht]
      · simp [schedule, hw, Scheduling.oid, hj]
  | detach oid => exact get?_tracked_detach

theorem Consistent.get?_slots_detach_iff (hw : w.Consistent) (key : IdentityKey) :
    (w.detach oid).slots.get? key = some j ↔ w.slots.get? key = some j ∧ oid ≠ j := by
  rw [get?_slots_detach]
  constructor
  · intro h
    split at h
    · simp at h
    · rename_i hfree
      refine ⟨h, fun hj => hfree ?_⟩
      subst hj
      exact ⟨hw.keyOf_slot key oid h, h⟩
  · rintro ⟨h, hj⟩
    rw [if_neg fun hfree => hj ?_, h]
    exact Option.some.inj (hfree.2.symm.trans h)

theorem get?_slots_schedule (hw : w.Consistent) (key : IdentityKey) :
    (w.schedule classes c).slots.get? key = some j ↔
      w.slots.get? key = some j ∧ c ≠ .detach j := by
  cases c with
  | persist oid => simp [schedule, slots_persist]
  | remove oid =>
    cases hr : w.remove oid with
    | ok w' => simp [schedule, hr, slots_remove hr]
    | error e => simp [schedule, hr]
  | detach oid => simp [schedule, hw.get?_slots_detach_iff]

theorem Consistent.schedule (hw : w.Consistent) (classes : Oid → Metadata) (c : Scheduling) :
    (w.schedule classes c).Consistent := by
  cases c with
  | persist oid => exact hw.persist oid (classes oid)
  | remove oid =>
    rw [UnitOfWork.schedule]
    cases hr : w.remove oid with
    | ok w' => exact hw.remove hr
    | error e => exact hw
  | detach oid => exact hw.detach oid

def scheduleAll (classes : Oid → Metadata) (w : UnitOfWork) (calls : List Scheduling) : UnitOfWork :=
  calls.foldl (schedule classes) w

theorem get?_tracked_scheduleAll : (w.scheduleAll classes calls).tracked.get? oid =
    (Scheduling.own calls oid).foldl (fun t c => c.entry (classes oid) t) (w.tracked.get? oid) := by
  induction calls generalizing w with
  | nil => rfl
  | cons c rest ih =>
    rw [scheduleAll, List.foldl_cons, ← scheduleAll, ih, get?_tracked_schedule]
    by_cases hc : c.oid = oid <;> simp [Scheduling.own, hc]

theorem get?_slots_scheduleAll (hw : w.Consistent) (key : IdentityKey) :
    (w.scheduleAll classes calls).slots.get? key = some oid ↔
      w.slots.get? key = some oid ∧ .detach oid ∉ calls := by
  induction calls generalizing w with
  | nil => simp [scheduleAll]
  | cons c rest ih =>
    rw [scheduleAll, List.foldl_cons, ← scheduleAll, ih (hw.schedule classes c),
      get?_slots_schedule hw, List.mem_cons, not_or, and_assoc, ne_comm]

/-- Two units of work know the same of an instance: its state, key and snapshot, and its slots. -/
structure Agree (oid : Oid) (w w' : UnitOfWork) : Prop where
  tracked : w.tracked.get? oid = w'.tracked.get? oid
  slots : ∀ key, w.slots.get? key = some oid ↔ w'.slots.get? key = some oid

theorem agree_own (hw : w.Consistent) (oid : Oid) :
    Agree oid (w.scheduleAll classes calls) (w.scheduleAll classes (Scheduling.own calls oid)) where
  tracked := by rw [get?_tracked_scheduleAll, get?_tracked_scheduleAll, Scheduling.own_own]
  slots key := by
    rw [get?_slots_scheduleAll hw, get?_slots_scheduleAll hw, Scheduling.mem_own]
    simp [Scheduling.oid]

theorem state_foldl_entry {m : Metadata} {r : Option Tracked} (h : ∀ t, r = some t → t.state = .new)
    (calls : List Scheduling) :
    ∀ t, calls.foldl (fun t c => c.entry m t) r = some t → t.state = .new := by
  induction calls generalizing r with
  | nil => exact h
  | cons c rest ih =>
    refine ih fun t ht => ?_
    cases r with
    | none =>
      cases c <;> simp [Scheduling.entry] at ht
      rw [← ht]
    | some t' =>
      have hs := h t' rfl
      cases c <;> simp [Scheduling.entry, hs] at ht
      rw [← ht, hs]

theorem foldl_entry_concat {m : Metadata} (calls : List Scheduling) (hc : ∀ j, c ≠ .persist j) :
    (calls ++ [c]).foldl (fun t c => c.entry m t) none = none := by
  have hnew := state_foldl_entry (m := m) (r := none) (by simp) calls
  rw [List.foldl_append, List.foldl_cons, List.foldl_nil]
  cases hlast : calls.foldl (fun t c => Scheduling.entry m c t) none with
  | none => cases c <;> simp_all [Scheduling.entry]
  | some t => cases c <;> simp_all [Scheduling.entry]

theorem untracked_scheduleAll (hnone : w.tracked.get? oid = none)
    (hc : (Scheduling.own calls oid).getLast? = some c) (hpersist : c ≠ .persist oid) :
    (w.scheduleAll classes calls).tracked.get? oid = none := by
  have hmem := List.mem_of_getLast? hc
  obtain ⟨before, hbefore⟩ := List.getLast?_eq_some_iff.mp hc
  rw [get?_tracked_scheduleAll, hnone, hbefore]
  refine foldl_entry_concat before fun j hj => hpersist ?_
  obtain rfl : j = oid := by simpa [hj, Scheduling.oid] using (Scheduling.mem_own.mp hmem).2
  exact hj

section Rows

variable {h : Heap} {c : ChangeSet} {r : RowChange} {u : PendingUpdate} {t : Tracked}

theorem insert_mem_pending : .insert oid ∈ changedRows (w.pending h) ↔ oid ∈ w.insertions := by
  simp [changedRows, pending]

theorem delete_mem_pending : .delete oid ∈ changedRows (w.pending h) ↔ oid ∈ w.deletions := by
  simp [changedRows, pending]

theorem exists_of_update_mem_pending (hu : .update u ∈ changedRows (w.pending h)) :
    ∃ t, w.tracked.get? u.oid = some t ∧ t.state = .managed ∧ changeOf h (u.oid, t) = some u := by
  have hmem : u ∈ w.tracked.toList.filterMap (changeOf h) := by
    simpa [changedRows, pending] using hu
  obtain ⟨⟨oid, t⟩, he, hchange⟩ := List.mem_filterMap.mp hmem
  have hchange' := hchange
  rw [changeOf] at hchange
  split at hchange
  · rename_i hs
    obtain rfl := Option.some.inj hchange
    exact ⟨t, (w.tracked.get?_eq_some_iff oid t).mpr he, hs.1, hchange'⟩
  · simp at hchange

theorem tracked_of_mem_pending (hw : w.Consistent) (hr : r ∈ changedRows (w.pending h)) :
    ∃ t, w.tracked.get? r.oid = some t := by
  have tracked (hs : w.state r.oid ≠ .detached) : ∃ t, w.tracked.get? r.oid = some t := by
    obtain ⟨t, ht, -⟩ := exists_of_state hs
    exact ⟨t, ht⟩
  cases r with
  | insert oid =>
    refine tracked ?_
    simp [RowChange.oid, (hw.mem_insertions oid).mp (insert_mem_pending.mp hr)]
  | update u =>
    obtain ⟨t, ht, -⟩ := exists_of_update_mem_pending hr
    exact ⟨t, ht⟩
  | delete oid =>
    refine tracked ?_
    simp [RowChange.oid, (hw.mem_deletions oid).mp (delete_mem_pending.mp hr)]

theorem ne_of_mem_pending (hw : w.Consistent) (hoid : w.tracked.get? oid = none)
    (hr : r ∈ changedRows (w.pending h)) : r.oid ≠ oid := by
  rintro rfl
  obtain ⟨t, ht⟩ := tracked_of_mem_pending hw hr
  simp [ht] at hoid

theorem ne_of_mem_pending_of_unchanged (hw : w.Consistent) (ht : w.tracked.get? oid = some t)
    (hs : t.state = .managed)
    (hsame : changedFields t.snapshot (t.metadata.snapshotOf (h.content oid)) = [])
    (hr : r ∈ changedRows (w.pending h)) : r.oid ≠ oid := by
  rintro rfl
  have hstate : w.state r.oid = .managed := (state_of_get? ht).trans hs
  cases r with
  | insert oid => simp [(hw.mem_insertions oid).mp (insert_mem_pending.mp hr), RowChange.oid] at hstate
  | delete oid => simp [(hw.mem_deletions oid).mp (delete_mem_pending.mp hr), RowChange.oid] at hstate
  | update u =>
    obtain ⟨t', ht', -, hchange⟩ := exists_of_update_mem_pending hr
    obtain rfl : t = t' := Option.some.inj (ht.symm.trans ht')
    change changedFields t.snapshot (t.metadata.snapshotOf (h.content u.oid)) = [] at hsame
    simp [changeOf, hsame] at hchange

/-- The rows of a flush: an insert for each new instance, a delete for each removed one, and else
changes of managed ones. -/
structure Due (w : UnitOfWork) (h : Heap) (rows : List RowChange) : Prop where
  once : (rows.map RowChange.oid).Nodup
  inserts : ∀ oid, .insert oid ∈ rows ↔ w.state oid = .new
  deletes : ∀ oid, .delete oid ∈ rows ↔ w.state oid = .removed
  insertion : ∀ oid t, w.tracked.get? oid = some t →
    w.rowCalls h (.insert oid) = t.insertion (h.content oid)
  alteration : ∀ u, .update u ∈ rows → ∃ t key, w.tracked.get? u.oid = some t ∧
    t.state = .managed ∧ t.key = some key ∧
    w.rowCalls h (.update u) = t.alteration key (h.content u.oid)
  deletion : ∀ oid t, w.tracked.get? oid = some t → t.state = .removed →
    ∃ key, t.key = some key ∧ w.rowCalls h (.delete oid) = t.deletion key

theorem due (hw : w.Consistent) {address : Oid → IdentityKey}
    (haddress : ∀ oid t, w.tracked.get? oid = some t → t.state ≠ .new →
      t.key = some (address oid) ∧ (address oid).Full ∧ (address oid).Belongs t.metadata)
    (hc : w.changeSet h = .ok c) : w.Due h (changedRows (w.pending h)) where
  once := pending_eq hc ▸ nodup_changedRows hw hc
  inserts oid := insert_mem_pending.trans (hw.mem_insertions oid)
  deletes oid := delete_mem_pending.trans (hw.mem_deletions oid)
  insertion oid t ht := by rw [rowCalls_insert, ht, Option.elim_some]
  alteration u hu := by
    obtain ⟨t, ht, hs, hchange⟩ := exists_of_update_mem_pending hu
    obtain ⟨hkey, hfull, hbelongs⟩ := haddress u.oid t ht (by simp [hs])
    refine ⟨t, _, ht, hs, hkey, ?_⟩
    simpa [hchange] using flatMap_rowCalls_changeOf (h := h) ht hkey hfull hbelongs
  deletion oid t ht hs := by
    obtain ⟨hkey, hfull, hbelongs⟩ := haddress oid t ht (by simp [hs])
    exact ⟨_, hkey, rowCalls_delete ht hkey hfull hbelongs⟩

end Rows

end UnitOfWork

namespace Manager

section Calls

variable {σ : Type} {m : Manager σ} {c : Scheduling} {calls : List Scheduling}
  {classes : Oid → Schema.Metadata} {md : Schema.Metadata} {oid : Oid}

/-- An instance is of a registered class, and the class has identifier fields. -/
def Describes (m : Manager σ) (oid : Oid) (md : Schema.Metadata) : Prop :=
  m.registry.view (m.heap.typeOf oid).className = .ok md ∧ md.identifiers ≠ []

theorem run_persist (hr : m.registry.Sound) (hc : m.Describes oid md) :
    ∃ r, (persist oid).run m =
      (.ok ⟨⟩, { m with registry := r, work := m.work.persist oid md }) := by
  have hids : md.requireIdentifiers = .ok () := by
    simpa [Schema.Metadata.requireIdentifiers] using hc.2
  refine ⟨m.registry.remember (m.heap.typeOf oid).className md, ?_⟩
  rw [persist, Action.run_get_bind, Action.run_bind_of_ok (run_metadata hr hc.1), hids]
  rfl

theorem run_remove (hr : m.registry.Sound) (hc : m.Describes oid md)
    (classes : Oid → Schema.Metadata) :
    ∃ r, (remove oid).run m = ((Scheduling.remove oid).outcome m.work,
      { m with registry := r, work := m.work.schedule classes (.remove oid) }) := by
  have hdescribed : (discard (metadata (m.heap.typeOf oid))).run m =
      (.ok ⟨⟩, { m with registry := m.registry.remember (m.heap.typeOf oid).className md }) := by
    refine Action.Post.run_eq ?_
    rw [Action.post_discard, Action.post_of_run_ok (run_metadata hr hc.1)]
    exact ⟨rfl, rfl⟩
  refine ⟨m.registry.remember (m.heap.typeOf oid).className md, ?_⟩
  rw [remove, Action.run_get_bind, Action.run_bind_of_ok hdescribed, Action.run_get_bind,
    UnitOfWork.schedule, Scheduling.outcome]
  dsimp only
  cases hw : m.work.remove oid with
  | ok w =>
    rw [if_neg fun ht => by simp [UnitOfWork.remove, ht] at hw]
    rfl
  | error e =>
    obtain ⟨ht, rfl⟩ := UnitOfWork.remove_eq_error hw
    rw [if_pos ht]
    rfl

variable [Connection σ]

def afterAll (m : Manager σ) (calls : List Scheduling) : Manager σ :=
  calls.foldl (fun m c => c.operation.after m) m

theorem run_scheduling (hr : m.registry.Sound) (hc : m.Describes c.oid (classes c.oid)) :
    ∃ r, m.registry.Agrees r ∧ c.operation.run.run m =
      (c.outcome m.work, { m with registry := r, work := m.work.schedule classes c }) := by
  have hagrees : m.registry.Agrees (c.operation.run.run m).2.registry := c.operation.within_run m
  suffices hrun : ∃ r, c.operation.run.run m =
      (c.outcome m.work, { m with registry := r, work := m.work.schedule classes c }) by
    obtain ⟨r, hrun⟩ := hrun
    rw [hrun] at hagrees
    exact ⟨r, hagrees, hrun⟩
  cases c with
  | persist oid => exact run_persist hr hc
  | remove oid => exact run_remove hr hc classes
  | detach oid => exact ⟨m.registry, rfl⟩

theorem afterAll_eq (hr : m.registry.Sound) (hc : ∀ c ∈ calls, m.Describes c.oid (classes c.oid)) :
    ∃ r, m.registry.Agrees r ∧
      m.afterAll calls = { m with registry := r, work := m.work.scheduleAll classes calls } := by
  induction calls generalizing m with
  | nil => exact ⟨m.registry, Std.Refl.refl _, rfl⟩
  | cons c rest ih =>
    obtain ⟨r, hagrees, hrun⟩ := run_scheduling hr (hc c List.mem_cons_self)
    have hafter : c.operation.after m =
        { m with registry := r, work := m.work.schedule classes c } := by
      rw [Operation.after, hrun]
    obtain ⟨r', hagrees', hrest⟩ := ih (m := c.operation.after m) (by rw [hafter]; exact hagrees.sound hr)
      fun d hd => by
        rw [hafter, Describes, hagrees.view_eq hr]
        exact hc d (List.mem_cons_of_mem c hd)
    rw [hafter] at hagrees' hrest
    refine ⟨r', Trans.trans (r := Schema.Registry.Agrees) hagrees hagrees', ?_⟩
    rw [afterAll, List.foldl_cons, ← afterAll, hafter, hrest]
    rfl

theorem Describes.afterAll (hd : m.Describes oid md) (hr : m.registry.Sound)
    (hc : ∀ c ∈ calls, m.Describes c.oid (classes c.oid)) :
    (m.afterAll calls).registry.Sound ∧ (m.afterAll calls).Describes oid md := by
  obtain ⟨r, hagrees, hafter⟩ := afterAll_eq hr hc
  rw [hafter]
  refine ⟨hagrees.sound hr, ?_⟩
  rw [Describes, hagrees.view_eq hr]
  exact hd

theorem outcome_afterAll (hr : m.registry.Sound)
    (hc : ∀ c ∈ calls, m.Describes c.oid (classes c.oid)) (hd : m.Describes c.oid (classes c.oid)) :
    (c.operation.run.run (m.afterAll calls)).1 = c.outcome (m.afterAll calls).work ∧
      ((c.outcome (m.afterAll calls).work).isOk = false → ∃ r,
        (m.afterAll calls).registry.Agrees r ∧
        c.operation.after (m.afterAll calls) = { m.afterAll calls with registry := r }) := by
  obtain ⟨hr', hd'⟩ := hd.afterAll hr hc
  obtain ⟨r, hagrees, hrun⟩ := run_scheduling hr' hd'
  refine ⟨by rw [hrun], fun hfailed => ⟨r, hagrees, ?_⟩⟩
  have hsame : (m.afterAll calls).work.schedule classes c = (m.afterAll calls).work :=
    UnitOfWork.schedule_of_refused hfailed
  rw [Operation.after, hrun, hsame]

theorem Reachable.afterAll (h : Reachable anyOperation m) (calls : List Scheduling) :
    Reachable anyOperation (m.afterAll calls) := by
  induction calls generalizing m with
  | nil => exact h
  | cons c rest ih => exact ih (h.run ((Runs.done m).operation c.operation trivial))

end Calls

section Flushing

variable {σ : Type} [Connection σ] {m : Manager (Recorded σ)} {calls : List Scheduling}

theorem flush_due (hw : m.work.Consistent) {address : Oid → IdentityKey}
    (haddress : ∀ oid t, m.work.tracked.get? oid = some t → t.state ≠ .new →
      t.key = some (address oid) ∧ (address oid).Full ∧ (address oid).Belongs t.metadata)
    {t : Manager (Recorded σ)} (hrun : flush.run m = (.ok ⟨⟩, t)) :
    ∃ made rows, m.work.Due m.heap rows ∧
      t.session.connection.calls = m.session.connection.calls ++ made ∧
      works made = rows.flatMap (m.work.rowCalls m.heap) := by
  obtain ⟨made, hmade, -, hall⟩ := flush_makes hw hrun
  obtain ⟨c, hc, -⟩ := (post_flush_wrote hw).of_run_ok hrun
  exact ⟨made, _, UnitOfWork.due hw haddress hc, hmade, hall rfl⟩

theorem flush_spares (hw : m.work.Consistent) {oid : Oid}
    (hoid : ∀ row ∈ UnitOfWork.changedRows (m.work.pending m.heap), row.oid ≠ oid)
    {t : Manager (Recorded σ)} {r : Except Error Unit} (hrun : flush.run m = (r, t)) :
    ∃ (made : List CallRecord) (rows : List UnitOfWork.RowChange), (∀ row ∈ rows, row.oid ≠ oid) ∧
      t.session.connection.calls = m.session.connection.calls ++ made ∧
      works made <+: rows.flatMap (m.work.rowCalls m.heap) := by
  obtain ⟨made, hmade, hprefix, -⟩ := flush_makes hw hrun
  exact ⟨made, _, hoid, hmade, hprefix⟩

/-- What an instance comes to depends on its own calls only, and a call fails only if it removes an
instance that is not tracked, which does nothing. A flush that succeeds inserts the instances that
are new by then and deletes those that are removed. Nothing is sent for one that was not tracked
and was removed or detached last. -/
theorem scheduled_per_instance (classes : Oid → Schema.Metadata) (h : Reachable anyOperation m)
    (hclass : ∀ c ∈ calls, m.Describes c.oid (classes c.oid)) :
    ((m.afterAll calls).heap = m.heap ∧ (m.afterAll calls).session = m.session) ∧
    (∀ oid, UnitOfWork.Agree oid (m.afterAll calls).work
      (m.afterAll (Scheduling.own calls oid)).work) ∧
    (∀ before c after, calls = before ++ c :: after →
      (c.operation.run.run (m.afterAll before)).1 = c.outcome (m.afterAll before).work ∧
      ((c.outcome (m.afterAll before).work).isOk = false → ∃ r,
        (m.afterAll before).registry.Agrees r ∧
        c.operation.after (m.afterAll before) = { m.afterAll before with registry := r })) ∧
    (∀ m₁ t : Manager (Recorded σ), m₁.work = (m.afterAll calls).work →
      flush.run m₁ = (.ok ⟨⟩, t) → ∃ made rows, m₁.work.Due m₁.heap rows ∧
        t.session.connection.calls = m₁.session.connection.calls ++ made ∧
        works made = rows.flatMap (m₁.work.rowCalls m₁.heap)) ∧
    ∀ oid c, m.work.tracked.get? oid = none → (Scheduling.own calls oid).getLast? = some c →
      c ≠ .persist oid → (m.afterAll calls).work.tracked.get? oid = none ∧
      ∀ (m₁ t : Manager (Recorded σ)) (r : Except Error Unit), m₁.work = (m.afterAll calls).work →
        flush.run m₁ = (r, t) → ∃ (made : List CallRecord) (rows : List UnitOfWork.RowChange),
          (∀ row ∈ rows, row.oid ≠ oid) ∧
          t.session.connection.calls = m₁.session.connection.calls ++ made ∧
          works made <+: rows.flatMap (m₁.work.rowCalls m₁.heap) := by
  have hsound := h.described.1
  have hlast := h.afterAll calls
  obtain ⟨r, -, hafter⟩ := afterAll_eq hsound hclass
  refine ⟨by rw [hafter]; exact ⟨rfl, rfl⟩, fun oid => ?_, ?_, ?_, ?_⟩
  · have hown : ∀ c ∈ Scheduling.own calls oid, m.Describes c.oid (classes c.oid) :=
      fun c hc => hclass c (Scheduling.mem_own.mp hc).1
    obtain ⟨r', -, halone⟩ := afterAll_eq hsound hown
    rw [hafter, halone]
    exact UnitOfWork.agree_own h.consistent oid
  · rintro before c after rfl
    refine outcome_afterAll hsound (fun d hd => hclass d ?_) (hclass c ?_)
    · exact List.mem_append_left _ hd
    · simp
  · intro m₁ t hwork hrun
    obtain ⟨address, -, haddress⟩ := exists_address hlast
    rw [← hwork] at haddress
    exact flush_due (hwork ▸ hlast.consistent) haddress hrun
  · intro oid c hnone hc hpersist
    have huntracked : (m.afterAll calls).work.tracked.get? oid = none := by
      rw [hafter]
      exact UnitOfWork.untracked_scheduleAll hnone hc hpersist
    refine ⟨huntracked, fun m₁ t r hwork hrun => ?_⟩
    have hw : m₁.work.Consistent := hwork ▸ hlast.consistent
    exact flush_spares hw (fun _ => UnitOfWork.ne_of_mem_pending hw (hwork ▸ huntracked)) hrun

open Sample in
def busy : Manager (Recorded Scripted) :=
  let start := manager [userObject none "Ann", userObject none "Dan"]
    { inner := ⟨[[userRow (.int 2) "Bob"]], false⟩ }
  (Operation.persist ⟨0⟩).after ((Operation.find user (.scalar (.int 2))).after start)

theorem reachable_busy : Reachable anyOperation busy := by
  have built : Reachable anyOperation (Sample.manager
      [Sample.userObject none "Ann", Sample.userObject none "Dan"]
      ({ inner := ⟨[[Sample.userRow (.int 2) "Bob"]], false⟩ } : Recorded Sample.Scripted)) :=
    .built (Sample.build_manager ..)
  exact built.run (((Runs.done _).operation (.find _ _) trivial).operation (.persist ⟨0⟩) trivial)

def scattered : List Scheduling :=
  [.remove ⟨2⟩, .persist ⟨1⟩, .remove ⟨0⟩, .remove ⟨1⟩, .remove ⟨1⟩, .persist ⟨0⟩]

theorem describes_busy : ∀ c ∈ scattered, busy.Describes c.oid Sample.userMetadata := by
  have hview : busy.registry.view "User" = .ok Sample.userMetadata := by decide +kernel
  have htype : ∀ c ∈ scattered, (busy.heap.typeOf c.oid).className = "User" := by decide +kernel
  intro c hc
  exact ⟨by rw [htype c hc, hview], by decide⟩

theorem scheduled_per_instance_busy :
    UnitOfWork.Agree ⟨0⟩ (busy.afterAll scattered).work
      (busy.afterAll [.remove ⟨0⟩, .persist ⟨0⟩]).work ∧
    ((remove ⟨1⟩).run (busy.afterAll (scattered.take 4))).1 =
      .error (.state (.notManaged ⟨1⟩)) ∧
    (busy.afterAll scattered).work.tracked.get? ⟨1⟩ = none ∧
    ∃ t made, flush.run (busy.afterAll scattered) = (.ok ⟨⟩, t) ∧
      t.session.connection.calls = busy.session.connection.calls ++ made ∧
      works made = [.update "INSERT INTO users (name) VALUES (?)" [.text "Ann"], .lastInsertId,
        .update "DELETE FROM users WHERE id = ?" [.int 2]] := by
  obtain ⟨⟨-, hsession⟩, hagree, houtcome, hflush, huntracked⟩ :=
    scheduled_per_instance (fun _ => Sample.userMetadata) reachable_busy describes_busy
  have hdone : (flush.run (busy.afterAll scattered)).1.isOk = true := by decide +kernel
  match hrun : flush.run (busy.afterAll scattered) with
  | (.ok x, t) =>
    obtain ⟨made, rows, -, hmade, -⟩ := hflush _ t rfl hrun
    rw [hsession] at hmade
    have hcalls : made = t.session.connection.calls.drop busy.session.connection.calls.length := by
      rw [hmade, List.drop_left]
    have ht : t = (flush.run (busy.afterAll scattered)).2 := by rw [hrun]
    refine ⟨hagree ⟨0⟩, (houtcome (scattered.take 4) (.remove ⟨1⟩) [.persist ⟨0⟩] rfl).1.trans ?_,
      (huntracked ⟨1⟩ (.remove ⟨1⟩) (by decide +kernel) (by decide) (by decide)).1,
      t, made, rfl, hmade, ?_⟩
    · decide +kernel
    · rw [hcalls, ht]
      decide +kernel
  | (.error e, t) => simp [hrun, Except.isOk, Except.toBool] at hdone

end Flushing

end Manager
end Persistence
