import Persistence.Proofs.MemoryStore
import Persistence.Proofs.Underway

/-!
Writing back. After a flush that succeeds each managed instance has the one row under its key, with
the values it holds; the rows of removed instances are gone and all other rows are as they were.
After a flush that fails the tables are as they were.
-/

namespace Persistence

open Schema (Metadata)

namespace UnitOfWork

variable {σ : Type} [Connection σ] {classes : Metadata → Prop} {db : Store σ classes}
  {env : Environment σ} {w : UnitOfWork} {h₀ h : Heap} {c : ChangeSet} {places₀ places : Places}
  {tables₀ : Tables} {written : List Written} {t : Tracked} {oid : Oid}

namespace Ready

theorem mem_changedRows_iff (hr : w.Ready classes h₀ c places₀ tables₀)
    (hoids : written.map Written.oid = c.inserts ++ c.updates.map PendingUpdate.oid) :
    oid ∈ (changedRows c).map RowChange.oid ↔
      oid ∈ written.map Written.oid ∨ oid ∈ w.deletions := by
  rw [hoids, ← (changeSet_eq hr.changes).2.1]
  simp [changedRows, RowChange.oid, Function.comp_def, or_assoc]

section After

variable {tables : Tables} (hr : w.Ready classes h₀ c places₀ tables₀)
  (hu : Underway w h₀ places₀ (changedRows c) written h places tables)
  (hoids : written.map Written.oid = c.inserts ++ c.updates.map PendingUpdate.oid)
  (hwrote : w.Wrote written)

include hr hu hoids hwrote

theorem tracked_after (ht : (w.apply written w.deletions).tracked.get? oid = some t) :
    t.state = .managed ∧ ∃ key values r, t.key = some key ∧ h.values t.metadata oid = .ok values ∧
      places oid = some ⟨t.metadata, r⟩ ∧ r.Meets (key.conditions t.metadata) ∧
      r.Mirrors t.metadata values := by
  have hc := hr.consistent
  by_cases hd : oid ∈ w.deletions
  · simp [hc.get?_tracked_apply_of_deleted hwrote hd] at ht
  by_cases hx : oid ∈ written.map Written.oid
  · obtain ⟨x, hmem, rfl⟩ := List.mem_map.mp hx
    obtain ⟨-, t₀, r, ht₀, hplace, hin⟩ := hu.written x hmem
    rw [hc.get?_tracked_apply_of_written hwrote hmem, ht₀] at ht
    obtain rfl := Option.some.inj ht
    exact ⟨rfl, x.key, x.snapshot, r, rfl, hin.values, hplace, hin.meets, hin.mirrors⟩
  · rw [hc.get?_tracked_apply_of_kept hwrote hx hd] at ht
    have hs : t.state = .managed := by
      have hstate := state_of_get? ht
      cases hs : t.state with
      | managed => rfl
      | new =>
        rw [hs, ← hc.mem_insertions] at hstate
        obtain ⟨x, hmem, rfl⟩ := hwrote.covers oid hstate
        exact absurd (List.mem_map_of_mem hmem) hx
      | removed =>
        rw [hs, ← hc.mem_deletions] at hstate
        exact absurd hstate hd
      | detached => exact absurd hs (hc.not_detached oid t ht)
    have hnot : oid ∉ (changedRows c).map RowChange.oid := by
      rw [hr.mem_changedRows_iff hoids, not_or]
      exact ⟨hx, hd⟩
    obtain ⟨hplace, hobject⟩ := hu.waiting oid hnot
    obtain ⟨key, hst⟩ := hr.exists_stored ht (.inl hs)
    obtain ⟨r, hrow, hmeets⟩ := hr.stored.stored oid t key hst
    -- an instance that is not updated still has the values of its snapshot
    obtain ⟨current, hcurrent, hsame⟩ := unchanged_of_not_mem_updates hr.changes ht hs
      fun hmem => hx (by rw [hoids]; exact List.mem_append_right _ hmem)
    have hmirrors := hr.snapshots oid t key r hst hrow
    have hvalues := Heap.values_eq hcurrent
    rw [hvalues] at hsame
    exact ⟨hs, key, current, r, hst.2.2, (Heap.values_congr hobject).trans hcurrent,
      hplace.trans hrow, hmeets, hvalues ▸ hmirrors.of_unchanged hsame⟩

theorem places_after : places.Of (w.apply written w.deletions) where
  stored := by
    intro oid t key hst
    obtain ⟨-, key', values, r, hkey, -, hplace, hmeets, -⟩ := hr.tracked_after hu hoids hwrote hst.1
    rw [hst.2.2] at hkey
    obtain rfl := Option.some.inj hkey
    exact ⟨r, hplace, hmeets⟩
  only := by
    intro oid p hp
    have hc := hr.consistent
    suffices h : ∃ t, (w.apply written w.deletions).tracked.get? oid = some t by
      obtain ⟨t, ht⟩ := h
      obtain ⟨hs, key, -, -, hkey, -⟩ := hr.tracked_after hu hoids hwrote ht
      exact ⟨t, key, ht, .inl hs, hkey⟩
    by_cases hd : oid ∈ w.deletions
    · have hdelete : .delete oid ∈ changedRows c := by
        rw [← (changeSet_eq hr.changes).2.1] at hd
        simpa [changedRows] using hd
      rw [(hu.deleted oid hdelete).1] at hp
      simp at hp
    by_cases hx : oid ∈ written.map Written.oid
    · obtain ⟨x, hmem, rfl⟩ := List.mem_map.mp hx
      obtain ⟨-, t, -, ht, -⟩ := hu.written x hmem
      exact ⟨x.record t, by rw [hc.get?_tracked_apply_of_written hwrote hmem, ht]; rfl⟩
    · have hnot : oid ∉ (changedRows c).map RowChange.oid := by
        rw [hr.mem_changedRows_iff hoids, not_or]
        exact ⟨hx, hd⟩
      rw [(hu.waiting oid hnot).1] at hp
      obtain ⟨t, key, hst⟩ := hr.stored.only oid p hp
      exact ⟨t, by rw [hc.get?_tracked_apply_of_kept hwrote hx hd, hst.1]⟩

theorem writtenBack (hunclaimed : places.unclaimed tables = places₀.unclaimed tables₀) :
    w.WrittenBack (w.apply written w.deletions) h tables₀ tables where
  managed := by
    intro oid t ht _
    obtain ⟨-, key, values, r, hkey, hvalues, hplace, hmeets, hmirrors⟩ :=
      hr.tracked_after hu hoids hwrote ht
    exact ⟨key, values, r, hkey, hvalues, hu.laid.rowsUnder_eq hplace hmeets, hmirrors⟩
  removed := by
    intro oid t key ht hs hkey
    have hd : oid ∈ w.deletions := by
      rw [hr.consistent.mem_deletions, state_of_get? ht, hs]
    have hdelete : .delete oid ∈ changedRows c := by
      rw [← (changeSet_eq hr.changes).2.1] at hd
      simpa [changedRows] using hd
    exact Multiset.filter_eq_nil.mpr ((hu.deleted oid hdelete).2 t key ⟨ht, .inr hs, hkey⟩)
  others := by
    rw [← unclaimed_eq (hr.places_after hu hoids hwrote), hunclaimed, unclaimed_eq hr.stored]

end After

end Ready

theorem apply_nil (hc : w.changeSet h = .ok c) (hempty : c.isEmpty = true) :
    w.apply [] w.deletions = w := by
  obtain ⟨hins, hdel, -⟩ := changeSet_eq hc
  simp only [ChangeSet.isEmpty, Bool.and_eq_true, List.isEmpty_iff, hins, hdel] at hempty
  rw [apply, hempty.2, List.foldl_nil, List.foldl_nil, ← hempty.1.1]

theorem Mirrored.post_commit (db : Store σ classes) (hc : w.Consistent) (hk : w.Keyed)
    (hclasses : ∀ oid t, w.tracked.get? oid = some t → classes t.metadata)
    (hd : env.session.depth = 0) (hm : w.Mirrored env.heap (db.holds env.session).tables)
    (happart : w.IdentifiersApart) :
    w.commit.Post
      (fun w' env' => w.WrittenBack w' env'.heap (db.holds env.session).tables
        (db.holds env'.session).tables)
      (fun _ env' => (db.holds env'.session).tables = (db.holds env.session).tables) env := by
  obtain ⟨places, hstored, hlaid, hsnapshots⟩ := hm.exists_places hk
  simp only [commit, Action.post_bind, Action.post_get, Action.post_liftExcept, Action.post_ite,
    Action.post_pure, implies_true, and_true]
  intro c hchanges
  have hr : w.Ready classes env.heap c places (db.holds env.session).tables :=
    ⟨hc, hchanges, hm, happart, hclasses, hlaid, hstored, hsnapshots⟩
  refine ⟨fun hempty => ?_, fun _ => ?_⟩
  · have hempty' := hempty
    simp only [ChangeSet.isEmpty, Bool.and_eq_true, List.isEmpty_iff] at hempty'
    have hnone : changedRows c = [] := by simp [changedRows, hempty']
    have hoids : ([] : List Written).map Written.oid =
        c.inserts ++ c.updates.map PendingUpdate.oid := by simp [hempty']
    have hback := hr.writtenBack (hnone ▸ hr.start) hoids (wrote hc hchanges hoids (by simp)) rfl
    rwa [apply_nil hchanges hempty] at hback
  refine (Environment.post_onSession (db.post_begin hd)).mono (fun _ inner hinner => ?_)
    fun _ _ h => h.2
  obtain ⟨hheap, hdepth, htables, hsaved⟩ := hinner
  rw [← hheap, ← htables] at hr
  rw [Action.post_attempt]
  refine ((UnitOfWork.post_write c inner).and hr.post_write).mono (fun written done hdone => ?_)
    fun e failed hfailed => ?_
  · obtain ⟨⟨hoids, hkeys⟩, places', ⟨hnesting, hsaved'⟩, hunclaimed, hu⟩ := hdone
    have hcommit := Environment.post_onSession (db.post_commit (hnesting.1.trans hdepth))
    simp only [Action.post_bind, Action.post_pure]
    refine hcommit.mono (fun _ env' henv' => ?_) fun _ env' henv' => ?_
    · rw [henv'.1, henv'.2, (changeSet_eq hchanges).2.1, ← htables]
      exact hr.writtenBack hu hoids (wrote hc hchanges hoids hkeys) hunclaimed
    · rw [henv'.2, hsaved', hsaved]
  · obtain ⟨-, hnesting, hsaved'⟩ := hfailed
    have hback := Environment.post_onSession (db.post_rollback (hnesting.1.trans hdepth))
    simp only [Action.post_bind, Action.post_discard, Action.post_attempt, Action.post_throw]
    -- the same holds whether the rollback itself succeeds or fails
    refine hback.mono (fun _ env' henv' => ?_) fun _ env' henv' => ?_
    all_goals rw [henv'.2, hsaved', hsaved]

end UnitOfWork

namespace Manager

variable {σ : Type} [Connection σ] {classes : Metadata → Prop} {m m' : Manager σ}

/-- After a flush that answers, outside of all transactions, each managed instance has the one row
under its key, with the values it holds; the rows of the removed instances are gone and all other
rows are as before. After a flush that fails all rows are as before. -/
theorem flush_writes_back (db : Store σ classes) (h : Reachable anyOperation m)
    (hd : m.session.depth = 0)
    (hclasses : ∀ oid t, m.work.tracked.get? oid = some t → classes t.metadata)
    (hm : m.work.Mirrored m.heap (db.holds m.session).tables) (happart : m.work.IdentifiersApart) :
    (∀ m', flush.run m = (.ok (), m') → m.work.WrittenBack m'.work m'.heap
      (db.holds m.session).tables (db.holds m'.session).tables) ∧
    ∀ e m', flush.run m = (.error e, m') →
      (db.holds m'.session).tables = (db.holds m.session).tables := by
  have hflush : flush.Post
      (fun _ m' => m.work.WrittenBack m'.work m'.heap (db.holds m.session).tables
        (db.holds m'.session).tables)
      (fun _ m' => (db.holds m'.session).tables = (db.holds m.session).tables) m := by
    rw [post_flush_iff]
    exact hm.post_commit db h.consistent h.keyed hclasses hd happart
  exact ⟨fun _ => hflush.of_run_ok, fun _ _ => hflush.of_run_error⟩

open Sample in
def stored : Manager Memory :=
  let start := manager [userObject none "Ann", userObject none "Bob", userObject none "Cy"]
    { supply := [⟨1, "1", rfl⟩, ⟨2, "2", rfl⟩, ⟨3, "3", rfl⟩] }
  Operation.flush.after ((Operation.persist ⟨1⟩).after ((Operation.persist ⟨0⟩).after start))

open Sample in
def pending : Manager Memory :=
  let edited := Sample.heap
    [userObject (some 1) "Anna", userObject (some 2) "Bob", userObject none "Cy"]
  (Operation.persist ⟨2⟩).after ((Operation.remove ⟨1⟩).after
    ((Operation.edit edited).after stored))

theorem reachable_pending : Reachable anyOperation pending := by
  have built : Reachable anyOperation (Sample.manager [Sample.userObject none "Ann",
      Sample.userObject none "Bob", Sample.userObject none "Cy"]
      ({ supply := [⟨1, "1", rfl⟩, ⟨2, "2", rfl⟩, ⟨3, "3", rfl⟩] } : Sample.Memory)) :=
    .built (Sample.build_manager ..)
  have hstored : Reachable anyOperation stored := built.run
    ((((Runs.done _).operation (.persist ⟨0⟩) trivial).operation (.persist ⟨1⟩) trivial).operation
      .flush trivial)
  exact hstored.run
    ((((Runs.done _).operation (.edit _) trivial).operation (.remove ⟨1⟩) trivial).operation
      (.persist ⟨2⟩) trivial)

theorem flush_writes_back_pending :
    pending.session.depth = 0 ∧
      pending.work.Mirrored pending.heap (Sample.Memory.store.holds pending.session).tables ∧
      ∃ m', flush.run pending = (.ok (), m') ∧
        m'.session.connection.users.toList = [(3, .text "Cy"), (1, .text "Anna")] ∧
        pending.work.WrittenBack m'.work m'.heap
          (Sample.Memory.store.holds pending.session).tables
          (Sample.Memory.store.holds m'.session).tables := by
  have hdepth : pending.session.depth = 0 := by decide +kernel
  have hm : pending.work.Mirrored pending.heap
      (Sample.Memory.store.holds pending.session).tables :=
    Sample.Memory.mirrored (by decide +kernel) (by decide +kernel)
  have husers : ∀ e ∈ pending.work.tracked.toList, e.2.metadata = Sample.userMetadata := by
    decide +kernel
  have hmetadata (oid : Oid) (t : Tracked) (ht : pending.work.tracked.get? oid = some t) :
      t.metadata = Sample.userMetadata := husers (oid, t) ((OrderedMap.get?_eq_some_iff ..).mp ht)
  have happart : pending.work.IdentifiersApart := by
    intro oid t ht _ _
    rw [hmetadata oid t ht]
    unfold Schema.Metadata.IdentifiersApart Schema.Field.OwnSlot
    decide
  obtain ⟨hback, -⟩ := flush_writes_back Sample.Memory.store reachable_pending hdepth
    (fun oid t ht => hmetadata oid t ht ▸ Sample.aboutUsers_userMetadata) hm happart
  have hok : (flush.run pending).1 = .ok () := by decide +kernel
  have hrun : flush.run pending = (.ok (), (flush.run pending).2) := by
    rw [← hok, Prod.mk.eta]
  have hafter : (flush.run pending).2.session.connection.users.toList =
      [(3, .text "Cy"), (1, .text "Anna")] := by decide +kernel
  exact ⟨hdepth, hm, _, hrun, hafter, hback _ hrun⟩

def visitor : EntityType := ⟨"Visitor", 0⟩

def visitorMapping : Schema.Mapping where
  isEntity := true
  table := some "users"
  fields :=
    [{ name := "id", type := .integer, accessor := ⟨visitor, 0⟩, isIdentifier := true },
     { name := "number", type := .integer, accessor := ⟨visitor, 0⟩, column := some "name" }]

def visitorMetadata : Metadata := visitorMapping.toMetadata "Visitor" (by decide)

def visitorSlots : List Slot := [.initial "id" ⟨.int64, true⟩]

def visitors : Manager Sample.Memory where
  heap := ⟨.ofList [(visitor, visitorSlots)], [⟨⟨visitor, visitorSlots⟩, .none⟩]⟩
  session := { connection := { supply := [⟨1, "1", rfl⟩] } }
  registry := Schema.Registry.empty.register "Visitor" visitorMapping
  cache := .empty
  work := .empty

def visiting : Manager Sample.Memory := (Operation.persist ⟨0⟩).after visitors

theorem reachable_visiting : Reachable anyOperation visiting := by
  have hbuild : build { registrations := [⟨visitor, visitorMapping⟩] } visitors.heap
      visitors.session.connection = .ok visitors := rfl
  exact (Reachable.built hbuild).run ((Runs.done _).operation (.persist ⟨0⟩) trivial)

theorem mirrored_visiting :
    visiting.work.Mirrored visiting.heap (Sample.Memory.store.holds visiting.session).tables := by
  have htracked : visiting.work.tracked.toList = [(⟨0⟩, ⟨visitorMetadata, .new, [], none⟩)] := by
    decide +kernel
  have hnew (oid : Oid) (t : Tracked) (ht : visiting.work.tracked.get? oid = some t) :
      oid = ⟨0⟩ ∧ t = ⟨visitorMetadata, .new, [], none⟩ := by
    simpa [htracked] using (OrderedMap.get?_eq_some_iff ..).mp ht
  constructor
  case tables_distinct =>
    intro i j t u ht hu _
    rw [(hnew i t ht).2, (hnew j u hu).2]
  case columns_nodup =>
    intro oid t ht
    rw [(hnew oid t ht).2]
    decide
  case fits =>
    intro oid t ht
    obtain ⟨rfl, rfl⟩ := hnew oid t ht
    refine ⟨fun f hf => ⟨.initial "id" ⟨.int64, true⟩, ?_⟩⟩
    have hslot : f.accessor.slot = 0 ∧ f.type = .integer := by
      revert f
      decide
    rw [hslot.1, hslot.2]
    exact ⟨rfl, rfl⟩
  case no_default =>
    intro oid t ht _ f hf hdefault
    have hnone : ∀ f ∈ visitorMetadata.fields, f.default = none := by decide
    rw [(hnew oid t ht).2] at hf
    simp [hnone f hf] at hdefault
  case keys_distinct =>
    intro i j key hi _
    obtain ⟨t, ht, hkey⟩ := UnitOfWork.exists_of_keyOf hi
    simp [(hnew i t ht).2] at hkey
  case rows =>
    rintro oid t key ⟨ht, -, hkey⟩
    simp [(hnew oid t ht).2] at hkey

def visited : Manager Sample.Memory := (flush.run visiting).2

theorem tracked_visited : ∃ t, visited.work.tracked.get? ⟨0⟩ = some t ∧ t.state = .managed ∧
    t.metadata = visitorMetadata ∧
    visited.heap.values t.metadata ⟨0⟩ = .ok [("id", .int 1), ("number", .int 1)] := by
  have hafter : (visited.work.tracked.get? ⟨0⟩).map (fun t =>
      (t.state, t.metadata, visited.heap.values t.metadata ⟨0⟩)) =
      some (.managed, visitorMetadata, .ok [("id", .int 1), ("number", .int 1)]) := by
    decide +kernel
  obtain ⟨t, ht, hafter⟩ := Option.map_eq_some_iff.mp hafter
  obtain ⟨hs, hafter⟩ := Prod.mk.inj hafter
  obtain ⟨hmetadata, hvalues⟩ := Prod.mk.inj hafter
  exact ⟨t, ht, hs, hmetadata, hvalues⟩

theorem eq_of_mem_visited {key : IdentityKey} {r : Record}
    (hr : r ∈ visitorMetadata.rowsUnder key
      (Sample.Memory.store.holds visited.session).tables) : r = Sample.Users.record (1, .null) := by
  have husers : visited.session.connection.users.toList = [(1, .null)] := by decide +kernel
  have hmem : r ∈ Sample.Memory.tables visited.session.connection.users "users" :=
    (Multiset.mem_filter.mp hr).1
  rw [Sample.Memory.tables_users, Sample.Users.records, husers] at hmem
  simpa using hmem

/-- A field that stands in the slot of a generated identifier gets the identifier as its value, but
its column keeps what was written before. -/
theorem flush_not_written_back :
    Reachable anyOperation visiting ∧ visiting.session.depth = 0 ∧
      (∀ oid t, visiting.work.tracked.get? oid = some t → Sample.AboutUsers t.metadata) ∧
      visiting.work.Mirrored visiting.heap (Sample.Memory.store.holds visiting.session).tables ∧
      ∃ m', flush.run visiting = (.ok (), m') ∧
        ¬ visiting.work.WrittenBack m'.work m'.heap
          (Sample.Memory.store.holds visiting.session).tables
          (Sample.Memory.store.holds m'.session).tables := by
  have habout : ∀ e ∈ visiting.work.tracked.toList, e.2.metadata = visitorMetadata := by
    decide +kernel
  have hvisitor : Sample.AboutUsers visitorMetadata := ⟨rfl, rfl, rfl, by decide, rfl⟩
  have hok : (flush.run visiting).1 = .ok () := by decide +kernel
  have hrun : flush.run visiting = (.ok (), visited) := by rw [← hok, visited, Prod.mk.eta]
  refine ⟨reachable_visiting, by decide +kernel, fun oid t ht => ?_, mirrored_visiting, visited,
    hrun, fun hback => ?_⟩
  · rw [habout (oid, t) ((OrderedMap.get?_eq_some_iff ..).mp ht)]
    exact hvisitor
  obtain ⟨t, ht, hs, hmetadata, hvalues⟩ := tracked_visited
  obtain ⟨key, values, r, -, hvalues', hrows, hmirrors⟩ := hback.managed ⟨0⟩ t ht hs
  rw [hvalues] at hvalues'
  obtain rfl := Except.ok.inj hvalues'
  rw [hmetadata] at hrows hmirrors
  have hrecord : r = Sample.Users.record (1, .null) :=
    eq_of_mem_visited (hrows ▸ Multiset.mem_singleton_self r)
  obtain ⟨f, hf, hname, hcolumn⟩ : ∃ f ∈ visitorMetadata.fields, f.name = "number" ∧
      f.column = "name" := by decide
  have hnumber := hmirrors f hf
  rw [hname, hcolumn, hrecord] at hnumber
  simp [lookupEntry, Sample.Users.record] at hnumber

end Manager
end Persistence
