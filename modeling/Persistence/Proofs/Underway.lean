import Persistence.Proofs.Sending

/-!
A flush underway. While the rows are sent, an instance whose turn has not come keeps its place and
its values, a written one is in its new place, and no row is left under the key of a deleted one.
Deletes come last, so no instance takes such a key afterwards.
-/

namespace Persistence

open Schema (Metadata Snapshot Field)

namespace UnitOfWork

variable {w : UnitOfWork} {h₀ h : Heap} {c : ChangeSet}

theorem nodup_changedRows (hw : w.Consistent) (hc : w.changeSet h = .ok c) :
    ((changedRows c).map RowChange.oid).Nodup := by
  obtain ⟨hins, hdel, -⟩ := changeSet_eq hc
  have hoids : (changedRows c).map RowChange.oid =
      w.insertions ++ (c.updates.map PendingUpdate.oid ++ w.deletions) := by
    simp [changedRows, RowChange.oid, Function.comp_def, hins, hdel]
  have hmanaged (oid : Oid) (hu : oid ∈ c.updates.map PendingUpdate.oid) :
      w.state oid = .managed := by
    obtain ⟨u, hmem, rfl⟩ := List.mem_map.mp hu
    exact state_of_mem_updates hc hmem
  rw [hoids, List.nodup_append, List.nodup_append]
  refine ⟨hw.insertions_nodup, ⟨nodup_updates hc, hw.deletions_nodup, ?_⟩, ?_⟩
  · rintro a ha _ hb rfl
    have hstate := hmanaged a ha
    rw [(hw.mem_deletions a).mp hb] at hstate
    simp at hstate
  · rintro a ha _ hb rfl
    have hstate := (hw.mem_insertions a).mp ha
    rcases List.mem_append.mp hb with hb | hb
    · rw [hmanaged a hb] at hstate
      simp at hstate
    · rw [(hw.mem_deletions a).mp hb] at hstate
      simp at hstate

def RowChange.isDelete : RowChange → Bool
  | .insert _ => false
  | .update _ => false
  | .delete _ => true

theorem pairwise_changedRows (c : ChangeSet) :
    (changedRows c).Pairwise fun r s => r.isDelete → s.isDelete := by
  simp only [changedRows, List.pairwise_append, List.pairwise_map, List.forall_mem_append,
    List.forall_mem_map, RowChange.isDelete]
  simp [List.pairwise_of_forall]

theorem oid_not_mem_before {before rest : List RowChange} {r : RowChange} (hw : w.Consistent)
    (hc : w.changeSet h = .ok c) (hrows : changedRows c = before ++ r :: rest) :
    r.oid ∉ before.map RowChange.oid := by
  have hn := nodup_changedRows hw hc
  rw [hrows, List.map_append, List.map_cons, List.nodup_append] at hn
  exact fun hmem => hn.2.2 _ hmem _ List.mem_cons_self rfl

theorem isDelete_of_mem_before {before rest : List RowChange} {r s : RowChange}
    (hrows : changedRows c = before ++ r :: rest) (hs : s ∈ before) (hdelete : s.isDelete) :
    r.isDelete := by
  have hp := pairwise_changedRows c
  rw [hrows, List.pairwise_append] at hp
  exact hp.2.2 s hs r List.mem_cons_self hdelete

theorem not_isDelete_concat {before rest : List RowChange} {r : RowChange}
    (hrows : changedRows c = before ++ r :: rest) (hr : r.isDelete = false) :
    ∀ s ∈ before ++ [r], ¬ s.isDelete := by
  intro s hs hdelete
  rcases List.mem_append.mp hs with hs | hs
  · simp [isDelete_of_mem_before hrows hs hdelete] at hr
  · simp [List.mem_singleton.mp hs ▸ hdelete] at hr

/-- Where the instances are once the rows before a point of a flush have been sent. -/
structure Underway (w : UnitOfWork) (h₀ : Heap) (places₀ : Places) (before : List RowChange)
    (written : List Written) (h : Heap) (places : Places) (tables : Tables) : Prop where
  laid : Laid places tables
  known : ∀ oid p, places oid = some p → ∃ t, w.tracked.get? oid = some t ∧ p.metadata = t.metadata
  waiting : ∀ oid, oid ∉ before.map RowChange.oid →
    places oid = places₀ oid ∧ h.object oid = h₀.object oid
  written : ∀ x ∈ written, x.oid ∈ before.map RowChange.oid ∧ ∃ t r,
    w.tracked.get? x.oid = some t ∧ places x.oid = some ⟨t.metadata, r⟩ ∧ x.InPlace t.metadata h r
  deleted : ∀ oid, .delete oid ∈ before → places oid = none ∧ ∀ t key, w.Stored oid t key →
    ∀ s ∈ tables t.metadata.fullTableName, ¬ s.Meets (key.conditions t.metadata)

variable {σ : Type} [Connection σ] {classes : Metadata → Prop} {db : Store σ classes}
  {env env' : Environment σ} {places₀ places : Places} {before : List RowChange}
  {written : List Written} {r : RowChange} {x : Written} {t : Tracked} {row : Record} {oid : Oid}

namespace Underway

theorem content_eq
    (hu : Underway w h₀ places₀ before written env.heap places (db.holds env.session).tables)
    (hoid : oid ∉ before.map RowChange.oid) : env.heap.content oid = h₀.content oid := by
  rw [Heap.content, (hu.waiting oid hoid).2, Heap.content]

theorem waiting_concat
    (hu : Underway w h₀ places₀ before written env.heap places (db.holds env.session).tables)
    {place : Option Place} (hmoved : Moved db places r.oid place env env') (oid : Oid)
    (hoid : oid ∉ (before ++ [r]).map RowChange.oid) :
    places.set r.oid place oid = places₀ oid ∧ env'.heap.object oid = h₀.object oid := by
  rw [List.map_append, List.mem_append, not_or] at hoid
  have hne : oid ≠ r.oid := fun heq => hoid.2 (by simp [heq])
  obtain ⟨hplace, hobject⟩ := hu.waiting oid hoid.1
  exact ⟨by rw [Places.set_of_ne hne, hplace], by rw [hmoved.objects oid hne, hobject]⟩

theorem written_concat
    (hu : Underway w h₀ places₀ before written env.heap places (db.holds env.session).tables)
    {place : Option Place} (hfresh : r.oid ∉ before.map RowChange.oid)
    (hmoved : Moved db places r.oid place env env') (x : Written) (hx : x ∈ written) :
    x.oid ∈ (before ++ [r]).map RowChange.oid ∧ ∃ t row, w.tracked.get? x.oid = some t ∧
      places.set r.oid place x.oid = some ⟨t.metadata, row⟩ ∧
      x.InPlace t.metadata env'.heap row := by
  obtain ⟨hmem, t, row, ht, hplace, hin⟩ := hu.written x hx
  have hne : x.oid ≠ r.oid := fun heq => hfresh (heq ▸ hmem)
  refine ⟨?_, t, row, ht, ?_, hin.congr (hmoved.objects x.oid hne)⟩
  · rw [List.map_append]
    exact List.mem_append_left _ hmem
  · rw [Places.set_of_ne hne, hplace]

theorem write
    (hu : Underway w h₀ places₀ before written env.heap places (db.holds env.session).tables)
    (hfresh : r.oid ∉ before.map RowChange.oid) (hdelete : ∀ s ∈ before ++ [r], ¬ s.isDelete)
    (ht : w.tracked.get? r.oid = some t) (hx : x.oid = r.oid)
    (hmoved : Moved db places r.oid (some ⟨t.metadata, row⟩) env env')
    (hin : x.InPlace t.metadata env'.heap row) :
    Underway w h₀ places₀ (before ++ [r]) (written ++ [x]) env'.heap
      (places.set r.oid (some ⟨t.metadata, row⟩)) (db.holds env'.session).tables where
  laid := hmoved.laid
  known := by
    intro oid p hp
    by_cases hoid : oid = r.oid
    · subst hoid
      rw [Places.set_self] at hp
      exact ⟨t, ht, by rw [← Option.some.inj hp]⟩
    · rw [Places.set_of_ne hoid] at hp
      exact hu.known oid p hp
  waiting := hu.waiting_concat hmoved
  written := by
    intro y hy
    rcases List.mem_append.mp hy with hy | hy
    · exact hu.written_concat hfresh hmoved y hy
    · obtain rfl := List.mem_singleton.mp hy
      refine ⟨by simp [hx], t, row, by rw [hx, ht], by rw [hx, Places.set_self], hin⟩
  deleted := by
    intro oid hoid
    exact absurd rfl (hdelete _ hoid)

theorem delete
    (hu : Underway w h₀ places₀ before written env.heap places (db.holds env.session).tables)
    (hfresh : oid ∉ before.map RowChange.oid) (hmoved : Moved db places oid none env env')
    (hsubset : ∀ table,
      (db.holds env'.session).tables table ⊆ (db.holds env.session).tables table)
    (hgone : ∀ t key, w.Stored oid t key →
      ∀ s ∈ (db.holds env'.session).tables t.metadata.fullTableName,
        ¬ s.Meets (key.conditions t.metadata)) :
    Underway w h₀ places₀ (before ++ [.delete oid]) written env'.heap (places.set oid none)
      (db.holds env'.session).tables where
  laid := hmoved.laid
  known := by
    intro j p hp
    by_cases hj : j = oid
    · subst hj
      rw [Places.set_self] at hp
      simp at hp
    · rw [Places.set_of_ne hj] at hp
      exact hu.known j p hp
  waiting := hu.waiting_concat (r := .delete oid) hmoved
  written := hu.written_concat (r := .delete oid) hfresh hmoved
  deleted := by
    intro j hj
    by_cases heq : j = oid
    · subst heq
      exact ⟨Places.set_self, hgone⟩
    · have hj : .delete j ∈ before := by simpa [heq] using hj
      obtain ⟨hplace, hrows⟩ := hu.deleted j hj
      refine ⟨by rw [Places.set_of_ne heq, hplace], fun t key hst s hs => ?_⟩
      exact hrows t key hst s (hsubset _ hs)

end Underway

structure Ready (w : UnitOfWork) (classes : Metadata → Prop) (h : Heap) (c : ChangeSet)
    (places : Places) (tables : Tables) : Prop where
  consistent : w.Consistent
  changes : w.changeSet h = .ok c
  mirrored : w.Mirrored h tables
  apart : w.IdentifiersApart
  handled : ∀ oid t, w.tracked.get? oid = some t → classes t.metadata
  laid : Laid places tables
  stored : places.Of w
  snapshots : ∀ oid t key r, w.Stored oid t key → places oid = some ⟨t.metadata, r⟩ →
    r.Mirrors t.metadata t.snapshot

namespace Ready

variable {tables₀ : Tables} {rest : List RowChange}

theorem start (hr : w.Ready classes h₀ c places₀ tables₀) :
    Underway w h₀ places₀ [] [] h₀ places₀ tables₀ where
  laid := hr.laid
  known := by
    intro oid p hp
    obtain ⟨t, key, hst⟩ := hr.stored.only oid p hp
    obtain ⟨r, hplace, -⟩ := hr.stored.stored oid t key hst
    rw [hp] at hplace
    exact ⟨t, hst.1, by rw [Option.some.inj hplace]⟩
  waiting := fun _ _ => ⟨rfl, rfl⟩
  written := by simp
  deleted := by simp

theorem mem_insertions (hr : w.Ready classes h₀ c places₀ tables₀)
    (hmem : .insert oid ∈ changedRows c) : oid ∈ w.insertions := by
  rw [← (changeSet_eq hr.changes).1]
  simpa [changedRows] using hmem

theorem mem_deletions (hr : w.Ready classes h₀ c places₀ tables₀)
    (hmem : .delete oid ∈ changedRows c) : oid ∈ w.deletions := by
  rw [← (changeSet_eq hr.changes).2.1]
  simpa [changedRows] using hmem

theorem place_eq_none (hr : w.Ready classes h₀ c places₀ tables₀)
    (ht : w.tracked.get? oid = some t) (hs : t.state = .new) : places₀ oid = none := by
  cases hp : places₀ oid with
  | none => rfl
  | some p =>
    obtain ⟨u, key, hu, hstate, -⟩ := hr.stored.only oid p hp
    rw [ht] at hu
    rw [← Option.some.inj hu, hs] at hstate
    simp at hstate

theorem exists_stored (hr : w.Ready classes h₀ c places₀ tables₀)
    (ht : w.tracked.get? oid = some t) (hs : t.state = .managed ∨ t.state = .removed) :
    ∃ key, w.Stored oid t key := by
  cases hk : t.key with
  | none =>
    rw [(hr.consistent.key_eq_none_iff oid t ht).mp hk] at hs
    simp at hs
  | some key => exact ⟨key, ht, hs, hk⟩

def Reaches (db : Store σ classes) (w : UnitOfWork) (h₀ : Heap) (places₀ places : Places)
    (before : List RowChange) (env : Environment σ) (written : List Written)
    (env' : Environment σ) : Prop :=
  ∃ places', db.SameTransaction env.session env'.session ∧
    places'.unclaimed (db.holds env'.session).tables =
      places.unclaimed (db.holds env.session).tables ∧
    Underway w h₀ places₀ before written env'.heap places' (db.holds env'.session).tables

section Rows

variable (hr : w.Ready classes h₀ c places₀ tables₀)
  (hu : Underway w h₀ places₀ before written env.heap places (db.holds env.session).tables)

include hr hu

theorem metadata_eq (ht : w.tracked.get? oid = some t) (j : Oid) (q : Place)
    (hq : places j = some q) (htable : q.table = t.metadata.fullTableName) :
    q.metadata = t.metadata := by
  obtain ⟨u, hu, hmetadata⟩ := hu.known j q hq
  rw [hmetadata]
  rw [Place.table, hmetadata] at htable
  exact hr.mirrored.tables_distinct j oid u t hu ht htable

theorem fits (hoid : oid ∉ before.map RowChange.oid) (ht : w.tracked.get? oid = some t) :
    (env.heap.content oid).Fits t.metadata := by
  rw [hu.content_eq hoid]
  exact hr.mirrored.fits oid t ht

theorem post_insert (hrows : changedRows c = before ++ .insert oid :: rest) :
    (w.send (.insert oid)).Post
      (fun xs => Reaches db w h₀ places₀ places (before ++ [.insert oid]) env (written ++ xs))
      (fun _ env' => db.SameTransaction env.session env'.session) env := by
  have hfresh : oid ∉ before.map RowChange.oid :=
    oid_not_mem_before hr.consistent hr.changes hrows
  have hnew := (hr.consistent.mem_insertions oid).mp (hr.mem_insertions (by simp [hrows]))
  obtain ⟨t, ht, hs⟩ := exists_of_state (show w.state oid ≠ .detached by simp [hnew])
  rw [hnew] at hs
  have hplace : places oid = none :=
    (hu.waiting oid hfresh).1.trans (hr.place_eq_none ht hs)
  have hdefault : ∀ f ∈ t.metadata.fields, f.default.isSome →
      (env.heap.content oid).read f.accessor.slot ≠ .null := by
    rw [hu.content_eq hfresh]
    exact hr.mirrored.no_default oid t ht hs
  refine (post_send_insert db (hr.handled oid t ht) hu.laid (hr.metadata_eq hu ht) ht hplace
    (hr.fits hu hfresh ht) (hr.apart oid t ht hs) hdefault).mono (fun xs env' hxs => ?_) fun _ _ => id
  obtain ⟨x, row, rfl, hx, hmoved, hin⟩ := hxs
  exact ⟨_, hmoved.transaction, hmoved.unclaimed,
    hu.write hfresh (not_isDelete_concat hrows rfl) ht hx hmoved hin⟩

theorem post_update {u : PendingUpdate} (hrows : changedRows c = before ++ .update u :: rest) :
    (w.send (.update u)).Post
      (fun xs => Reaches db w h₀ places₀ places (before ++ [.update u]) env (written ++ xs))
      (fun _ env' => db.SameTransaction env.session env'.session) env := by
  have hfresh : u.oid ∉ before.map RowChange.oid :=
    oid_not_mem_before hr.consistent hr.changes hrows
  have hmem : .update u ∈ changedRows c := by simp [hrows]
  obtain ⟨t, ht, hs, hcurrent, hchanges, hne⟩ :=
    pending_of_mem_updates hr.changes (by simpa [changedRows] using hmem)
  obtain ⟨key, hst⟩ := hr.exists_stored ht (.inl hs)
  obtain ⟨row, hrow, hmeets⟩ := hr.stored.stored u.oid t key hst
  obtain ⟨hplace, hobject⟩ := hu.waiting u.oid hfresh
  refine (post_send_update db (hr.handled u.oid t ht) hu.laid (hr.metadata_eq hu ht) ht hst.2.2
    (hplace.trans hrow) hmeets (hr.snapshots u.oid t key row hst hrow)
    (hr.mirrored.columns_nodup u.oid t ht) (hr.fits hu hfresh ht)
    ((Heap.values_congr hobject).trans hcurrent) hchanges hne).mono
    (fun xs env' hxs => ?_) fun _ _ => id
  obtain ⟨x, row', rfl, hx, hmoved, hin⟩ := hxs
  exact ⟨_, hmoved.transaction, hmoved.unclaimed,
    hu.write hfresh (not_isDelete_concat hrows rfl) ht hx hmoved hin⟩

theorem post_delete (hrows : changedRows c = before ++ .delete oid :: rest) :
    (w.send (.delete oid)).Post
      (fun xs => Reaches db w h₀ places₀ places (before ++ [.delete oid]) env (written ++ xs))
      (fun _ env' => db.SameTransaction env.session env'.session) env := by
  have hfresh : oid ∉ before.map RowChange.oid :=
    oid_not_mem_before hr.consistent hr.changes hrows
  have hremoved := (hr.consistent.mem_deletions oid).mp (hr.mem_deletions (by simp [hrows]))
  obtain ⟨t, ht, hs⟩ := exists_of_state (show w.state oid ≠ .detached by simp [hremoved])
  rw [hremoved] at hs
  obtain ⟨key, hst⟩ := hr.exists_stored ht (.inr hs)
  obtain ⟨row, hrow, hmeets⟩ := hr.stored.stored oid t key hst
  refine (post_send_delete db (hr.handled oid t ht) hu.laid (hr.metadata_eq hu ht) ht hst.2.2
    ((hu.waiting oid hfresh).1.trans hrow) hmeets).mono (fun xs env' hxs => ?_) fun _ _ => id
  obtain ⟨rfl, hmoved, hsubset, hgone⟩ := hxs
  rw [List.append_nil]
  refine ⟨_, hmoved.transaction, hmoved.unclaimed, hu.delete hfresh hmoved hsubset ?_⟩
  intro u l hsu
  obtain ⟨rfl, rfl⟩ := hst.unique hsu
  exact hgone

theorem post_send (hrows : changedRows c = before ++ r :: rest) :
    (w.send r).Post (fun xs => Reaches db w h₀ places₀ places (before ++ [r]) env (written ++ xs))
      (fun _ env' => db.SameTransaction env.session env'.session) env := by
  cases r with
  | insert oid => exact hr.post_insert hu hrows
  | update u => exact hr.post_update hu hrows
  | delete oid => exact hr.post_delete hu hrows

end Rows

/-- All rows have been sent. -/
theorem post_write (hr : w.Ready classes env.heap c places₀ (db.holds env.session).tables) :
    (w.write c).Post (Reaches db w env.heap places₀ places₀ (changedRows c) env)
      (fun _ env' => db.SameTransaction env.session env'.session) env := by
  rw [write_eq, Action.post_map]
  refine Action.post_mapM
    (J := fun before xss => Reaches db w env.heap places₀ places₀ before env xss.flatten)
    ⟨places₀, .refl _, rfl, hr.start⟩ ?_
  rintro before r rest xss t hrows ⟨places, htransaction, hunclaimed, hu⟩
  refine (hr.post_send hu hrows).mono (fun xs u hxs => ?_) fun _ _ h => htransaction.trans h
  obtain ⟨places', htransaction', hunclaimed', hu'⟩ := hxs
  refine ⟨places', htransaction.trans htransaction', hunclaimed'.trans hunclaimed, ?_⟩
  rwa [List.flatten_append, List.flatten_cons, List.flatten_nil, List.append_nil]

end Ready

end UnitOfWork
end Persistence
