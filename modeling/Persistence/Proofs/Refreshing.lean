import Persistence.Proofs.EntityTypes
import Persistence.Proofs.Scheduling

/-!
What a refresh comes to, whatever the connection answers. All that can fail is done before the
instance is changed, if its class is described by accessors of its type: once its row has been
loaded onto a blank instance of its type, the fields are copied to slots of the same storages, and
nothing that a blank instance holds is refused there.
-/

namespace Persistence

open Schema (Metadata Snapshot Field Registry)

namespace Instance

variable {source x : Instance}

theorem write_read (hs : x.storages = source.storages) (i : Nat) :
    ∃ y, x.write i (source.read i) = .ok y := by
  rw [write]
  cases hx : x.slots[i]? with
  | none => exact ⟨x, rfl⟩
  | some s =>
    have hi : (source.slots[i]?).map Slot.storage = some s.storage := by
      simpa [storages, hx] using (congrArg (fun l => l[i]?) hs).symm
    obtain ⟨s', hs', hstorage⟩ := Option.map_eq_some_iff.mp hi
    have hread : s.storage.convert (source.read i) = .ok (source.read i) := by
      rw [read, hs', ← hstorage]
      exact s'.valid
    dsimp only
    rw [Slot.write]
    split
    · exact ⟨_, rfl⟩
    · rename_i e he
      simp [hread] at he

theorem hold_read_of_storages (hs : x.storages = source.storages) (i : Nat) :
    x.hold i (source.read i) = source.read i := by
  rw [hold_congr hs, hold_read]

end Instance

theorem Manager.run_copyFields_cons {source x y : Instance} {f : Field} (rest : List Field)
    (hf : f.accessor.owner = source.type) (htype : x.type = source.type)
    (hy : x.write f.accessor.slot (source.read f.accessor.slot) = .ok y) :
    (copyFields source (f :: rest)).run x = (copyFields source rest).run y := by
  have hget : f.accessor.get source = .ok (source.read f.accessor.slot) := by
    rw [Accessor.get, if_pos hf.symm]
  have hset : f.accessor.set x (source.read f.accessor.slot) = .ok y := by
    rw [Accessor.set, if_pos (htype.trans hf.symm), hy]
  refine Action.run_bind_of_ok (x := ⟨⟩) ?_ _
  dsimp only
  rw [hget, Action.liftM_ok, pure_bind, Action.run_get_bind, hset]
  rfl

theorem Manager.run_copyFields {source x : Instance} {fs : List Field}
    (hfor : ∀ f ∈ fs, f.accessor.owner = source.type) (htype : x.type = source.type)
    (hs : x.storages = source.storages) : ∃ y, (copyFields source fs).run x = (.ok ⟨⟩, y) ∧
      y.type = source.type ∧
      ∀ i, (x.read i = source.read i ∨ ∃ f ∈ fs, f.accessor.slot = i) →
        y.read i = source.read i := by
  induction fs generalizing x with
  | nil => exact ⟨x, rfl, htype, by simp⟩
  | cons f rest ih =>
    obtain ⟨hf, hrest⟩ := List.forall_mem_cons.mp hfor
    obtain ⟨y, hy⟩ := Instance.write_read hs f.accessor.slot
    obtain ⟨hstorages, hread, hothers⟩ := Instance.of_write hy
    rw [Instance.hold_read_of_storages hs] at hread
    obtain ⟨z, hz, hztype, hzread⟩ :=
      ih hrest ((Instance.type_write hy).trans htype) (hstorages.trans hs)
    refine ⟨z, (run_copyFields_cons rest hf htype hy).trans hz, hztype, fun i hi => hzread i ?_⟩
    by_cases hslot : f.accessor.slot = i
    · exact .inl (hslot ▸ hread)
    · rcases hi with hi | ⟨g, hg, hgslot⟩
      · exact .inl ((hothers i (Ne.symm hslot)).trans hi)
      · rcases List.mem_cons.mp hg with rfl | hg
        · exact absurd hgslot hslot
        · exact .inr ⟨g, hg, hgslot⟩

namespace Error

@[simp] theorem kind_validation (f : ValidationFault) : (validation f).kind = .validation := rfl

@[simp] theorem kind_mapping (f : MappingFault) : (mapping f).kind = .mapping := rfl

@[simp] theorem kind_state (f : StateFault) : (state f).kind = .state := rfl

end Error

section Kinds

variable {σ : Type} {m t : Manager σ} {e : Error} {type : EntityType} {oid : Oid}

theorem Schema.Registry.kind_of_view {r : Registry} {className : String}
    (h : r.view className = .error e) : e.kind ≠ .entityNotFound := by
  unfold view at h
  split at h
  · rw [← Except.error.inj h]
    simp
  · split at h
    · simp at h
    · unfold build at h
      split at h
      · rw [← Except.error.inj h]
        simp
      · unfold Mapping.build at h
        split at h
        · simp at h
        · rw [← Except.error.inj h]
          simp

theorem Manager.kind_of_metadata (h : (metadata type).run m = (.error e, t)) :
    e.kind ≠ .entityNotFound := by
  have hpost : (metadata type).Post (fun _ _ => True) (fun e _ => e.kind ≠ .entityNotFound) m := by
    simp only [metadata, onRegistry, Action.post_bind, Action.post_get, Action.post_ite,
      Action.post_onPart, Action.post_throw]
    refine ⟨fun _ => Action.post_iff.mpr ⟨fun _ _ _ => trivial, fun e r hr => ?_⟩, fun _ => ?_⟩
    · have hview : m.registry.view type.className = .error e := by
        rw [← Registry.describe_fst]
        exact (Prod.mk.inj hr).1
      exact Registry.kind_of_view hview
    · simp
  exact hpost.of_run_error h

theorem Heap.kind_of_toRead {h : Heap} (he : h.toRead oid = .error e) :
    e.kind ≠ .entityNotFound := by
  unfold toRead at he
  split at he
  · rw [← Except.error.inj he]
    simp
  · simp at he

theorem Heap.kind_of_toChange {h : Heap} (he : h.toChange oid = .error e) :
    e.kind ≠ .entityNotFound := by
  unfold toChange at he
  split at he
  · simp at he
  · rw [← Except.error.inj he]
    simp

theorem Schema.kind_of_readFields {x : Instance} {fs : List Field}
    (h : readFields x fs = .error e) : e.kind ≠ .entityNotFound := by
  induction fs with
  | nil => simp [readFields] at h
  | cons f rest ih =>
    rw [readFields, Accessor.get] at h
    split at h
    · cases hrest : readFields x rest with
      | error e' =>
        simp only [hrest, bind, Except.bind, Except.error.injEq] at h
        exact ih (h ▸ hrest)
      | ok values => simp [hrest, bind, Except.bind, pure, Except.pure] at h
    · simp only [bind, Except.bind, Except.error.injEq] at h
      rw [← h]
      simp

theorem Storage.eq_of_convert {s : Storage} {v : Value} (h : s.convert v = .error e) :
    e = .conversion v s.base.name := by
  unfold convert at h
  split at h
  · simp at h
  · unfold Base.convert at h
    split at h <;> try split at h
    all_goals simp only [reduceCtorEq, Except.error.injEq] at h
    all_goals exact h.symm

theorem Accessor.kind_of_set {a : Accessor} {x : Instance} {v : Value} (h : a.set x v = .error e) :
    e.kind ≠ .entityNotFound := by
  rw [set, Instance.write] at h
  split at h
  · split at h
    · rename_i s _
      cases hs : s.write v with
      | ok t => simp [hs, Except.map] at h
      | error e' =>
        obtain rfl : e' = e := by simpa [hs, Except.map] using h
        unfold Slot.write at hs
        split at hs
        · simp at hs
        · rename_i he
          rw [Except.error.inj hs] at he
          rw [Storage.eq_of_convert he]
          simp [Error.conversion, Error.kind, Problem.kind]
    · simp at h
  · rw [← Except.error.inj h]
    simp

theorem Manager.kind_of_copyFields {source x y : Instance} {fs : List Field}
    (h : (copyFields source fs).run x = (.error e, y)) : e.kind ≠ .entityNotFound := by
  refine (Action.post_forM_of_forall (P := fun e => e.kind ≠ .entityNotFound) (fun f x => ?_) fs
    x).of_run_error h
  simp only [Action.post_bind, Action.post_liftExcept, Action.post_get, Action.post_set]
  refine ⟨fun v _ => ⟨fun _ _ => trivial, fun _ => Accessor.kind_of_set⟩, fun e he => ?_⟩
  rw [Accessor.get] at he
  split at he
  · simp at he
  · rw [← Except.error.inj he]
    simp

theorem Schema.Metadata.kind_of_hydrate {md : Metadata} {row : Row} {x y : Instance}
    (h : (md.hydrate row).run x = (.error e, y)) : e.kind ≠ .entityNotFound := by
  refine (Action.post_forM_of_forall (P := fun e => e.kind ≠ .entityNotFound) (fun f x => ?_)
    md.fields x).of_run_error h
  unfold Field.hydrate
  split
  · trivial
  · split
    · trivial
    · rw [Action.post_bind, Action.post_get]
      split
      · trivial
      · simp [Problem.kind]

end Kinds

namespace UnitOfWork

/-- An instance is forgotten, and no other. -/
structure Forgets (oid : Oid) (w w' : UnitOfWork) : Prop where
  untracked : w'.tracked.get? oid = none
  slotless : ∀ key, w'.slots.get? key ≠ some oid
  insertions : oid ∉ w'.insertions ∧ w'.insertions = w.insertions.erase oid
  deletions : oid ∉ w'.deletions ∧ w'.deletions = w.deletions.erase oid
  others : ∀ j, j ≠ oid → Agree j w' w

variable {w : UnitOfWork}

theorem queues_detach (hw : w.Consistent) (oid : Oid) :
    (w.detach oid).insertions = w.insertions.erase oid ∧
      (w.detach oid).deletions = w.deletions.erase oid := by
  rw [detach]
  cases ht : w.tracked.get? oid with
  | some t => exact ⟨rfl, rfl⟩
  | none =>
    have hstate : w.state oid = .detached := by simp [state, ht]
    have hi : oid ∉ w.insertions := by simp [hw.mem_insertions, hstate]
    have hd : oid ∉ w.deletions := by simp [hw.mem_deletions, hstate]
    exact ⟨(List.erase_of_not_mem hi).symm, (List.erase_of_not_mem hd).symm⟩

theorem forgets_detach (hw : w.Consistent) (oid : Oid) : Forgets oid w (w.detach oid) where
  untracked := by simp
  slotless key := by simp [hw.get?_slots_detach_iff]
  insertions := by
    rw [(queues_detach hw oid).1]
    exact ⟨hw.insertions_nodup.not_mem_erase, rfl⟩
  deletions := by
    rw [(queues_detach hw oid).2]
    exact ⟨hw.deletions_nodup.not_mem_erase, rfl⟩
  others j hj :=
    { tracked := by simp [Ne.symm hj]
      slots := fun key => by simp [hw.get?_slots_detach_iff, Ne.symm hj] }

end UnitOfWork

namespace Manager

section Layouts

variable {σ : Type} {m t : Manager σ} {oid : Oid} {md : Metadata} {key : IdentityKey}
  {described : Manager σ} {row : Row} {loaded : Instance}

/-- The slots of an instance have the storages of a new instance of its type. -/
def Shaped (m : Manager σ) (oid : Oid) : Prop :=
  (m.heap.content oid).storages = (m.heap.fresh (m.heap.typeOf oid)).storages

/-- The class of an instance is described by accessors of one type. -/
def OfOneType (m : Manager σ) (oid : Oid) : Prop :=
  ∀ md, m.registry.view (m.heap.typeOf oid).className = .ok md → ∃ type, md.For type

theorem OfOneType.for_of_asked (hone : m.OfOneType oid) (h : m.Asked oid md key described) :
    md.For (m.heap.typeOf oid) := by
  obtain ⟨type, hfor⟩ := hone md (view_of_metadata h.describes)
  obtain ⟨x, ids, hx, hids, hkey⟩ := h.carries
  have hne := ((IdentityKey.full_of_ofSnapshot hkey).exists_value
    (IdentityKey.belongs_of_ofSnapshot hkey)).1
  obtain ⟨name, hname⟩ := List.exists_mem_of_ne_nil _ hne
  obtain ⟨f, hf, -⟩ := Metadata.exists_identifierField hname
  have htype : f.accessor.owner = x.type := owner_of_readFields hids f hf
  have hsame : type = m.heap.typeOf oid := by
    rw [← hfor f (Metadata.mem_identifierFields.mp hf).1, htype, Heap.eq_of_toRead hx]
    rfl
  exact hsame ▸ hfor

theorem Asked.index_lt (h : m.Asked oid md key described) : oid.index < m.heap.objects.length := by
  obtain ⟨x, ids, hx, hids, hkey⟩ := h.carries
  rw [Heap.eq_of_toRead hx] at hids
  exact Heap.index_lt_of_ofSnapshot ((IdentityKey.ofSnapshot_identifierValues hids).trans hkey)

theorem Shaped.run_copy (hshape : m.Shaped oid) (hfor : md.For (m.heap.typeOf oid))
    (hloaded : (md.hydrate row).run (m.heap.fresh (m.heap.typeOf oid)) = (.ok ⟨⟩, loaded)) :
    ∃ y, (copyFields loaded md.fields).run (m.heap.content oid) = (.ok ⟨⟩, y) ∧
      md.extract y = .ok (md.snapshotOf loaded) ∧
      md.extract loaded = .ok (md.snapshotOf loaded) := by
  have htype : loaded.type = (m.heap.fresh (m.heap.typeOf oid)).type := type_of_hydrate hloaded
  have hstorages := (((writes_hydrate md.className row).post_forM md.fields _).of_run_ok hloaded).1
  have howner : ∀ f ∈ md.fields, f.accessor.owner = loaded.type := htype ▸ hfor
  obtain ⟨y, hy, hytype, hread⟩ := run_copyFields howner
    (show (m.heap.content oid).type = loaded.type from htype.symm)
    (hshape.trans hstorages.symm)
  refine ⟨y, hy, ?_, Schema.readFields_of_owner howner⟩
  rw [Metadata.extract, Schema.readFields_of_owner (hytype ▸ howner), Metadata.snapshotOf]
  refine congrArg _ (List.map_congr_left fun f hf => ?_)
  rw [hread _ (.inr ⟨f, hf, rfl⟩)]

variable [Connection σ]

/-- What the connection answers when it is asked for the row of a key: the first of the rows, none,
or a failure. -/
def selected (m : Manager σ) (md : Metadata) (key : IdentityKey) : Except Error (Option Row) :=
  ((Session.select
    { table := md.fullTableName, projection := .columns md.columns,
      filter := key.conditions md }).run m.session).1.map List.head?

theorem loadRow_fst (m : Manager σ) (md : Metadata) (key : IdentityKey) :
    ((loadRow md key).run m).1 = m.selected md key := by
  let asked : SessionM σ (List Row) := Session.select
    { table := md.fullTableName, projection := .columns md.columns, filter := key.conditions md }
  have hasked : (onSession asked).run m =
      ((asked.run m.session).1, { m with session := (asked.run m.session).2 }) := rfl
  change ((onSession asked >>= fun rows => pure rows.head?).run m).1 =
    (asked.run m.session).1.map List.head?
  rw [Action.run_bind, hasked]
  cases (asked.run m.session).1 <;> rfl

theorem Asked.selected_eq {answer : Except Error (Option Row)} (h : m.Asked oid md key described)
    (hrun : (loadRow md key).run described = (answer, t)) : m.selected md key = answer := by
  have hdescribed := (post_metadata _ m).of_run_ok h.describes
  have hfst := loadRow_fst described md key
  rw [hrun, selected, hdescribed] at hfst
  exact hfst.symm

/-- The values that a row gives to a new instance of the type of another one. -/
def hydrated (m : Manager σ) (oid : Oid) (md : Metadata) (row : Row) : Except Error Snapshot :=
  match (md.hydrate row).run (m.heap.fresh (m.heap.typeOf oid)) with
  | (.ok _, loaded) => md.extract loaded
  | (.error e, _) => .error e

end Layouts

section Outcomes

variable {σ : Type} [Connection σ] {m t : Manager (Recorded σ)} {oid : Oid} {md : Metadata}
  {key : IdentityKey} {s : Snapshot}

/-- An instance is managed under a key and holds the values of its snapshot, so that it has no row
to write, and a flush makes calls for rows only. -/
structure Reloaded (t : Manager (Recorded σ)) (oid : Oid) (md : Metadata) (key : IdentityKey)
    (s : Snapshot) : Prop where
  values : md.extract (t.heap.content oid) = .ok s
  tracked : t.work.tracked.get? oid = some ⟨md, .managed, s, some key⟩
  slot : ∀ k, t.work.slots.get? k = some oid ↔ k = key
  insertions : oid ∉ t.work.insertions
  deletions : oid ∉ t.work.deletions
  unwritten : ∀ row ∈ UnitOfWork.changedRows (t.work.pending t.heap), row.oid ≠ oid
  flushed : ∀ (r : Except Error Unit) (t' : Manager (Recorded σ)), flush.run t = (r, t') →
    ∃ made, t'.session.connection.calls = t.session.connection.calls ++ made ∧
      works made <+: (UnitOfWork.changedRows (t.work.pending t.heap)).flatMap
        (t.work.rowCalls t.heap)

theorem reloaded_of_tracked (hw : t.work.Consistent)
    (ht : t.work.tracked.get? oid = some ⟨md, .managed, s, some key⟩)
    (hslot : t.work.slots.get? key = some oid) (hs : md.extract (t.heap.content oid) = .ok s) :
    t.Reloaded oid md key s := by
  have hstate : t.work.state oid = .managed := UnitOfWork.state_of_get? ht
  have hsame : changedFields s (md.snapshotOf (t.heap.content oid)) = [] := by
    rw [Metadata.extract_eq hs]
    exact UnitOfWork.changedFields_snapshotOf md _
  exact
    { values := hs
      tracked := ht
      slot := fun k => ⟨fun hk => hw.slot_unique hk hslot, fun hk => hk ▸ hslot⟩
      insertions := by simp [hw.mem_insertions, hstate]
      deletions := by simp [hw.mem_deletions, hstate]
      unwritten := fun _ => UnitOfWork.ne_of_mem_pending_of_unchanged hw ht rfl hsame
      flushed := fun r t' hrun => by
        obtain ⟨made, hmade, hprefix, -⟩ := flush_makes hw hrun
        exact ⟨made, hmade, hprefix⟩ }

theorem Refreshed.reloaded (ht : Refreshed m oid t) (hw : m.work.Consistent) :
    ∃ md key described row s, m.Asked oid md key described ∧
      m.selected md key = .ok (some row) ∧ (m.Shaped oid → m.hydrated oid md row = .ok s) ∧
      t.Reloaded oid md key s := by
  obtain @⟨md, key, described, read, ids, s, row, x, y, loaded, hmd, hx, hids, hkey, hread,
    hhydrate, hcopy, hs⟩ := ht
  have hasked : m.Asked oid md key described := ⟨hmd, x, ids, hx, hids, hkey⟩
  refine ⟨md, key, described, row, s, hasked, hasked.selected_eq hread, fun hshape => ?_, ?_⟩
  · -- all fields were read from the instance, so their accessors are for its type
    have hfor : md.For (m.heap.typeOf oid) := fun f hf =>
      (owner_of_readFields hs f hf).trans (type_of_copyFields hcopy)
    obtain ⟨y', hcopy', hs', hloaded⟩ := hshape.run_copy hfor hhydrate
    obtain rfl : y = y' := (Prod.mk.inj (hcopy.symm.trans hcopy')).2
    rw [hydrated, hhydrate, ← hs, hs']
    exact hloaded
  · refine reloaded_of_tracked ((hw.detach oid).track md key _) ?_ ?_ ?_
    · simp
    · simp [UnitOfWork.get?_slots_track]
    · rw [Heap.content_put y hasked.index_lt, hs]

theorem Unrefreshed.outcome {e : Error} (ht : Unrefreshed m oid e t) (hw : m.work.Consistent) :
    (∃ md key described, m.Asked oid md key described ∧ m.selected md key = .ok none ∧
      e = ⟨.entityNotFound (m.heap.typeOf oid).className key.identifier, []⟩ ∧
      UnitOfWork.Forgets oid m.work t.work) ∨
    t.work = m.work ∧ (e.kind = .entityNotFound → ∃ md key described,
      m.Asked oid md key described ∧ m.selected md key = .error e) := by
  have described {md : Metadata} {t : Manager (Recorded σ)}
      (hmd : (metadata (m.heap.typeOf oid)).run m = (.ok md, t)) : t.work = m.work := by
    rw [(post_metadata _ m).of_run_ok hmd]
  cases ht with
  | undescribed hmd =>
    rw [(post_metadata _ m).of_run_error hmd]
    exact .inr ⟨rfl, fun hkind => absurd hkind (kind_of_metadata hmd)⟩
  | unread hmd hx =>
    exact .inr ⟨described hmd, fun hkind => absurd hkind (Heap.kind_of_toRead hx)⟩
  | unidentified hmd _ hids =>
    exact .inr ⟨described hmd, fun hkind => absurd hkind (Schema.kind_of_readFields hids)⟩
  | unkeyed hmd => exact .inr ⟨described hmd, fun hkind => by simp [Problem.kind] at hkind⟩
  | @unselected md key described t e h hread =>
    exact .inr ⟨(h.post_loadRow hread).2.1, fun _ => ⟨md, key, described, h, h.selected_eq hread⟩⟩
  | @gone md key described read h hread =>
    exact .inl ⟨md, key, described, h, h.selected_eq hread, rfl, UnitOfWork.forgets_detach hw oid⟩
  | unhydrated h hread hloaded =>
    exact .inr ⟨(h.post_loadRow hread).2.1,
      fun hkind => absurd hkind (Metadata.kind_of_hydrate hloaded)⟩
  | borrowed h hread hx =>
    exact .inr ⟨(h.post_loadRow hread).2.1, fun hkind => absurd hkind (Heap.kind_of_toChange hx)⟩
  | uncopied h hread _ hcopy =>
    exact .inr ⟨(h.post_loadRow hread).2.1, fun hkind => absurd hkind (kind_of_copyFields hcopy)⟩
  | unextracted h hread _ _ hextract =>
    exact .inr ⟨(h.post_loadRow hread).2.1,
      fun hkind => absurd hkind (Schema.kind_of_readFields hextract)⟩

theorem Unrefreshed.heap_eq {e : Error} (ht : Unrefreshed m oid e t) (hshape : m.Shaped oid)
    (hone : m.OfOneType oid) : t.heap = m.heap := by
  cases ht with
  | undescribed hmd => rw [(post_metadata _ m).of_run_error hmd]
  | unread hmd | unidentified hmd | unkeyed hmd => rw [(post_metadata _ m).of_run_ok hmd]
  | unselected h hread | gone h hread | unhydrated h hread | borrowed h hread =>
    exact (h.post_loadRow hread).1
  -- a row that was loaded can be copied, and all that is copied can be read
  | uncopied h _ hloaded hcopy =>
    obtain ⟨_, hcopied, -⟩ := hshape.run_copy (hone.for_of_asked h) hloaded
    cases hcopied.symm.trans hcopy
  | unextracted h _ hloaded hcopy hextract =>
    obtain ⟨_, hcopied, hextracted, -⟩ := hshape.run_copy (hone.for_of_asked h) hloaded
    obtain rfl := (Prod.mk.inj (hcopied.symm.trans hcopy)).2
    simp [hextracted] at hextract

theorem Unrefreshed.heap_eq_of_kind {e : Error} (ht : Unrefreshed m oid e t)
    (hkind : e.kind = .entityNotFound) : t.heap = m.heap := by
  cases ht with
  | undescribed hmd => rw [(post_metadata _ m).of_run_error hmd]
  | unread hmd | unidentified hmd | unkeyed hmd => rw [(post_metadata _ m).of_run_ok hmd]
  | unselected h hread | gone h hread | unhydrated h hread | borrowed h hread =>
    exact (h.post_loadRow hread).1
  | uncopied _ _ _ hcopy => exact absurd hkind (kind_of_copyFields hcopy)
  | unextracted _ _ _ _ hextract => exact absurd hkind (Schema.kind_of_readFields hextract)

/-- A refresh that succeeds leaves the instance managed under the key that it carried, in the slot
of that key only, and there is nothing to write for it. It has the values of its row, if its slots
are those of a new instance. One that finds no row forgets the instance. Any other failure, wherever
it is met, changes nothing that is tracked, and does not look like a missing row unless the
connection itself answers so. No instance is changed by a failure to find the row, nor by any other
one if the slots are those of a new instance and the class has accessors of one type. -/
theorem refresh_outcome (h : Reachable anyOperation m) :
    (refresh oid).Post
      (fun _ t => ∃ md key described row s, m.Asked oid md key described ∧
        m.selected md key = .ok (some row) ∧ (m.Shaped oid → m.hydrated oid md row = .ok s) ∧
        t.Reloaded oid md key s)
      (fun e t => (e.kind = .entityNotFound ∨ m.Shaped oid ∧ m.OfOneType oid → t.heap = m.heap) ∧
        ((∃ md key described, m.Asked oid md key described ∧ m.selected md key = .ok none ∧
            e = ⟨.entityNotFound (m.heap.typeOf oid).className key.identifier, []⟩ ∧
            UnitOfWork.Forgets oid m.work t.work) ∨
          t.work = m.work ∧ (e.kind = .entityNotFound → ∃ md key described,
            m.Asked oid md key described ∧ m.selected md key = .error e))) m := by
  refine (post_refresh_stopped oid m).mono (fun _ _ ht => ht.reloaded h.consistent)
    fun _ _ ht => ⟨?_, ht.outcome h.consistent⟩
  rintro (hkind | ⟨hshape, hone⟩)
  · exact ht.heap_eq_of_kind hkind
  · exact ht.heap_eq hshape hone

open Sample in
def waiting : Manager (Recorded Scripted) :=
  (Operation.persist ⟨0⟩).after
    (manager [userObject (some 2) "Ann"] { inner := ⟨[[userRow (.int 2) "Bob"]], false⟩ })

def renewed : Manager (Recorded Sample.Scripted) := (Operation.refresh ⟨0⟩).after waiting

theorem reachable_waiting : Reachable anyOperation waiting := by
  have built : Reachable anyOperation (Sample.manager [Sample.userObject (some 2) "Ann"]
      ({ inner := ⟨[[Sample.userRow (.int 2) "Bob"]], false⟩ } : Recorded Sample.Scripted)) :=
    .built (Sample.build_manager ..)
  exact built.run ((Runs.done _).operation (.persist ⟨0⟩) trivial)

theorem refresh_outcome_waiting :
    (∃ key row t, (refresh ⟨0⟩).run waiting = (.ok ⟨⟩, t) ∧
      waiting.hydrated ⟨0⟩ Sample.userMetadata row = .ok [("id", .int 2), ("name", .text "Bob")] ∧
      t.Reloaded ⟨0⟩ Sample.userMetadata key [("id", .int 2), ("name", .text "Bob")]) ∧
    ∃ e t, (refresh ⟨0⟩).run renewed = (.error e, t) ∧ e.kind = .entityNotFound ∧
      t.heap = renewed.heap ∧ UnitOfWork.Forgets ⟨0⟩ renewed.work t.work := by
  have hrenewed : Reachable anyOperation renewed :=
    reachable_waiting.run ((Runs.done _).operation (.refresh ⟨0⟩) trivial)
  constructor
  · have hshape : waiting.Shaped ⟨0⟩ := by
      unfold Shaped
      decide +kernel
    have hrun : (refresh ⟨0⟩).run waiting = (.ok ⟨⟩, ((refresh ⟨0⟩).run waiting).2) :=
      Action.run_eq_of_fst (by decide +kernel)
    obtain ⟨md, key, -, row, s, -, -, hhydrated, h⟩ :=
      (refresh_outcome reachable_waiting).of_run_ok hrun
    have hentry : (((refresh ⟨0⟩).run waiting).2.work.tracked.get? ⟨0⟩).map
        (fun t => (t.metadata, t.snapshot)) =
          some (Sample.userMetadata, [("id", .int 2), ("name", .text "Bob")]) := by decide +kernel
    simp only [h.tracked, Option.map_some, Option.some.injEq, Prod.mk.injEq] at hentry
    obtain ⟨rfl, rfl⟩ := hentry
    exact ⟨key, row, _, hrun, hhydrated hshape, h⟩
  · have hrun : (refresh ⟨0⟩).run renewed =
        (.error ⟨.entityNotFound "User" (.scalar (.int 2)), []⟩, ((refresh ⟨0⟩).run renewed).2) :=
      Action.run_eq_of_fst (by decide +kernel)
    have hchanged : ((refresh ⟨0⟩).run renewed).2.work ≠ renewed.work := by decide +kernel
    obtain ⟨hheap, ⟨-, -, -, -, -, -, h⟩ | ⟨hsame, -⟩⟩ :=
      (refresh_outcome hrenewed).of_run_error hrun
    · exact ⟨_, _, hrun, rfl, hheap (.inl rfl), h⟩
    · exact absurd hsame hchanged

def badge : EntityType := ⟨"Badge", 0⟩

def badgeMapping (worth : Accessor) : Schema.Mapping where
  isEntity := true
  table := some "badges"
  fields :=
    [{ name := "id", type := .integer, accessor := ⟨badge, 0⟩, isIdentifier := true },
     { name := "name", type := .string, accessor := ⟨badge, 1⟩ },
     { name := "worth", type := .integer, accessor := worth }]

def badgeMetadata : Metadata := (badgeMapping ⟨badge, 2⟩).toMetadata "Badge" (by decide)

def badges (worth : Accessor) (blank own : Storage) : Manager (Recorded Sample.Scripted) where
  heap :=
    ⟨.ofList [(badge, Sample.userSlots none "" ++ [.initial "worth" blank])],
      [⟨⟨badge, Sample.userSlots (some 2) "Ann" ++ [.initial "worth" own]⟩, .none⟩]⟩
  session := { connection := { inner := ⟨[[Sample.userRow (.int 2) "Bob"]], false⟩ } }
  registry := Schema.Registry.empty.register "Badge" (badgeMapping worth)
  cache := .empty
  work := .empty

def worthElsewhere : Manager (Recorded Sample.Scripted) :=
  badges ⟨Sample.user, 1⟩ ⟨.int64, false⟩ ⟨.int64, false⟩

def worthOptional : Manager (Recorded Sample.Scripted) :=
  badges ⟨badge, 2⟩ ⟨.int64, true⟩ ⟨.int64, false⟩

def worthRounded : Manager (Recorded Sample.Scripted) :=
  badges ⟨badge, 2⟩ ⟨.int64, false⟩ ⟨.double, false⟩

theorem reachable_badges (worth : Accessor) (blank own : Storage) :
    Reachable anyOperation (badges worth blank own) :=
  .built (show build { registrations := [⟨badge, badgeMapping worth⟩] }
    (badges worth blank own).heap (badges worth blank own).session.connection =
      .ok (badges worth blank own) from rfl)

theorem ofOneType_badges (blank own : Storage) :
    (badges ⟨badge, 2⟩ blank own).OfOneType ⟨0⟩ := by
  have hview : (badges ⟨badge, 2⟩ blank own).registry.view "Badge" = .ok badgeMetadata := rfl
  intro md hmd
  obtain rfl := Except.ok.inj (hview.symm.trans hmd)
  refine ⟨badge, ?_⟩
  unfold Schema.Metadata.For
  decide +kernel

def Overwrites (m : Manager (Recorded Sample.Scripted)) : Prop :=
  ∃ e t, (refresh ⟨0⟩).run m = (.error e, t) ∧ e.kind ≠ .entityNotFound ∧
    (t.heap.content ⟨0⟩).read 1 ≠ (m.heap.content ⟨0⟩).read 1

def Departs (m : Manager (Recorded Sample.Scripted)) : Prop :=
  ∃ md key described row s t, m.Asked ⟨0⟩ md key described ∧
    m.selected md key = .ok (some row) ∧ m.hydrated ⟨0⟩ md row = .ok s ∧
    (refresh ⟨0⟩).run m = (.ok ⟨⟩, t) ∧ md.extract (t.heap.content ⟨0⟩) ≠ .ok s

/-- An accessor of another type, and a slot that does not take what a new instance holds, are met
only when the fields before them have been copied. A slot of another storage may keep what a new
instance holds as another value. -/
theorem refresh_overwrites :
    (Reachable anyOperation worthElsewhere ∧ worthElsewhere.Shaped ⟨0⟩ ∧
      worthElsewhere.Overwrites) ∧
    (Reachable anyOperation worthOptional ∧ worthOptional.OfOneType ⟨0⟩ ∧
      worthOptional.Overwrites) ∧
    Reachable anyOperation worthRounded ∧ worthRounded.OfOneType ⟨0⟩ ∧ worthRounded.Departs := by
  refine ⟨⟨reachable_badges .., ?_, ?_⟩, ⟨reachable_badges .., ofOneType_badges _ _, ?_⟩,
    reachable_badges .., ofOneType_badges _ _, ?_⟩
  · unfold Shaped
    decide +kernel
  · exact ⟨⟨.mapping .foreignInstance, []⟩, _, Action.run_eq_of_fst (by decide +kernel), by decide,
      by decide +kernel⟩
  · exact ⟨.conversion .null "i64", _, Action.run_eq_of_fst (by decide +kernel), by decide,
      by decide +kernel⟩
  · have hasked : worthRounded.Asked ⟨0⟩ badgeMetadata ⟨"Badge", [("id", .int 2)]⟩
        ((metadata badge).run worthRounded).2 :=
      ⟨Action.run_eq_of_fst rfl, worthRounded.heap.content ⟨0⟩, [("id", .int 2)], rfl, rfl,
        by decide +kernel⟩
    exact ⟨_, _, _, Sample.userRow (.int 2) "Bob",
      [("id", .int 2), ("name", .text "Bob"), ("worth", .int 0)], _, hasked, by decide +kernel,
      by decide +kernel, Action.run_eq_of_fst (by decide +kernel), by decide +kernel⟩

end Outcomes

end Manager
end Persistence
