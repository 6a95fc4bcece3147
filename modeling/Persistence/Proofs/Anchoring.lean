import Persistence.Proofs.Addresses
import Persistence.Proofs.Carrying
import Persistence.Proofs.IdentityMap
import Persistence.Proofs.Inquiries
import Persistence.Proofs.Retrying

/-!
Instances that own the key of their row. As long as rows carry the keys that they are selected by
and callers leave identifiers alone, nothing but detaching or deleting an instance takes its key.
-/

namespace Persistence

open Persistence.Action (Within)
open Schema (Metadata Snapshot Field Registry)

namespace UnitOfWork

variable {w w' : UnitOfWork} {h h' : Heap} {oid j : Oid} {key : IdentityKey} {t : Tracked}

def Identifiable (w : UnitOfWork) (h : Heap) : Prop :=
  ∀ oid t key, w.tracked.get? oid = some t → t.key = some key → oid.index < h.objects.length ∧
    ∀ k, IdentityKey.ofSnapshot t.metadata (t.metadata.snapshotOf (h.content oid)) = .ok k → k = key

theorem Identifiable.of_retains (hw : w.Identifiable h) (hc : w'.Consistent)
    (hretains : w.Retains w') : w'.Identifiable h := by
  intro oid t' key ht' hkey
  have hs' : t'.state ≠ .new := fun hs => by
    simp [(hc.key_eq_none_iff oid t' ht').mpr hs] at hkey
  obtain ⟨t, ht, -, hm, -, hsame⟩ := hretains oid t' ht' hs'
  rw [← hm]
  exact hw oid t key ht (hsame.trans hkey)

theorem Identifiable.of_contents (hw : w.Identifiable h) (hsize : h.objects.length ≤ h'.objects.length)
    (hsame : ∀ oid t key, w.tracked.get? oid = some t → t.key = some key →
      oid.index < h.objects.length → h'.content oid = h.content oid) : w.Identifiable h' := by
  intro oid t key ht hkey
  obtain ⟨hlt, hk⟩ := hw oid t key ht hkey
  rw [hsame oid t key ht hkey hlt]
  exact ⟨Nat.lt_of_lt_of_le hlt hsize, hk⟩

theorem Identifiable.identified (hw : w.Identifiable h) (hc : w.Consistent)
    (hh : w.Identified h h') : w.Identifiable h' :=
  hw.of_contents hh.size.ge fun oid t _ ht hkey _ =>
    congrArg Object.content <| hh.object_eq ht fun hs => by
      simp [(hc.key_eq_none_iff oid t ht).mpr hs] at hkey

theorem Identifiable.allocate (hw : w.Identifiable h) (x : Instance) :
    w.Identifiable (h.allocate x).2 := by
  refine hw.of_contents (by simp [Heap.allocate]) fun oid _ _ _ _ hlt => ?_
  simp [Heap.allocate, Heap.content, Heap.object, List.getD_eq_getElem?_getD,
    List.getElem?_append_left hlt]

theorem Identifiable.track (hw : w.Identifiable h) {m : Metadata} {s : Snapshot}
    (hlt : oid.index < h.objects.length) (hkey : ∀ k,
      IdentityKey.ofSnapshot m (m.snapshotOf (h.content oid)) = .ok k → k = key) :
    (w.track oid m key s).Identifiable h := by
  intro j t k ht hk
  rw [get?_tracked_track] at ht
  split at ht
  · rename_i hj
    rw [← Option.some.inj ht] at hk ⊢
    obtain rfl := Option.some.inj hk
    exact ⟨hj ▸ hlt, hj ▸ hkey⟩
  · exact hw j t k ht hk

theorem keyOf_remove_of_some (hc : w.Consistent) (hw : w.remove oid = .ok w')
    (hkey : w.keyOf j = some key) : w'.keyOf j = some key := by
  unfold remove at hw
  cases ht : w.tracked.get? oid with
  | none => simp [ht] at hw
  | some t =>
    simp only [ht] at hw
    have hnew : oid = j → t.key = some key := fun hj => by rw [← keyOf_of_get? ht, hj, hkey]
    cases hs : t.state with
    | new =>
      simp only [hs] at hw
      rw [← Except.ok.inj hw, keyOf, OrderedMap.get?_erase, if_neg fun hj => ?_]
      · exact hkey
      · simp [(hc.key_eq_none_iff oid t ht).mpr hs] at hnew
        exact hnew hj
    | managed =>
      simp only [hs] at hw
      rw [← Except.ok.inj hw, keyOf, OrderedMap.get?_insert]
      split
      · rename_i hj
        exact hnew hj
      · exact hkey
    | removed | detached =>
      simp only [hs] at hw
      rw [← Except.ok.inj hw]
      exact hkey

theorem Owns.foldl_written (howns : w.Owns oid key) {written : List Written}
    (hown : ∀ x ∈ written, x.oid = oid → x.key = key)
    (hothers : ∀ x ∈ written, x.oid ≠ oid → x.key ≠ key) :
    (written.foldl UnitOfWork.trackWritten w).Owns oid key := by
  induction written generalizing w with
  | nil => exact howns
  | cons x written ih =>
    refine ih ?_ (fun y hy => hown y (List.mem_cons_of_mem x hy)) fun y hy =>
      hothers y (List.mem_cons_of_mem x hy)
    by_cases hx : x.oid = oid
    · have hkey := hown x List.mem_cons_self hx
      rw [UnitOfWork.trackWritten]
      split
      · exact howns
      · rw [← hx, ← hkey]
        exact owns_track ..
    · exact howns.trackWritten hx (hothers x List.mem_cons_self hx)

theorem WroteAll.key_eq {c : ChangeSet} {written : List Written} (hall : w.WroteAll c written h h')
    (hh : w.Identified h h') (hc : w.Consistent) (hw : w.Identifiable h) {x : Written}
    (hx : x ∈ written) (ht : w.tracked.get? x.oid = some t) (hkey : t.key = some key) :
    x.key = key := by
  have hs : t.state ≠ .new := fun hs => by simp [(hc.key_eq_none_iff x.oid t ht).mpr hs] at hkey
  obtain ⟨t', ht', hvalues⟩ := hall.holds x hx
  obtain rfl := Option.some.inj (ht.symm.trans ht')
  refine (hw x.oid t key ht hkey).2 x.key ?_
  have hcontent : h'.content x.oid = h.content x.oid := congrArg Object.content (hh.object_eq ht hs)
  rw [← hcontent, ← Heap.values_eq hvalues]
  exact hall.wrote.keyed x hx t ht

theorem WroteAll.key_ne {c : ChangeSet} {written : List Written} (hall : w.WroteAll c written h h')
    (hcs : w.changeSet h = .ok c) {x : Written} (hx : x ∈ written) (hs : w.state x.oid = .new)
    (hslot : w.slots.get? key = some oid) (hne : x.oid ≠ oid) : x.key ≠ key := by
  rintro rfl
  rcases hall.free x hx with hu | hfree
  · obtain ⟨u, hu, hoid⟩ := List.mem_map.mp hu
    rw [← hoid, state_of_mem_updates hcs hu] at hs
    simp at hs
  · exact hne (hfree oid hslot).symm

section Written

variable {c : ChangeSet} {written : List Written} (hall : w.WroteAll c written h h')
  (hc : w.Consistent)

include hall hc

theorem WroteAll.key_ne_of_sole (hh : w.Identified h h') (hw : w.Identifiable h)
    (hcs : w.changeSet h = .ok c) (howns : w.Owns oid key)
    (hsole : ∀ j, j ≠ oid → w.keyOf j ≠ some key) :
    ∀ x ∈ written, x.oid ≠ oid → x.key ≠ key := by
  intro x hx hne
  rcases hall.wrote.live x hx with hnew | hmanaged
  · exact hall.key_ne hcs hx hnew howns.2 hne
  · obtain ⟨t, ht, hs⟩ := exists_of_state (show w.state x.oid ≠ .detached by simp [hmanaged])
    obtain ⟨k, hk⟩ := Option.ne_none_iff_exists'.mp fun hnone => by
      rw [hc.key_eq_none_iff x.oid t ht, hs, hmanaged] at hnone
      simp at hnone
    rw [hall.key_eq hh hc hw hx ht hk]
    rintro rfl
    exact hsole x.oid hne (by rw [keyOf_of_get? ht, hk])

theorem WroteAll.keyOf_ne (hothers : ∀ x ∈ written, x.oid ≠ oid → x.key ≠ key)
    (hsole : ∀ j, j ≠ oid → w.keyOf j ≠ some key) :
    ∀ j, j ≠ oid → (w.apply written w.deletions).keyOf j ≠ some key := by
  intro j hj
  by_cases hd : j ∈ w.deletions
  · rw [keyOf, hc.get?_tracked_apply_of_deleted hall.wrote hd]
    simp
  by_cases hmem : j ∈ written.map Written.oid
  · obtain ⟨x, hx, rfl⟩ := List.mem_map.mp hmem
    rw [keyOf_apply_of_written hc hall.wrote hx]
    exact fun heq => hothers x hx hj (Option.some.inj heq)
  · rw [keyOf_apply_of_kept hc hall.wrote hmem hd]
    exact hsole j hj

theorem WroteAll.identifiable (hh : w.Identified h h') (hw : w.Identifiable h) :
    (w.apply written w.deletions).Identifiable h' := by
  intro j t k ht hk
  obtain ⟨x, hx, rfl, t₀, ht₀, rfl⟩ | ⟨-, ht, -⟩ := hc.tracked_after_apply hall.wrote ht
  · obtain ⟨t₁, ht₁, hvalues⟩ := hall.holds x hx
    obtain rfl := Option.some.inj (ht₀.symm.trans ht₁)
    obtain rfl := Option.some.inj hk
    have hkeyed := hall.wrote.keyed x hx t₀ ht₀
    rw [Heap.values_eq hvalues] at hkeyed
    refine ⟨Heap.index_lt_of_ofSnapshot hkeyed, fun k' hk' => ?_⟩
    exact Except.ok.inj (hk'.symm.trans hkeyed)
  · exact hw.identified hc hh j t k ht hk

end Written

end UnitOfWork

namespace Manager

variable {σ : Type}

structure LeavesIdentifiers (m : Manager σ) (heap : Heap) : Prop where
  size : m.heap.objects.length ≤ heap.objects.length
  types : ∀ oid, oid.index < m.heap.objects.length → heap.typeOf oid = m.heap.typeOf oid
  storages : ∀ type, (heap.fresh type).storages = (m.heap.fresh type).storages
  identifiers : ∀ oid t, m.work.tracked.get? oid = some t → t.state ≠ .new →
    ∀ f ∈ t.metadata.identifierFields,
      (heap.content oid).read f.accessor.slot = (m.heap.content oid).read f.accessor.slot

/-- An instance owns a key that no other one records, and nothing is known of what is tracked and of
the classes that was not known at the start. -/
structure Anchored (start : Manager (Recorded σ)) (oid : Oid) (key : IdentityKey)
    (m : Manager (Recorded σ)) : Prop where
  consistent : m.work.Consistent
  owns : m.work.Owns oid key
  sole : ∀ j, j ≠ oid → m.work.keyOf j ≠ some key
  identifiable : m.work.Identifiable m.heap
  registry : start.registry.Agrees m.registry
  type : m.heap.typeOf oid = start.heap.typeOf oid
  storages : ∀ type, (m.heap.fresh type).storages = (start.heap.fresh type).storages

variable {start m t : Manager (Recorded σ)} {oid : Oid} {key : IdentityKey}

namespace Anchored

theorem undisturbed (h : Anchored start oid key m) (ht : m.Undisturbed t) :
    Anchored start oid key t := by
  refine ⟨?_, ?_, ?_, ?_, Trans.trans (r := Registry.Agrees) h.registry ht.registry, ?_, ?_⟩
  · rw [ht.work]; exact h.consistent
  · rw [ht.work]; exact h.owns
  · rw [ht.work]; exact h.sole
  · rw [ht.work, ht.heap]; exact h.identifiable
  · rw [ht.heap]; exact h.type
  · rw [ht.heap]; exact h.storages

theorem find?_eq (h : Anchored start oid key m) : m.work.find? key = some oid := by
  obtain ⟨t, ht, -⟩ := UnitOfWork.exists_of_keyOf h.owns.1
  simp [UnitOfWork.find?, h.owns.2, OrderedMap.contains, ht]

theorem index_lt (h : Anchored start oid key m) : oid.index < m.heap.objects.length := by
  obtain ⟨t, ht, hkey⟩ := UnitOfWork.exists_of_keyOf h.owns.1
  exact (h.identifiable oid t key ht hkey).1

theorem retains (h : Anchored start oid key m) {w : UnitOfWork} {r : Registry}
    (hr : m.registry.Agrees r) (hc : w.Consistent) (hretains : m.work.Retains w)
    (howns : w.Owns oid key) : Anchored start oid key { m with registry := r, work := w } where
  consistent := hc
  owns := howns
  sole := by
    intro j hj hkey
    obtain ⟨t', ht', hkey'⟩ := UnitOfWork.exists_of_keyOf hkey
    have hs' : t'.state ≠ .new := fun hs => by
      simp [(hc.key_eq_none_iff j t' ht').mpr hs] at hkey'
    obtain ⟨t, ht, -, -, -, hsame⟩ := hretains j t' ht' hs'
    exact h.sole j hj (by rw [UnitOfWork.keyOf_of_get? ht, hsame, hkey'])
  identifiable := h.identifiable.of_retains hc hretains
  registry := Trans.trans (r := Registry.Agrees) h.registry hr
  type := h.type
  storages := h.storages

theorem detach (h : Anchored start oid key m) {j : Oid} (hj : j ≠ oid) :
    Anchored start oid key ((Manager.detach j).run m).2 :=
  h.retains (Std.Refl.refl m.registry) (h.consistent.detach j) (UnitOfWork.retains_detach j)
    (h.owns.detach hj)

theorem allocate (h : Anchored start oid key m) (x : Instance) :
    Anchored start oid key { m with heap := (m.heap.allocate x).2 } where
  consistent := h.consistent
  owns := h.owns
  sole := h.sole
  identifiable := h.identifiable.allocate x
  registry := h.registry
  type := by
    rw [← h.type]
    simp [Heap.typeOf, Heap.allocate, Heap.content, Heap.object, List.getD_eq_getElem?_getD,
      List.getElem?_append_left h.index_lt]
  storages := h.storages

theorem edit (h : Anchored start oid key m) {heap : Heap} (hleaves : m.LeavesIdentifiers heap) :
    Anchored start oid key { m with heap := heap } where
  consistent := h.consistent
  owns := h.owns
  sole := h.sole
  identifiable := by
    intro j t k ht hk
    obtain ⟨hlt, hkey⟩ := h.identifiable j t k ht hk
    refine ⟨Nat.lt_of_lt_of_le hlt hleaves.size, fun k' hk' => hkey k' ?_⟩
    rw [← hk']
    refine (IdentityKey.ofSnapshot_congr fun name hname => ?_).symm
    obtain ⟨f, hf, rfl⟩ := Metadata.exists_identifierField hname
    have hmem := (Metadata.mem_identifierFields.mp hf).1
    have hs : t.state ≠ .new := fun hs => by
      simp [(h.consistent.key_eq_none_iff j t ht).mpr hs] at hk
    rw [IdentityKey.snapshotValue, IdentityKey.snapshotValue, Metadata.lookupEntry_snapshotOf _ hmem,
      Metadata.lookupEntry_snapshotOf _ hmem, hleaves.identifiers j t ht hs f hf]
  registry := h.registry
  type := (hleaves.types oid h.index_lt).trans h.type
  storages type := (hleaves.storages type).trans (h.storages type)

theorem track (h : Anchored start oid key m) {r : Registry} (hr : m.registry.Agrees r) {j : Oid}
    {md : Metadata} {k : IdentityKey} {s : Snapshot} (hlt : j.index < m.heap.objects.length)
    (hj : j ≠ oid) (hk : k ≠ key) (hkeys : ∀ k',
      IdentityKey.ofSnapshot md (md.snapshotOf (m.heap.content j)) = .ok k' → k' = k) :
    Anchored start oid key { m with registry := r, work := m.work.track j md k s } where
  consistent := h.consistent.track md k s
  owns := h.owns.track hj hk md s
  sole := by
    intro i hi hkey
    rw [UnitOfWork.keyOf_track] at hkey
    split at hkey
    · exact hk (Option.some.inj hkey)
    · exact h.sole i hi hkey
  identifiable := h.identifiable.track hlt hkeys
  registry := Trans.trans (r := Registry.Agrees) h.registry hr
  type := h.type
  storages := h.storages

end Anchored

variable [Connection σ]

/-- The rows of every class carry their keys, and its identifiers are stored as they are typed. -/
structure Faithful (start : Manager (Recorded σ)) : Prop where
  rows : ∀ className md id key, start.registry.view className = .ok md →
    IdentityKey.ofIdentifier md id = .ok key → RowsCarry σ md key
  stores : ∀ className md, start.registry.view className = .ok md →
    start.heap.StoresIdentifiers md

/-- No class has another field in the slot of an identifier field. -/
def IdentifiersApart (start : Manager (Recorded σ)) : Prop :=
  ∀ className md, start.registry.view className = .ok md → md.IdentifiersApart

theorem post_loadRow_carries {md : Metadata} (hrows : RowsCarry σ md key) (m : Manager (Recorded σ)) :
    (loadRow md key).Post (fun row _ => ∀ r, row = some r → r.Carries md key) (fun _ _ => True) m := by
  simp only [loadRow, onSession, inEnvironment, Environment.onSession, Session.select,
    Action.post_bind, Action.post_onPart, Action.post_pure, Session.post_query]
  refine (Recorded.post_call _ _ _).mpr ((hrows _).mono (fun rows _ h r hr => ?_) fun _ _ => id)
  exact h r (List.mem_of_mem_head? hr)

namespace Anchored

theorem persist (h : Anchored start oid key m) (j : Oid) :
    Anchored start oid key ((Manager.persist j).run m).2 := by
  have hanswers := (Operation.persist j).within_run m
  refine Action.post_iff_run (P := Anchored start oid key) |>.mp ?_
  have hpersist := Action.post_iff.mp (post_persist j m)
  refine Action.post_iff.mpr ⟨fun _ t ht => ?_, fun e t ht => ?_⟩
  · rw [Operation.run, ht] at hanswers
    obtain ⟨md, -, -, heq⟩ := hpersist.1 _ t ht
    rw [heq]
    refine h.retains hanswers (h.consistent.persist j md) (UnitOfWork.retains_persist j md) ⟨?_, ?_⟩
    · rw [UnitOfWork.keyOf_persist]
      exact h.owns.1
    · rw [UnitOfWork.slots_persist]
      exact h.owns.2
  · rw [Operation.run, ht] at hanswers
    have heq := hpersist.2 e t ht
    exact h.undisturbed ⟨by rw [heq], by rw [heq], hanswers⟩

theorem remove (h : Anchored start oid key m) (j : Oid) :
    Anchored start oid key ((Manager.remove j).run m).2 := by
  have hanswers := (Operation.remove j).within_run m
  refine Action.post_iff_run (P := Anchored start oid key) |>.mp ?_
  have hremove := Action.post_iff.mp (post_remove j m)
  refine Action.post_iff.mpr ⟨fun _ t ht => ?_, fun e t ht => ?_⟩
  · rw [Operation.run, ht] at hanswers
    obtain ⟨w, hw, heq⟩ := hremove.1 _ t ht
    rw [heq]
    refine h.retains hanswers (h.consistent.remove hw) (UnitOfWork.retains_remove hw) ⟨?_, ?_⟩
    · exact UnitOfWork.keyOf_remove_of_some h.consistent hw h.owns.1
    · rw [UnitOfWork.slots_remove hw]
      exact h.owns.2
  · rw [Operation.run, ht] at hanswers
    have heq := hremove.2 e t ht
    exact h.undisturbed ⟨by rw [heq], by rw [heq], hanswers⟩

omit [Connection σ] in
theorem object_eq (h : Anchored start oid key m) {heap : Heap}
    (hh : m.work.Identified m.heap heap) : heap.object oid = m.heap.object oid := by
  obtain ⟨t, ht, hkey⟩ := UnitOfWork.exists_of_keyOf h.owns.1
  exact hh.object_eq ht fun hs => by
    simp [(h.consistent.key_eq_none_iff oid t ht).mpr hs] at hkey

omit [Connection σ] in
theorem identified (h : Anchored start oid key m) (hh : m.work.Identified m.heap t.heap)
    (hr : m.registry.Agrees t.registry) (hc : t.work.Consistent) (howns : t.work.Owns oid key)
    (hsole : ∀ j, j ≠ oid → t.work.keyOf j ≠ some key) (hw : t.work.Identifiable t.heap) :
    Anchored start oid key t where
  consistent := hc
  owns := howns
  sole := hsole
  identifiable := hw
  registry := Trans.trans (r := Registry.Agrees) h.registry hr
  type := by
    rw [← h.type, Heap.typeOf, Heap.content, h.object_eq hh]
    rfl
  storages := fun type => by rw [← h.storages, Heap.fresh, Heap.fresh, hh.initials]

/-- A flush that does not delete the instance writes it under its own key, and the others under
other keys. -/
theorem flush (h : Anchored start oid key m)
    (hspares : (∃ t, Manager.flush.run m = (.ok ⟨⟩, t)) → oid ∉ m.work.deletions) :
    Anchored start oid key (Manager.flush.run m).2 := by
  have hanswers := Operation.flush.within_run m
  refine Action.post_iff_run (P := Anchored start oid key) |>.mp ?_
  have hcalls := Action.post_iff.mp (post_flush_calls h.consistent)
  have hwrote := Action.post_iff.mp (post_flush_wrote h.consistent)
  have unwritten {t : Manager (Recorded σ)} (hh : m.work.Identified m.heap t.heap)
      (hw : t.work = m.work) (hr : m.registry.Agrees t.registry) : Anchored start oid key t :=
    h.identified hh hr (hw ▸ h.consistent) (hw ▸ h.owns) (hw ▸ h.sole)
      (hw ▸ h.identifiable.identified h.consistent hh)
  refine Action.post_iff.mpr ⟨fun _ t ht => ?_, fun e t ht => ?_⟩
  case refine_2 =>
    rw [Operation.run, ht] at hanswers
    exact unwritten (hcalls.2 e t ht).1 (hwrote.2 e t ht) hanswers
  rw [Operation.run, ht] at hanswers
  have hh := (hcalls.1 _ t ht).1
  obtain ⟨c, hcs, ⟨-, hw⟩ | ⟨-, written, hall, hw⟩⟩ := hwrote.1 _ t ht
  · exact unwritten hh hw hanswers
  have hown : ∀ x ∈ written, x.oid = oid → x.key = key := by
    rintro x hx rfl
    obtain ⟨tx, htx, hkey⟩ := UnitOfWork.exists_of_keyOf h.owns.1
    exact hall.key_eq hh h.consistent h.identifiable hx htx hkey
  have hothers :=
    hall.key_ne_of_sole h.consistent hh h.identifiable hcs h.owns h.sole
  refine h.identified hh hanswers ?_ ?_ ?_ ?_ <;> rw [hw]
  · exact h.consistent.apply hall.wrote _
  · rw [h.consistent.apply_eq hall.wrote]
    exact (h.owns.foldl_written hown hothers).foldl_detach (hspares ⟨t, ht⟩)
  · exact hall.keyOf_ne h.consistent hothers h.sole
  · exact hall.identifiable h.consistent hh h.identifiable

variable (hstart : start.registry.Sound) (hf : start.Faithful) (happart : start.IdentifiersApart)

include hstart hf happart

theorem find (h : Anchored start oid key m) (type : EntityType) (id : Identifier) :
    Anchored start oid key ((Manager.find type id).run m).2 := by
  have hanswers := steady_sameAnswers.find type id m
  refine Action.post_iff_run (P := Anchored start oid key) |>.mp ?_
  have hfind := Action.post_iff.mp (post_find_found type id m)
  refine Action.post_iff.mpr ⟨fun o t ht => ?_, fun e t ht => ?_⟩
  case refine_2 =>
    rw [ht] at hanswers
    obtain ⟨-, hw, hheap | ⟨x, hheap⟩⟩ := hfind.2 e t ht
    · exact h.undisturbed ⟨hheap, hw, hanswers⟩
    · exact (h.allocate x).undisturbed ⟨hheap, hw, hanswers⟩
  rw [ht] at hanswers
  cases hfind.1 o t ht with
  | tracked hmd =>
    have hsame := (post_metadata type m).of_run_ok hmd
    exact h.undisturbed ⟨by rw [hsame], by rw [hsame], hanswers⟩
  | absent hmd _ _ hread =>
    have hsame := (post_metadata type m).of_run_ok hmd
    have hsame' := ((post_loadRow _ _ _).of_run_ok hread).1
    exact h.undisturbed ⟨by rw [hsame', hsame], by rw [hsame', hsame], hanswers⟩
  | @loaded md k described read row x s hmd hk hfree hread hx hs =>
    have hview := view_of_metadata hmd
    rw [h.registry.view_eq hstart] at hview
    have hbelongs := IdentityKey.belongs_of_ofIdentifier hk
    have hfull := IdentityKey.full_of_ofIdentifier hk
    have hcarries := hf.rows _ md id k hview hk
    have hrow := (post_loadRow_carries hcarries described).of_run_ok hread row rfl
    have hstores : m.heap.StoresIdentifiers md := by
      intro f hmem
      obtain ⟨s, hs, hsuits⟩ := hf.stores _ md hview f hmem
      exact ⟨s, by rwa [h.storages], hsuits⟩
    have hne : k ≠ key := by
      rintro rfl
      simp [h.find?_eq] at hfree
    have hj : (⟨m.heap.objects.length⟩ : Oid) ≠ oid := fun heq => by
      have := h.index_lt
      simp [← heq] at this
    have hcontent : (m.heap.allocate x).2.content ⟨m.heap.objects.length⟩ = x := by
      simp [Heap.allocate, Heap.content, Heap.object]
    refine ((h.allocate x).track (s := s) (j := ⟨m.heap.objects.length⟩) hanswers
      (by simp [Heap.allocate]) hj hne fun k' hk' => ?_).undisturbed ⟨rfl, rfl, Std.Refl.refl _⟩
    rw [hcontent] at hk'
    exact key_of_hydrate hbelongs hfull hrow hstores (happart _ md hview) hx hs hk'

theorem findEach (h : Anchored start oid key m) (type : EntityType) (ids : List Identifier) :
    Anchored start oid key ((Repository.findEach type ids).run m).2 := by
  induction ids generalizing m with
  | nil => exact h
  | cons id rest ih =>
    have hfound := h.find hstart hf happart type id
    rw [Repository.findEach, Action.run_bind]
    split <;> rename_i hrun <;> rw [hrun] at hfound
    · have hmore := ih hfound
      rw [Action.run_bind]
      split <;> rename_i hrun' <;> rwa [hrun'] at hmore
    · exact hfound

theorem findByIds (h : Anchored start oid key m) (type : EntityType) (ids : List Identifier) :
    Anchored start oid key ((Repository.findByIds type ids).run m).2 := by
  rw [Repository.findByIds]
  split
  · exact h
  · exact h.findEach hstart hf happart type ids

theorem resolve (h : Anchored start oid key m) (r : Reference) :
    Anchored start oid key (r.resolve.run m).2 := by
  cases r with
  | loaded j => exact h
  | unloaded type id =>
    have hfound := h.find hstart hf happart type id
    rw [Reference.resolve, Action.run_bind]
    split <;> rename_i hrun <;> rw [hrun] at hfound
    · split <;> exact hfound
    · exact hfound

end Anchored

end Manager
end Persistence
