import Persistence.Proofs.Tracking

/-!
Consistency of a unit of work: its queues, the states and keys of its instances and its identity
map tell the same story. Every transition keeps it.
-/

namespace Persistence.UnitOfWork

open Schema (Metadata Snapshot)

/-- The four collections of a unit of work agree. -/
structure Consistent (w : UnitOfWork) : Prop where
  insertions_nodup : w.insertions.Nodup
  deletions_nodup : w.deletions.Nodup
  /-- The instances that wait to be inserted are the new ones. -/
  mem_insertions : ∀ oid, oid ∈ w.insertions ↔ w.state oid = .new
  /-- The instances that wait to be deleted are the removed ones. -/
  mem_deletions : ∀ oid, oid ∈ w.deletions ↔ w.state oid = .removed
  not_detached : ∀ oid t, w.tracked.get? oid = some t → t.state ≠ .detached
  /-- A new instance has no identity, any other has one. -/
  key_eq_none_iff : ∀ oid t, w.tracked.get? oid = some t → (t.key = none ↔ t.state = .new)
  /-- The instance in a slot is tracked and records the key of the slot. -/
  keyOf_slot : ∀ key oid, w.slots.get? key = some oid → w.keyOf oid = some key

variable {w : UnitOfWork} {oid : Oid}

theorem consistent_empty : empty.Consistent where
  insertions_nodup := List.nodup_nil
  deletions_nodup := List.nodup_nil
  mem_insertions oid := by simp [empty, state]
  mem_deletions oid := by simp [empty, state]
  not_detached oid t h := by simp [empty] at h
  key_eq_none_iff oid t h := by simp [empty] at h
  keyOf_slot key oid h := by simp [empty] at h

namespace Consistent

theorem slot_unique (h : w.Consistent) {key key' : IdentityKey}
    (hk : w.slots.get? key = some oid) (hk' : w.slots.get? key' = some oid) : key = key' :=
  Option.some.inj ((h.keyOf_slot key oid hk).symm.trans (h.keyOf_slot key' oid hk'))

section Queue

variable {queue : List Oid} {p : Prop}

theorem mem_queue_ite (hqueue : oid ∉ queue) (hp : ¬ p) (j : Oid) :
    j ∈ queue ↔ if oid = j then p else j ∈ queue := by
  by_cases hj : oid = j
  · simp [← hj, hqueue, hp]
  · simp [hj]

theorem mem_erase_ite (hqueue : queue.Nodup) (hp : ¬ p) (j : Oid) :
    j ∈ queue.erase oid ↔ if oid = j then p else j ∈ queue := by
  rw [hqueue.mem_erase_iff]
  by_cases hj : oid = j <;> simp [hj, hp, eq_comm]

theorem mem_enqueue_ite (hp : p) (j : Oid) :
    j ∈ enqueue oid queue ↔ if oid = j then p else j ∈ queue := by
  rw [mem_enqueue]
  by_cases hj : oid = j <;> simp [hj, hp, eq_comm]

end Queue

/-- A transition that changes what is known of one instance keeps consistency if it puts that
instance in the queue of its new state and leaves it no slot but that of its new key. -/
theorem of_change {w' : UnitOfWork} {r : Option Tracked} (h : w.Consistent)
    (tracked : ∀ j, w'.tracked.get? j = if oid = j then r else w.tracked.get? j)
    (sound : ∀ t, r = some t → t.state ≠ .detached ∧ (t.key = none ↔ t.state = .new))
    (insertions_nodup : w'.insertions.Nodup) (deletions_nodup : w'.deletions.Nodup)
    (insertions : ∀ j, j ∈ w'.insertions ↔
      if oid = j then ∃ t, r = some t ∧ t.state = .new else j ∈ w.insertions)
    (deletions : ∀ j, j ∈ w'.deletions ↔
      if oid = j then ∃ t, r = some t ∧ t.state = .removed else j ∈ w.deletions)
    (slots : ∀ k j, w'.slots.get? k = some j →
      if oid = j then r.bind Tracked.key = some k else w.slots.get? k = some j) :
    w'.Consistent := by
  have state (j : Oid) (hj : oid ≠ j) : w'.state j = w.state j := by
    rw [UnitOfWork.state, tracked, if_neg hj, UnitOfWork.state]
  have state_oid (s : Lifecycle) (hs : s ≠ .detached) :
      w'.state oid = s ↔ ∃ t, r = some t ∧ t.state = s := by
    rw [UnitOfWork.state, tracked, if_pos rfl]
    cases r with
    | none => simp [hs.symm]
    | some t => simp
  constructor
  case insertions_nodup => exact insertions_nodup
  case deletions_nodup => exact deletions_nodup
  case mem_insertions =>
    intro j
    rw [insertions]
    split
    · rename_i hj
      rw [← hj, state_oid .new (by simp)]
    · rename_i hj
      rw [state j hj, h.mem_insertions]
  case mem_deletions =>
    intro j
    rw [deletions]
    split
    · rename_i hj
      rw [← hj, state_oid .removed (by simp)]
    · rename_i hj
      rw [state j hj, h.mem_deletions]
  case not_detached =>
    intro j t ht
    rw [tracked] at ht
    split at ht
    · exact (sound t ht).1
    · exact h.not_detached j t ht
  case key_eq_none_iff =>
    intro j t ht
    rw [tracked] at ht
    split at ht
    · exact (sound t ht).2
    · exact h.key_eq_none_iff j t ht
  case keyOf_slot =>
    intro k j hslot
    have hold := slots k j hslot
    rw [keyOf, tracked]
    split at hold
    · rename_i hj
      rwa [if_pos hj]
    · rename_i hj
      rw [if_neg hj]
      exact h.keyOf_slot k j hold

theorem track (h : w.Consistent) (m : Metadata) (key : IdentityKey) (s : Snapshot) :
    (w.track oid m key s).Consistent := by
  refine h.of_change (r := some ⟨m, .managed, s, some key⟩) (fun j => get?_tracked_track m key s)
    (by simp) (h.insertions_nodup.erase oid) (h.deletions_nodup.erase oid)
    (mem_erase_ite h.insertions_nodup (by simp)) (mem_erase_ite h.deletions_nodup (by simp))
    fun k j hslot => ?_
  rw [get?_slots_track] at hslot
  split at hslot
  · rename_i hk
    rw [if_pos (Option.some.inj hslot), hk]
    rfl
  · split at hslot
    · simp at hslot
    · rename_i hfree
      -- a slot that the instance still held would have been freed
      have hj : oid ≠ j := fun hj => hfree ⟨by rw [hj]; exact h.keyOf_slot k j hslot, hj ▸ hslot⟩
      rwa [if_neg hj]

theorem detach (h : w.Consistent) (oid : Oid) : (w.detach oid).Consistent := by
  cases ht : w.tracked.get? oid with
  | none =>
    have hw : w.detach oid = w := by rw [UnitOfWork.detach, ht]
    rwa [hw]
  | some t =>
    have hins : (w.detach oid).insertions = w.insertions.erase oid := by
      rw [UnitOfWork.detach, ht]
    have hdel : (w.detach oid).deletions = w.deletions.erase oid := by
      rw [UnitOfWork.detach, ht]
    refine h.of_change (r := none) (fun j => get?_tracked_detach) (by simp)
      (hins ▸ h.insertions_nodup.erase oid) (hdel ▸ h.deletions_nodup.erase oid)
      (hins ▸ mem_erase_ite h.insertions_nodup (by simp))
      (hdel ▸ mem_erase_ite h.deletions_nodup (by simp)) fun k j hslot => ?_
    rw [get?_slots_detach] at hslot
    split at hslot
    · simp at hslot
    · rename_i hfree
      have hj : oid ≠ j := fun hj => hfree ⟨by rw [hj]; exact h.keyOf_slot k j hslot, hj ▸ hslot⟩
      rwa [if_neg hj]

theorem slot_of_key_eq (h : w.Consistent) {r : Option Tracked}
    (hkey : r.bind Tracked.key = w.keyOf oid) (k : IdentityKey) (j : Oid)
    (hslot : w.slots.get? k = some j) :
    if oid = j then r.bind Tracked.key = some k else w.slots.get? k = some j := by
  split
  · rename_i hj
    rw [hkey, hj]
    exact h.keyOf_slot k j hslot
  · exact hslot

theorem persist (h : w.Consistent) (oid : Oid) (m : Metadata) : (w.persist oid m).Consistent := by
  unfold UnitOfWork.persist
  cases ht : w.tracked.get? oid with
  | none =>
    have hd : oid ∉ w.deletions := by
      rw [h.mem_deletions, state, ht]
      simp
    exact h.of_change (fun j => OrderedMap.get?_insert ..) (by simp)
      (nodup_enqueue h.insertions_nodup) h.deletions_nodup (mem_enqueue_ite (by simp))
      (mem_queue_ite hd (by simp)) (h.slot_of_key_eq (by rw [keyOf, ht]; rfl))
  | some t =>
    dsimp only
    split
    · rename_i hs
      have hkey := h.key_eq_none_iff oid t ht
      have hi : oid ∉ w.insertions := by
        rw [h.mem_insertions, state_of_get? ht, hs]
        simp
      exact h.of_change (fun j => OrderedMap.get?_insert ..) (by simp [hkey, hs])
        h.insertions_nodup (h.deletions_nodup.erase oid) (mem_queue_ite hi (by simp))
        (mem_erase_ite h.deletions_nodup (by simp)) (h.slot_of_key_eq (by rw [keyOf, ht]; rfl))
    · exact h

theorem remove (h : w.Consistent) {w' : UnitOfWork} (hw : w.remove oid = .ok w') :
    w'.Consistent := by
  unfold UnitOfWork.remove at hw
  cases ht : w.tracked.get? oid with
  | none => simp [ht] at hw
  | some t =>
    have hkey := h.key_eq_none_iff oid t ht
    simp only [ht] at hw
    cases hs : t.state with
    | new =>
      simp only [hs] at hw
      rw [← Except.ok.inj hw]
      have hd : oid ∉ w.deletions := by
        rw [h.mem_deletions, state_of_get? ht, hs]
        simp
      exact h.of_change (r := none) (fun j => OrderedMap.get?_erase ..) (by simp)
        (h.insertions_nodup.erase oid) h.deletions_nodup
        (mem_erase_ite h.insertions_nodup (by simp)) (mem_queue_ite hd (by simp))
        (h.slot_of_key_eq (by rw [keyOf_of_get? ht, hkey.mpr hs]; rfl))
    | managed =>
      simp only [hs] at hw
      rw [← Except.ok.inj hw]
      have hi : oid ∉ w.insertions := by
        rw [h.mem_insertions, state_of_get? ht, hs]
        simp
      exact h.of_change (fun j => OrderedMap.get?_insert ..) (by simp [hkey, hs])
        h.insertions_nodup (nodup_enqueue h.deletions_nodup) (mem_queue_ite hi (by simp))
        (mem_enqueue_ite (by simp)) (h.slot_of_key_eq (by rw [keyOf, ht]; rfl))
    | removed =>
      simp only [hs] at hw
      rwa [← Except.ok.inj hw]
    | detached => exact absurd hs (h.not_detached oid t ht)

theorem trackWritten (h : w.Consistent) (x : Written) : (w.trackWritten x).Consistent := by
  unfold UnitOfWork.trackWritten
  split
  · exact h
  · exact h.track ..

theorem not_mem_deletions_of_written (h : w.Consistent) {written : List Written}
    (hw : w.Wrote written) {x : Written} (hx : x ∈ written) : x.oid ∉ w.deletions := by
  intro hmem
  rw [h.mem_deletions] at hmem
  have hlive := hw.live x hx
  simp [hmem] at hlive

theorem apply_eq (h : w.Consistent) {written : List Written} (hw : w.Wrote written)
    (deletes : List Oid) :
    w.apply written deletes = deletes.foldl UnitOfWork.detach (written.foldl UnitOfWork.trackWritten w) := by
  have hdel : ∀ x ∈ written, x.oid ∉ w.deletions :=
    fun x hx => h.not_mem_deletions_of_written hw hx
  have hnil : (written.foldl UnitOfWork.trackWritten w).insertions = [] := by
    rw [List.eq_nil_iff_forall_not_mem]
    intro oid hmem
    have hin := (insertions_foldl_trackWritten_sublist written).subset hmem
    obtain ⟨x, hx, rfl⟩ := hw.covers oid hin
    have hd : w.state x.oid ≠ .detached := by
      rw [(h.mem_insertions x.oid).mp hin]
      simp
    obtain ⟨t, ht, -⟩ := exists_of_state hd
    exact not_mem_insertions_foldl_trackWritten h.insertions_nodup hx (by simp [ht]) hmem
  have hfold := foldl_applyWritten_eq hdel w.insertions
  rw [UnitOfWork.apply, show written.foldl applyWritten w = _ from hfold, ← hnil]

section Apply

variable {j : Oid} {written : List Written} (h : w.Consistent) (hw : w.Wrote written)

include h hw

theorem get?_tracked_apply_of_written {x : Written} (hx : x ∈ written) :
    (w.apply written w.deletions).tracked.get? x.oid = (w.tracked.get? x.oid).map x.record := by
  rw [h.apply_eq hw, get?_tracked_foldl_detach, if_neg (h.not_mem_deletions_of_written hw hx),
    get?_tracked_foldl_trackWritten_of_mem hw.nodup hx]

theorem get?_tracked_apply_of_kept (hj : j ∉ written.map Written.oid) (hd : j ∉ w.deletions) :
    (w.apply written w.deletions).tracked.get? j = w.tracked.get? j := by
  rw [h.apply_eq hw, get?_tracked_foldl_detach, if_neg hd,
    get?_tracked_foldl_trackWritten_of_not_mem hj]

theorem get?_tracked_apply_of_deleted (hd : j ∈ w.deletions) :
    (w.apply written w.deletions).tracked.get? j = none := by
  rw [h.apply_eq hw, get?_tracked_foldl_detach, if_pos hd]

end Apply

theorem foldl_trackWritten (h : w.Consistent) (written : List Written) :
    (written.foldl UnitOfWork.trackWritten w).Consistent := by
  induction written generalizing w with
  | nil => exact h
  | cons x written ih => exact ih (h.trackWritten x)

theorem foldl_detach (h : w.Consistent) (deletes : List Oid) :
    (deletes.foldl UnitOfWork.detach w).Consistent := by
  induction deletes generalizing w with
  | nil => exact h
  | cons oid deletes ih => exact ih (h.detach oid)

theorem apply (h : w.Consistent) {written : List Written} (hw : w.Wrote written)
    (deletes : List Oid) : (w.apply written deletes).Consistent := by
  rw [h.apply_eq hw]
  exact (h.foldl_trackWritten written).foldl_detach deletes

end Consistent
end Persistence.UnitOfWork
