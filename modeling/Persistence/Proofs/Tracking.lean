import Persistence.UnitOfWork.Flush

/-!
What each transition of a unit of work does to the state, the key and the slot of every instance.
A flush is shown to do to the unit of work what tracking the written instances one after the other
and then detaching the deleted ones would do.
-/

namespace Persistence

open Schema (Metadata Snapshot)

theorem mem_enqueue {oid j : Oid} {queue : List Oid} :
    j ∈ enqueue oid queue ↔ j = oid ∨ j ∈ queue := by
  unfold enqueue
  split
  · rename_i h
    constructor
    · exact Or.inr
    · rintro (rfl | hj)
      · exact h
      · exact hj
  · simp [or_comm]

theorem nodup_enqueue {oid : Oid} {queue : List Oid} (h : queue.Nodup) :
    (enqueue oid queue).Nodup := by
  unfold enqueue
  split
  · exact h
  · rename_i hoid
    rw [List.nodup_append]
    exact ⟨h, by simp, fun a ha b hb hab => by simp_all⟩

def Written.record (x : Written) (t : Tracked) : Tracked :=
  ⟨t.metadata, .managed, x.snapshot, some x.key⟩

namespace UnitOfWork

variable {w : UnitOfWork} {oid j : Oid} {t : Tracked}

/-- The key that a tracked instance records. -/
def keyOf (w : UnitOfWork) (oid : Oid) : Option IdentityKey :=
  (w.tracked.get? oid).bind Tracked.key

theorem state_of_get? (h : w.tracked.get? oid = some t) : w.state oid = t.state := by
  rw [state, h]

theorem keyOf_of_get? (h : w.tracked.get? oid = some t) : w.keyOf oid = t.key := by
  rw [keyOf, h]
  rfl

theorem exists_of_keyOf {key : IdentityKey} (h : w.keyOf oid = some key) :
    ∃ t, w.tracked.get? oid = some t ∧ t.key = some key := Option.bind_eq_some_iff.mp h

theorem exists_of_state (h : w.state oid ≠ .detached) :
    ∃ t, w.tracked.get? oid = some t ∧ t.state = w.state oid := by
  unfold state at h ⊢
  cases ht : w.tracked.get? oid with
  | none => simp [ht] at h
  | some t => exact ⟨t, rfl, rfl⟩

theorem get?_freeSlot (key k : IdentityKey) :
    (w.freeSlot key oid).get? k =
      if key = k ∧ w.slots.get? k = some oid then none else w.slots.get? k := by
  unfold freeSlot
  split <;> rename_i h
  · rw [OrderedMap.get?_erase]
    by_cases hk : key = k
    · subst hk
      simp [h]
    · simp [hk]
  · by_cases hk : key = k
    · subst hk
      simp [h]
    · simp [hk]

theorem get?_moveSlot (former : Option IdentityKey) (key k : IdentityKey) :
    (w.moveSlot former key oid).get? k =
      if key = k then some oid
      else if former = some k ∧ w.slots.get? k = some oid then none else w.slots.get? k := by
  unfold moveSlot
  rw [OrderedMap.get?_insert]
  by_cases hk : key = k
  · simp [hk]
  · simp only [hk, if_false]
    cases former with
    | none => simp
    | some old =>
      by_cases hold : old = key
      · have hne : ¬ old = k := fun h => hk (hold.symm.trans h)
        simp [hold, hk]
      · simp [hold, get?_freeSlot]

@[simp] theorem get?_tracked_track (m : Metadata) (key : IdentityKey) (s : Snapshot) :
    (w.track oid m key s).tracked.get? j =
      if oid = j then some ⟨m, .managed, s, some key⟩ else w.tracked.get? j :=
  OrderedMap.get?_insert ..

@[simp] theorem keyOf_track (m : Metadata) (key : IdentityKey) (s : Snapshot) :
    (w.track oid m key s).keyOf j = if oid = j then some key else w.keyOf j := by
  unfold keyOf
  rw [get?_tracked_track]
  split <;> rfl

theorem get?_slots_track (m : Metadata) (key k : IdentityKey) (s : Snapshot) :
    (w.track oid m key s).slots.get? k =
      if key = k then some oid
      else if w.keyOf oid = some k ∧ w.slots.get? k = some oid then none else w.slots.get? k :=
  get?_moveSlot ..

@[simp] theorem get?_tracked_detach :
    (w.detach oid).tracked.get? j = if oid = j then none else w.tracked.get? j := by
  unfold detach
  split <;> rename_i h
  · by_cases hj : oid = j
    · simp [← hj, h]
    · simp [hj]
  · exact OrderedMap.get?_erase ..

@[simp] theorem keyOf_detach : (w.detach oid).keyOf j = if oid = j then none else w.keyOf j := by
  unfold keyOf
  rw [get?_tracked_detach]
  split <;> rfl

theorem get?_slots_detach (k : IdentityKey) :
    (w.detach oid).slots.get? k =
      if w.keyOf oid = some k ∧ w.slots.get? k = some oid then none else w.slots.get? k := by
  unfold detach keyOf
  cases w.tracked.get? oid with
  | none => simp
  | some t =>
    cases hk : t.key with
    | none => simp [hk]
    | some key => simp [hk, get?_freeSlot]

theorem keyOf_persist (m : Metadata) : (w.persist oid m).keyOf j = w.keyOf j := by
  unfold persist keyOf
  cases h : w.tracked.get? oid with
  | none =>
    rw [OrderedMap.get?_insert]
    split
    · rename_i hj
      rw [← hj, h]
      rfl
    · rfl
  | some t =>
    dsimp only
    split
    · rw [OrderedMap.get?_insert]
      split
      · rename_i hj
        rw [← hj, h]
        rfl
      · rfl
    · rfl

theorem slots_persist (m : Metadata) : (w.persist oid m).slots = w.slots := by
  unfold persist
  split
  · split <;> rfl
  · rfl

theorem slots_remove {w' : UnitOfWork} (h : w.remove oid = .ok w') : w'.slots = w.slots := by
  unfold remove at h
  split at h
  · simp at h
  · split at h <;> · rw [← Except.ok.inj h]

def Retains (w w' : UnitOfWork) : Prop :=
  ∀ oid t', w'.tracked.get? oid = some t' → t'.state ≠ .new →
    ∃ t, w.tracked.get? oid = some t ∧ t.state ≠ .new ∧ t.metadata = t'.metadata ∧
      t.snapshot = t'.snapshot ∧ t.key = t'.key

theorem Retains.refl (w : UnitOfWork) : w.Retains w := fun _ t ht hs => ⟨t, ht, hs, rfl, rfl, rfl⟩

theorem retains_empty : w.Retains empty := fun _ _ ht => by simp [empty] at ht

theorem retains_persist (oid : Oid) (m : Metadata) : w.Retains (w.persist oid m) := by
  intro j t' ht' hs'
  unfold persist at ht'
  cases ht : w.tracked.get? oid with
  | none =>
    simp only [ht] at ht'
    rw [OrderedMap.get?_insert] at ht'
    split at ht'
    · rw [← Option.some.inj ht'] at hs'
      simp at hs'
    · exact ⟨t', ht', hs', rfl, rfl, rfl⟩
  | some t =>
    simp only [ht] at ht'
    split at ht'
    · rename_i hremoved
      rw [OrderedMap.get?_insert] at ht'
      split at ht'
      · rename_i hj
        rw [← Option.some.inj ht', ← hj]
        exact ⟨t, ht, by simp [hremoved], rfl, rfl, rfl⟩
      · exact ⟨t', ht', hs', rfl, rfl, rfl⟩
    · exact ⟨t', ht', hs', rfl, rfl, rfl⟩

theorem exists_get?_persist (w : UnitOfWork) (oid : Oid) (m : Metadata) :
    ∃ t, (w.persist oid m).tracked.get? oid = some t := by
  unfold persist
  cases ht : w.tracked.get? oid with
  | none => exact ⟨_, by rw [OrderedMap.get?_insert, if_pos rfl]⟩
  | some t =>
    dsimp only
    split
    · exact ⟨_, by rw [OrderedMap.get?_insert, if_pos rfl]⟩
    · exact ⟨t, ht⟩

theorem retains_remove {w' : UnitOfWork} (hw : w.remove oid = .ok w') : w.Retains w' := by
  intro j t' ht' hs'
  unfold remove at hw
  cases ht : w.tracked.get? oid with
  | none => simp [ht] at hw
  | some t =>
    simp only [ht] at hw
    cases hs : t.state with
    | new =>
      simp only [hs] at hw
      rw [← Except.ok.inj hw, OrderedMap.get?_erase] at ht'
      split at ht'
      · simp at ht'
      · exact ⟨t', ht', hs', rfl, rfl, rfl⟩
    | managed =>
      simp only [hs] at hw
      rw [← Except.ok.inj hw, OrderedMap.get?_insert] at ht'
      split at ht'
      · rename_i hj
        rw [← Option.some.inj ht', ← hj]
        exact ⟨t, ht, by simp [hs], rfl, rfl, rfl⟩
      · exact ⟨t', ht', hs', rfl, rfl, rfl⟩
    | removed | detached =>
      simp only [hs] at hw
      rw [← Except.ok.inj hw] at ht'
      exact ⟨t', ht', hs', rfl, rfl, rfl⟩

theorem retains_detach (oid : Oid) : w.Retains (w.detach oid) := by
  intro j t' ht' hs'
  rw [get?_tracked_detach] at ht'
  split at ht'
  · simp at ht'
  · exact ⟨t', ht', hs', rfl, rfl, rfl⟩

def trackWritten (w : UnitOfWork) (x : Written) : UnitOfWork :=
  match w.tracked.get? x.oid with
  | none => w
  | some t => w.track x.oid t.metadata x.key x.snapshot

theorem get?_tracked_trackWritten (x : Written) :
    (w.trackWritten x).tracked.get? j =
      if x.oid = j then (w.tracked.get? j).map x.record else w.tracked.get? j := by
  unfold trackWritten
  cases ht : w.tracked.get? x.oid with
  | none =>
    by_cases hj : x.oid = j
    · simp [← hj, ht]
    · simp [hj]
  | some t =>
    by_cases hj : x.oid = j
    · simp [← hj, ht, Written.record]
    · simp [hj]

theorem get?_tracked_foldl_trackWritten_of_not_mem {written : List Written}
    (hj : j ∉ written.map Written.oid) :
    (written.foldl trackWritten w).tracked.get? j = w.tracked.get? j := by
  induction written generalizing w with
  | nil => rfl
  | cons x written ih =>
    rw [List.map_cons, List.mem_cons, not_or] at hj
    rw [List.foldl_cons, ih hj.2, get?_tracked_trackWritten, if_neg (Ne.symm hj.1)]

theorem get?_tracked_foldl_trackWritten_of_mem {written : List Written} {x : Written}
    (hn : (written.map Written.oid).Nodup) (hx : x ∈ written) :
    (written.foldl trackWritten w).tracked.get? x.oid = (w.tracked.get? x.oid).map x.record := by
  induction written generalizing w with
  | nil => simp at hx
  | cons y written ih =>
    rw [List.map_cons, List.nodup_cons] at hn
    rw [List.foldl_cons]
    rcases List.mem_cons.mp hx with rfl | hx
    · rw [get?_tracked_foldl_trackWritten_of_not_mem hn.1, get?_tracked_trackWritten, if_pos rfl]
    · have hne : y.oid ≠ x.oid := fun heq => hn.1 (heq ▸ List.mem_map_of_mem hx)
      rw [ih hn.2 hx, get?_tracked_trackWritten, if_neg hne]

theorem get?_tracked_foldl_detach (deletes : List Oid) :
    (deletes.foldl detach w).tracked.get? j = if j ∈ deletes then none else w.tracked.get? j := by
  induction deletes generalizing w with
  | nil => simp
  | cons oid deletes ih =>
    rw [List.foldl_cons, ih, get?_tracked_detach]
    by_cases hj : oid = j
    · simp [hj]
    · simp [hj, Ne.symm hj]

theorem deletions_trackWritten {x : Written} (h : x.oid ∉ w.deletions) :
    (w.trackWritten x).deletions = w.deletions := by
  unfold trackWritten
  split
  · rfl
  · exact List.erase_of_not_mem h

theorem insertions_trackWritten_sublist (x : Written) :
    (w.trackWritten x).insertions.Sublist w.insertions := by
  unfold trackWritten
  split
  · exact List.Sublist.refl _
  · exact List.erase_sublist

theorem insertions_foldl_trackWritten_sublist (written : List Written) :
    (written.foldl trackWritten w).insertions.Sublist w.insertions := by
  induction written generalizing w with
  | nil => exact List.Sublist.refl _
  | cons x written ih => exact ih.trans (insertions_trackWritten_sublist x)

theorem not_mem_insertions_foldl_trackWritten {written : List Written} {x : Written}
    (hn : w.insertions.Nodup) (hx : x ∈ written) (ht : (w.tracked.get? x.oid).isSome) :
    x.oid ∉ (written.foldl trackWritten w).insertions := by
  induction written generalizing w with
  | nil => simp at hx
  | cons y written ih =>
    have hn' := (insertions_trackWritten_sublist y).nodup hn
    rw [List.foldl_cons]
    by_cases hy : x ∈ written
    · refine ih hn' hy ?_
      rw [get?_tracked_trackWritten]
      split <;> simpa using ht
    · obtain rfl : x = y := (List.mem_cons.mp hx).resolve_right hy
      intro hmem
      have hmem' := (insertions_foldl_trackWritten_sublist written).subset hmem
      obtain ⟨t, ht⟩ := Option.isSome_iff_exists.mp ht
      simp only [trackWritten, ht, track, hn.mem_erase_iff] at hmem'
      exact hmem'.1 rfl

theorem applyWritten_eq {x : Written} (h : x.oid ∉ w.deletions) (queue : List Oid) :
    applyWritten { w with insertions := queue } x =
      { w.trackWritten x with insertions := queue } := by
  unfold applyWritten trackWritten
  cases ht : w.tracked.get? x.oid with
  | none => rfl
  | some t =>
    simp only [track, ht, Option.bind_some, List.erase_of_not_mem h]
    rfl

theorem foldl_applyWritten_eq {written : List Written} (h : ∀ x ∈ written, x.oid ∉ w.deletions)
    (queue : List Oid) :
    written.foldl applyWritten { w with insertions := queue } =
      { written.foldl trackWritten w with insertions := queue } := by
  induction written generalizing w with
  | nil => rfl
  | cons x written ih =>
    have hx := h x List.mem_cons_self
    rw [List.foldl_cons, List.foldl_cons, applyWritten_eq hx]
    refine ih fun y hy => ?_
    rw [deletions_trackWritten hx]
    exact h y (List.mem_cons_of_mem _ hy)

structure Wrote (w : UnitOfWork) (written : List Written) : Prop where
  nodup : (written.map Written.oid).Nodup
  covers : ∀ oid ∈ w.insertions, ∃ x ∈ written, x.oid = oid
  live : ∀ x ∈ written, w.state x.oid = .new ∨ w.state x.oid = .managed
  keyed : ∀ x ∈ written, ∀ t, w.tracked.get? x.oid = some t →
    IdentityKey.ofSnapshot t.metadata x.snapshot = .ok x.key

end UnitOfWork
end Persistence
