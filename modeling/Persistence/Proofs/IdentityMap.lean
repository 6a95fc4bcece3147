import Persistence.Proofs.Bookkeeping

/-!
The identity map as a map of instances: the slot of a recorded key belongs to the instance that
records it, so no two instances record one key.

This is kept as long as no instance claims a key that another one records. `find` looks before it
claims. A refresh does not, and neither does a flush, except that an insert looks at the keys of
instances written earlier. `Operation.Clashes` names these cases, and nothing else breaks the map.
-/

namespace Persistence

open Schema (Metadata Snapshot)

namespace UnitOfWork

variable {w : UnitOfWork} {oid j : Oid} {key k : IdentityKey}

/-- An instance records a key and its slot belongs to it. -/
def Owns (w : UnitOfWork) (oid : Oid) (key : IdentityKey) : Prop :=
  w.keyOf oid = some key ∧ w.slots.get? key = some oid

/-- Every recorded key is owned by the instance that records it. -/
def Unique (w : UnitOfWork) : Prop := ∀ oid key, w.keyOf oid = some key → w.Owns oid key

/-- Two instances record one key. -/
def Shared (w : UnitOfWork) : Prop :=
  ∃ i j key, i ≠ j ∧ w.keyOf i = some key ∧ w.keyOf j = some key

theorem Unique.not_shared (h : w.Unique) : ¬ w.Shared := by
  rintro ⟨i, j, key, hij, hi, hj⟩
  have hslot := (h i key hi).2
  rw [(h j key hj).2] at hslot
  exact hij (Option.some.inj hslot).symm

theorem unique_empty : empty.Unique := fun oid key h => by simp [empty, keyOf] at h

theorem owns_track (m : Metadata) (key : IdentityKey) (s : Snapshot) :
    (w.track oid m key s).Owns oid key := by
  constructor
  · rw [keyOf_track, if_pos rfl]
  · rw [get?_slots_track, if_pos rfl]

theorem Owns.track (h : w.Owns j k) (hj : oid ≠ j) (hk : key ≠ k) (m : Metadata) (s : Snapshot) :
    (w.track oid m key s).Owns j k := by
  constructor
  · rw [keyOf_track, if_neg hj]
    exact h.1
  · have hslot : ¬ (w.keyOf oid = some k ∧ w.slots.get? k = some oid) := by
      rw [h.2]
      exact fun hoid => hj (Option.some.inj hoid.2).symm
    rw [get?_slots_track, if_neg hk, if_neg hslot]
    exact h.2

theorem Owns.detach (h : w.Owns j k) (hj : oid ≠ j) : (w.detach oid).Owns j k := by
  constructor
  · rw [keyOf_detach, if_neg hj]
    exact h.1
  · have hslot : ¬ (w.keyOf oid = some k ∧ w.slots.get? k = some oid) := by
      rw [h.2]
      exact fun hoid => hj (Option.some.inj hoid.2).symm
    rw [get?_slots_detach, if_neg hslot]
    exact h.2

theorem Unique.detach (h : w.Unique) (oid : Oid) : (w.detach oid).Unique := by
  intro j k hkey
  rw [keyOf_detach] at hkey
  split at hkey
  · simp at hkey
  · rename_i hj
    exact (h j k hkey).detach hj

theorem Unique.track (h : w.Unique) (hfree : ∀ j, j ≠ oid → w.keyOf j ≠ some key) (m : Metadata)
    (s : Snapshot) : (w.track oid m key s).Unique := by
  intro j k hkey
  rw [keyOf_track] at hkey
  split at hkey
  · rename_i hj
    rw [← hj, ← Option.some.inj hkey]
    exact owns_track m key s
  · rename_i hj
    have hk : key ≠ k := fun hk => hfree j (Ne.symm hj) (hk ▸ hkey)
    exact (h j k hkey).track hj hk m s

theorem Unique.persist (h : w.Unique) (oid : Oid) (m : Metadata) : (w.persist oid m).Unique := by
  intro j k hkey
  rw [keyOf_persist] at hkey
  refine ⟨by rwa [keyOf_persist], ?_⟩
  rw [slots_persist]
  exact (h j k hkey).2

theorem keyOf_remove {w' : UnitOfWork} (hw : w.remove oid = .ok w') :
    w'.keyOf j = w.keyOf j ∨ w'.keyOf j = none := by
  unfold UnitOfWork.remove at hw
  cases ht : w.tracked.get? oid with
  | none => simp [ht] at hw
  | some t =>
    simp only [ht] at hw
    cases hs : t.state with
    | new =>
      simp only [hs] at hw
      rw [← Except.ok.inj hw, keyOf, OrderedMap.get?_erase]
      split
      · exact .inr rfl
      · exact .inl rfl
    | managed =>
      simp only [hs] at hw
      rw [← Except.ok.inj hw, keyOf, OrderedMap.get?_insert]
      split
      · rename_i hj
        rw [← hj, keyOf_of_get? ht]
        exact .inl rfl
      · exact .inl rfl
    | removed =>
      simp only [hs] at hw
      rw [← Except.ok.inj hw]
      exact .inl rfl
    | detached =>
      simp only [hs] at hw
      rw [← Except.ok.inj hw]
      exact .inl rfl

theorem Unique.remove (h : w.Unique) {w' : UnitOfWork} (hw : w.remove oid = .ok w') :
    w'.Unique := by
  intro j k hkey
  have hkey' : w.keyOf j = some k := by
    obtain hj | hj := keyOf_remove (j := j) hw
    · rwa [← hj]
    · simp [hj] at hkey
  refine ⟨hkey, ?_⟩
  rw [slots_remove hw]
  exact (h j k hkey').2

theorem isSome_get?_foldl_trackWritten (written : List Written) :
    ((written.foldl trackWritten w).tracked.get? j).isSome = (w.tracked.get? j).isSome := by
  induction written generalizing w with
  | nil => rfl
  | cons x written ih =>
    rw [List.foldl_cons, ih, get?_tracked_trackWritten]
    split
    · rw [Option.isSome_map]
    · rfl

theorem Owns.trackWritten (h : w.Owns j k) {x : Written} (hj : x.oid ≠ j) (hk : x.key ≠ k) :
    (w.trackWritten x).Owns j k := by
  unfold UnitOfWork.trackWritten
  split
  · exact h
  · exact h.track hj hk ..

theorem Owns.foldl_trackWritten (h : w.Owns j k) {written : List Written}
    (hother : ∀ x ∈ written, x.oid ≠ j ∧ x.key ≠ k) :
    (written.foldl UnitOfWork.trackWritten w).Owns j k := by
  induction written generalizing w with
  | nil => exact h
  | cons x written ih =>
    obtain ⟨hj, hk⟩ := hother x List.mem_cons_self
    exact ih (h.trackWritten hj hk) fun y hy => hother y (List.mem_cons_of_mem x hy)

theorem Owns.foldl_detach (h : w.Owns j k) {deletes : List Oid} (hj : j ∉ deletes) :
    (deletes.foldl UnitOfWork.detach w).Owns j k := by
  induction deletes generalizing w with
  | nil => exact h
  | cons oid deletes ih =>
    have hne : oid ≠ j := fun heq => hj (heq ▸ List.mem_cons_self)
    exact ih (h.detach hne) fun hmem => hj (List.mem_cons_of_mem oid hmem)

theorem keyOf_foldl_trackWritten_of_not_mem {written : List Written}
    (hj : j ∉ written.map Written.oid) : (written.foldl trackWritten w).keyOf j = w.keyOf j := by
  rw [keyOf, get?_tracked_foldl_trackWritten_of_not_mem hj, keyOf]

theorem keyOf_foldl_detach (deletes : List Oid) :
    (deletes.foldl UnitOfWork.detach w).keyOf j = if j ∈ deletes then none else w.keyOf j := by
  rw [keyOf, get?_tracked_foldl_detach, keyOf]
  split <;> rfl

/-- After a flush two instances would record one key: both are written, or one is written under
the key of another that is neither written nor deleted. -/
def Collides (w : UnitOfWork) (written : List Written) : Prop :=
  (∃ x ∈ written, ∃ y ∈ written, x.oid ≠ y.oid ∧ x.key = y.key) ∨
    ∃ x ∈ written, ∃ j, j ∉ written.map Written.oid ∧ j ∉ w.deletions ∧ w.keyOf j = some x.key

section Apply

variable {written : List Written} (hc : w.Consistent) (hw : w.Wrote written)

include hc hw

theorem keyOf_apply_of_written {x : Written} (hx : x ∈ written) :
    (w.apply written w.deletions).keyOf x.oid = some x.key := by
  have hs : w.state x.oid ≠ .detached := by
    have hlive := hw.live x hx
    intro hs
    simp [hs] at hlive
  obtain ⟨t, ht, -⟩ := exists_of_state hs
  rw [keyOf, hc.get?_tracked_apply_of_written hw hx, ht]
  rfl

theorem keyOf_apply_of_kept (hj : j ∉ written.map Written.oid) (hd : j ∉ w.deletions) :
    (w.apply written w.deletions).keyOf j = w.keyOf j := by
  rw [keyOf, hc.get?_tracked_apply_of_kept hw hj hd, keyOf]

theorem Unique.apply (h : w.Unique) (hfree : ¬ w.Collides written) :
    (w.apply written w.deletions).Unique := by
  intro j k hkey
  rw [Collides, not_or] at hfree
  rw [hc.apply_eq hw] at hkey ⊢
  rw [keyOf_foldl_detach] at hkey
  split at hkey
  · simp at hkey
  rename_i hd
  refine Owns.foldl_detach ?_ hd
  by_cases hj : j ∈ written.map Written.oid
  · -- the instance owns its key from the moment it is tracked under it
    obtain ⟨x, hx, rfl⟩ := List.mem_map.mp hj
    have hk := keyOf_apply_of_written hc hw hx
    rw [hc.apply_eq hw, keyOf_foldl_detach, if_neg hd, hkey] at hk
    obtain rfl := Option.some.inj hk
    obtain ⟨t, ht, -⟩ := exists_of_keyOf hkey
    have ht : (w.tracked.get? x.oid).isSome := by
      rw [← isSome_get?_foldl_trackWritten written, ht]
      rfl
    obtain ⟨before, after, hsplit⟩ := List.append_of_mem hx
    have hn := hw.nodup
    rw [hsplit, List.map_append, List.map_cons, List.nodup_append, List.nodup_cons] at hn
    rw [hsplit, List.foldl_append, List.foldl_cons]
    refine Owns.foldl_trackWritten ?_ fun y hy => ?_
    · rw [← isSome_get?_foldl_trackWritten before] at ht
      obtain ⟨t, ht⟩ := Option.isSome_iff_exists.mp ht
      rw [UnitOfWork.trackWritten, ht]
      exact owns_track ..
    · have hne : y.oid ≠ x.oid := fun heq => hn.2.1.1 (heq ▸ List.mem_map_of_mem hy)
      have hy : y ∈ written := by
        rw [hsplit]
        exact List.mem_append_right _ (List.mem_cons_of_mem _ hy)
      exact ⟨hne, fun heq => hfree.1 ⟨y, hy, x, hx, hne, heq⟩⟩
  · rw [keyOf_foldl_trackWritten_of_not_mem hj] at hkey
    refine (h j k hkey).foldl_trackWritten fun x hx => ?_
    have hne : x.oid ≠ j := fun heq => hj (heq ▸ List.mem_map_of_mem hx)
    exact ⟨hne, fun heq => hfree.2 ⟨x, hx, j, hj, hd, heq ▸ hkey⟩⟩

theorem Collides.shared (h : w.Collides written) : (w.apply written w.deletions).Shared := by
  obtain ⟨x, hx, y, hy, hne, hkey⟩ | ⟨x, hx, j, hj, hd, hkey⟩ := h
  · refine ⟨x.oid, y.oid, x.key, hne, keyOf_apply_of_written hc hw hx, ?_⟩
    rw [hkey]
    exact keyOf_apply_of_written hc hw hy
  · have hne : x.oid ≠ j := fun heq => hj (heq ▸ List.mem_map_of_mem hx)
    refine ⟨x.oid, j, x.key, hne, keyOf_apply_of_written hc hw hx, ?_⟩
    rw [keyOf_apply_of_kept hc hw hj hd]
    exact hkey

end Apply

end UnitOfWork

namespace Manager

variable {σ : Type} [Connection σ] {m : Manager σ}

/-- An operation claims a key for an instance although another one records it. -/
def Operation.Clashes : Operation → Manager σ → Prop
  | refresh oid, m => (∃ t, (Manager.refresh oid).run m = (.ok ⟨⟩, t)) ∧
      ∃ key j, m.Carries oid key ∧ j ≠ oid ∧ m.work.keyOf j = some key
  | flush, m => (∃ t, Manager.flush.run m = (.ok ⟨⟩, t)) ∧
      ∃ written, m.work.Writes m.toEnvironment written ∧ m.work.Collides written
  | _, _ => False

def noClash (op : Operation) (m : Manager σ) : Prop := ¬ op.Clashes m

theorem Effect.unique {op : Operation} {w : UnitOfWork} (h : Effect m op w)
    (hc : m.work.Consistent) (hu : m.work.Unique) (hop : ¬ op.Clashes m) : w.Unique := by
  cases h with
  | unchanged => exact hu
  | @found type id oid md key values hfree =>
    refine hu.track (fun j hj hkey => ?_) md values
    -- the instance that records the key would have been found
    obtain ⟨t, ht, -⟩ := UnitOfWork.exists_of_keyOf hkey
    have hfound : m.work.find? key = some j := by
      simp [UnitOfWork.find?, (hu j key hkey).2, OrderedMap.contains, ht]
    simp [hfound] at hfree
  | persisted => exact hu.persist _ _
  | removed hw => exact hu.remove hw
  | @refreshed oid md key values t hrun hcarries =>
    refine (hu.detach oid).track (fun j hj hkey => ?_) md values
    rw [UnitOfWork.keyOf_detach, if_neg (Ne.symm hj)] at hkey
    exact hop ⟨⟨t, hrun⟩, key, j, hcarries, hj, hkey⟩
  | lost => exact hu.detach _
  | detached => exact hu.detach _
  | cleared => exact UnitOfWork.unique_empty
  | @flushed written t hrun hw =>
    exact hu.apply hc (hw.wrote hc) fun hcol => hop ⟨⟨t, hrun⟩, written, hw, hcol⟩

theorem kept_unique : Kept (σ := σ) noClash fun m => m.work.Consistent ∧ m.work.Unique where
  operation op m hop hm :=
    ⟨(effect op m).1.consistent hm.1, (effect op m).1.unique hm.1 hm.2 hop⟩
  begin _ hm := hm
  commit _ hm := hm
  rollback _ hm := hm
  restore _ _ hsaved _ := hsaved

theorem Operation.Clashes.shared {op : Operation} (h : op.Clashes m) (hc : m.work.Consistent) :
    (op.after m).work.Shared := by
  cases op with
  | refresh oid =>
    obtain ⟨⟨t, hrun⟩, key, j, hcarries, hj, hkey⟩ := h
    obtain ⟨-, md, key', values, hcarries', -, hw⟩ := (post_refresh oid m).of_run_ok hrun
    obtain rfl := hcarries.unique hcarries'
    have hafter : ((Operation.refresh oid).after m).work =
        (m.work.detach oid).track oid md key values := by
      rw [Operation.after, show ExceptT.run (Operation.refresh oid).run m = _ from hrun]
      exact hw
    rw [hafter]
    refine ⟨oid, j, key, Ne.symm hj, ?_, ?_⟩
    · rw [UnitOfWork.keyOf_track, if_pos rfl]
    · rw [UnitOfWork.keyOf_track, if_neg (Ne.symm hj), UnitOfWork.keyOf_detach,
        if_neg (Ne.symm hj)]
      exact hkey
  | flush =>
    obtain ⟨⟨t, hrun⟩, written, hw, hcol⟩ := h
    have hafter : (Operation.flush.after m).work = m.work.apply written m.work.deletions := by
      rw [Operation.after, show ExceptT.run Operation.flush.run m = _ from hrun]
      obtain ⟨-, hnot⟩ | ⟨written', hw', ht⟩ := (post_flush m).of_run_ok hrun
      · exact absurd ⟨written, hw⟩ hnot
      · rw [hw.unique hw']
        exact ht
    rw [hafter]
    exact hcol.shared hc (hw.wrote hc)
  | _ => exact h.elim

/-- As long as no operation claims a key that another instance records, every recorded key is
owned by the one instance that records it. The first operation that does leaves two instances with
one key. -/
theorem unique_iff_no_clash (h : Reachable noClash m) :
    m.work.Unique ∧ ∀ op : Operation, (op.after m).work.Shared ↔ op.Clashes m := by
  have hm := kept_unique.reachable (fun o heap connection m hbuild => by
    rw [(build_start hbuild).1]
    exact ⟨UnitOfWork.consistent_empty, UnitOfWork.unique_empty⟩) h
  refine ⟨hm.2, fun op => ⟨fun hshared => ?_, fun hop => hop.shared hm.1⟩⟩
  refine Classical.byContradiction fun hop => ?_
  exact ((effect op m).1.unique hm.1 hm.2 hop).not_shared hshared

open Sample in
def doubled : Manager Scripted :=
  let start := manager [] ⟨[[userRow (.int 1) "Ann"], [userRow (.int 1) "Ann"]], false⟩
  (Operation.edit (heap [userObject (some 1) "Ann", userObject (some 1) "Bob"])).after
    ((Operation.find user (.scalar (.int 1))).after start)

theorem reachable_doubled {allowed : Operation → Manager Sample.Scripted → Prop}
    (hfind : ∀ type id m, allowed (.find type id) m) (hedit : ∀ heap m, allowed (.edit heap) m) :
    Reachable allowed doubled := by
  have built : Reachable allowed (Sample.manager []
      (Sample.Scripted.mk [[Sample.userRow (.int 1) "Ann"], [Sample.userRow (.int 1) "Ann"]] false)) :=
    .built (Sample.build_manager ..)
  exact built.run (((Runs.done _).operation _ (hfind ..)).operation _ (hedit ..))

theorem shared_doubled : ((Operation.refresh ⟨1⟩).after doubled).work.Shared := by
  refine ⟨⟨0⟩, ⟨1⟩, ⟨"User", [("id", .int 1)]⟩, by decide, ?_, ?_⟩
  · decide +kernel
  · decide +kernel

theorem unique_doubled :
    doubled.work.Unique ∧ (Operation.refresh ⟨1⟩).Clashes doubled := by
  have h := unique_iff_no_clash (reachable_doubled (fun _ _ _ => id) fun _ _ => id)
  exact ⟨h.1, (h.2 _).mp shared_doubled⟩

/-- Two managed instances can record one key. -/
theorem not_unique_of_reachable :
    ¬ ∀ m : Manager Sample.Scripted, Reachable anyOperation m → m.work.Unique ∧ ¬ m.work.Shared := by
  intro h
  have hreach : Reachable anyOperation doubled :=
    reachable_doubled (fun _ _ _ => trivial) fun _ _ => trivial
  exact (h _ (hreach.run ((Runs.done _).operation (.refresh ⟨1⟩) trivial))).2 shared_doubled

end Manager
end Persistence
