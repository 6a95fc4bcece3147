import Persistence.Proofs.Histories
import Persistence.Proofs.Settled

/-!
The order of the queues. A history tells when an instance was scheduled and when it came to be
tracked. The queues of a unit of work and its tracked instances stand in the order of these times.
-/

namespace Persistence

namespace OrderedMap

variable {κ α : Type} [DecidableEq κ] {m : OrderedMap κ α} {k : κ}

theorem keys_erase (m : OrderedMap κ α) (k : κ) : (m.erase k).keys = m.keys.filter (· ≠ k) := by
  simp only [keys, erase, List.filter_map]
  rfl

theorem keys_insert_of_mem (v : α) (h : k ∈ m.keys) : (m.insert k v).keys = m.keys := by
  rw [keys_insert, if_pos h]

theorem keys_insert_of_not_mem (v : α) (h : k ∉ m.keys) : (m.insert k v).keys = m.keys ++ [k] := by
  rw [keys_insert, if_neg h]

end OrderedMap

namespace UnitOfWork

variable {w w' : UnitOfWork} {oid : Oid} {t : Tracked}

theorem mem_keys_iff : oid ∈ w.tracked.keys ↔ ∃ t, w.tracked.get? oid = some t := by
  rw [← OrderedMap.get?_isSome_iff, Option.isSome_iff_exists]

theorem mem_keys_of_get? (ht : w.tracked.get? oid = some t) : oid ∈ w.tracked.keys :=
  mem_keys_iff.mpr ⟨t, ht⟩

theorem not_mem_keys_of_get? (ht : w.tracked.get? oid = none) : oid ∉ w.tracked.keys := by
  rw [mem_keys_iff, ht]
  simp

theorem Consistent.mem_keys_iff (hw : w.Consistent) :
    oid ∈ w.tracked.keys ↔ w.state oid ≠ .detached := by
  constructor
  · intro hmem hs
    obtain ⟨t, ht⟩ := UnitOfWork.mem_keys_iff.mp hmem
    exact hw.not_detached oid t ht ((state_of_get? ht).symm.trans hs)
  · intro hs
    obtain ⟨t, ht, -⟩ := exists_of_state hs
    exact mem_keys_of_get? ht

structure Shrinks (w w' : UnitOfWork) : Prop where
  insertions : w'.insertions.Sublist w.insertions
  deletions : w'.deletions.Sublist w.deletions
  tracked : w'.tracked.keys.Sublist w.tracked.keys

namespace Shrinks

theorem refl (w : UnitOfWork) : w.Shrinks w := ⟨.refl _, .refl _, .refl _⟩

theorem trans {w'' : UnitOfWork} (h : w.Shrinks w') (h' : w'.Shrinks w'') : w.Shrinks w'' :=
  ⟨h'.insertions.trans h.insertions, h'.deletions.trans h.deletions, h'.tracked.trans h.tracked⟩

end Shrinks

theorem shrinks_empty (w : UnitOfWork) : w.Shrinks empty :=
  ⟨List.nil_sublist _, List.nil_sublist _, List.nil_sublist _⟩

theorem shrinks_detach (w : UnitOfWork) (oid : Oid) : w.Shrinks (w.detach oid) := by
  unfold detach
  split
  · exact .refl w
  · refine ⟨List.erase_sublist, List.erase_sublist, ?_⟩
    rw [OrderedMap.keys_erase]
    exact List.filter_sublist

theorem shrinks_foldl_detach (deletes : List Oid) (w : UnitOfWork) :
    w.Shrinks (deletes.foldl detach w) := by
  induction deletes generalizing w with
  | nil => exact .refl w
  | cons oid deletes ih => exact (w.shrinks_detach oid).trans (ih _)

theorem shrinks_applyWritten (w : UnitOfWork) (x : Written) : w.Shrinks (w.applyWritten x) := by
  unfold applyWritten
  cases ht : w.tracked.get? x.oid with
  | none => exact .refl w
  | some t =>
    refine ⟨.refl _, .refl _, ?_⟩
    rw [OrderedMap.keys_insert_of_mem _ (mem_keys_of_get? ht)]

theorem shrinks_foldl_applyWritten (written : List Written) (w : UnitOfWork) :
    w.Shrinks (written.foldl applyWritten w) := by
  induction written generalizing w with
  | nil => exact .refl w
  | cons x written ih => exact (w.shrinks_applyWritten x).trans (ih _)

theorem shrinks_apply (w : UnitOfWork) (written : List Written) (deletes : List Oid) :
    w.Shrinks (w.apply written deletes) := by
  have h := w.shrinks_foldl_applyWritten written
  have hnone : w.Shrinks { written.foldl applyWritten w with insertions := [] } :=
    ⟨List.nil_sublist _, h.deletions, h.tracked⟩
  exact hnone.trans (shrinks_foldl_detach deletes _)

theorem persist_arrives (hw : w.Consistent) (m : Schema.Metadata) (hs : w.state oid = .detached) :
    (w.persist oid m).insertions = w.insertions ++ [oid] ∧
      (w.persist oid m).deletions = w.deletions ∧
      (w.persist oid m).tracked.keys = w.tracked.keys ++ [oid] := by
  have hmem : oid ∉ w.tracked.keys := fun hmem => hw.mem_keys_iff.mp hmem hs
  have ht : w.tracked.get? oid = none := by
    rwa [← OrderedMap.get?_isSome_iff, Option.not_isSome_iff_eq_none] at hmem
  have hqueue : oid ∉ w.insertions := by
    rw [hw.mem_insertions, hs]
    simp
  simp only [persist, ht, enqueue, if_neg hqueue, true_and]
  exact OrderedMap.keys_insert_of_not_mem _ hmem

theorem shrinks_persist (m : Schema.Metadata) (hs : w.state oid ≠ .detached) :
    w.Shrinks (w.persist oid m) := by
  obtain ⟨t, ht, -⟩ := exists_of_state hs
  simp only [persist, ht]
  split
  · refine ⟨.refl _, List.erase_sublist, ?_⟩
    rw [OrderedMap.keys_insert_of_mem _ (mem_keys_of_get? ht)]
  · exact .refl w

theorem remove_arrives (hw : w.Consistent) (hr : w.remove oid = .ok w')
    (hs : w.state oid = .managed) :
    w'.insertions = w.insertions ∧ w'.deletions = w.deletions ++ [oid] ∧
      w'.tracked.keys = w.tracked.keys := by
  obtain ⟨t, ht, hst⟩ := exists_of_state (show w.state oid ≠ .detached by simp [hs])
  have hqueue : oid ∉ w.deletions := by
    rw [hw.mem_deletions, hs]
    simp
  simp only [remove, ht, hst, hs, enqueue, if_neg hqueue] at hr
  rw [← Except.ok.inj hr]
  exact ⟨rfl, rfl, OrderedMap.keys_insert_of_mem _ (mem_keys_of_get? ht)⟩

theorem shrinks_remove (hr : w.remove oid = .ok w') (hs : w.state oid ≠ .managed) :
    w.Shrinks w' := by
  cases ht : w.tracked.get? oid with
  | none => simp [remove, ht] at hr
  | some t =>
    rw [state_of_get? ht] at hs
    simp only [remove, ht] at hr
    cases hst : t.state with
    | managed => exact absurd hst hs
    | new =>
      simp only [hst] at hr
      rw [← Except.ok.inj hr]
      refine ⟨List.erase_sublist, .refl _, ?_⟩
      rw [OrderedMap.keys_erase]
      exact List.filter_sublist
    | removed | detached =>
      simp only [hst] at hr
      rw [← Except.ok.inj hr]
      exact .refl w

end UnitOfWork

namespace Manager

variable {σ : Type} [Connection σ] {m t : Manager σ} {steps : List (Operation × Manager σ)}
  {oid j : Oid} {op : Operation}

/-- The operation at place `n` of a history, counted from zero, is the last of a kind. -/
def LastAt (steps : List (Operation × Manager σ)) (happens : Operation → Manager σ → Prop)
    (n : Nat) : Prop :=
  ∃ before op m after, steps = before ++ (op, m) :: after ∧ before.length = n ∧ happens op m ∧
    ∀ e ∈ after, ¬ happens e.1 e.2

/-- To each instance of a queue something has happened, and they stand in the order in which it has
last happened to them. -/
structure InTurn (steps : List (Operation × Manager σ))
    (happens : Oid → Operation → Manager σ → Prop) (queue : List Oid) : Prop where
  happened : ∀ oid ∈ queue, ∃ n, LastAt steps (happens oid) n
  ordered : queue.Pairwise fun i j =>
    ∃ n k, LastAt steps (happens i) n ∧ LastAt steps (happens j) k ∧ n < k

/-- An operation schedules an instance for insert: it persists one that is not tracked. -/
def SchedulesInsert (oid : Oid) (op : Operation) (m : Manager σ) : Prop :=
  op = .persist oid ∧ m.state oid = .detached ∧ ∃ t, (persist oid).run m = (.ok ⟨⟩, t)

/-- An operation schedules an instance for delete: it removes one that is managed. -/
def SchedulesDelete (oid : Oid) (op : Operation) (m : Manager σ) : Prop :=
  op = .remove oid ∧ m.state oid = .managed ∧ ∃ t, (remove oid).run m = (.ok ⟨⟩, t)

/-- An operation starts to track an instance. A refresh detaches it and starts anew. -/
inductive StartsTracking : Oid → Operation → Manager σ → Prop
  | scheduled {oid : Oid} {op : Operation} {m : Manager σ} :
      SchedulesInsert oid op m → StartsTracking oid op m
  | found {oid : Oid} {type : EntityType} {id : Identifier} {m t : Manager σ} :
      (find type id).run m = (.ok (some oid), t) → m.state oid = .detached →
      StartsTracking oid (.find type id) m
  | refreshed {oid : Oid} {m t : Manager σ} :
      (refresh oid).run m = (.ok ⟨⟩, t) → StartsTracking oid (.refresh oid) m

/-- The queues are in the order of scheduling, and the tracked instances in that of tracking. -/
structure InOrder (steps : List (Operation × Manager σ)) (w : UnitOfWork) : Prop where
  insertions : InTurn steps SchedulesInsert w.insertions
  deletions : InTurn steps SchedulesDelete w.deletions
  tracked : InTurn steps StartsTracking w.tracked.keys

section Times

variable {happens : Operation → Manager σ → Prop} {n : Nat}

omit [Connection σ] in
theorem LastAt.lt (h : LastAt steps happens n) : n < steps.length := by
  obtain ⟨before, op, m, after, rfl, rfl, -, -⟩ := h
  simp

omit [Connection σ] in
theorem LastAt.concat (h : LastAt steps happens n) (hop : ¬ happens op m) :
    LastAt (steps ++ [(op, m)]) happens n := by
  obtain ⟨before, op', m', after, rfl, hlength, hhappens, hafter⟩ := h
  refine ⟨before, op', m', after ++ [(op, m)], by simp, hlength, hhappens, fun e he => ?_⟩
  rcases List.mem_append.mp he with he | he
  · exact hafter e he
  · rw [List.mem_singleton.mp he]
    exact hop

omit [Connection σ] in
theorem lastAt_concat (hop : happens op m) :
    LastAt (steps ++ [(op, m)]) happens steps.length := ⟨steps, op, m, [], rfl, rfl, hop, by simp⟩

end Times

namespace InTurn

variable {happens : Oid → Operation → Manager σ → Prop} {queue queue' : List Oid}

omit [Connection σ] in
theorem nil : InTurn steps happens [] := ⟨by simp, .nil⟩

omit [Connection σ] in
theorem shrink (h : InTurn steps happens queue) (hqueue : queue'.Sublist queue)
    (hop : ∀ j ∈ queue', ¬ happens j op m) : InTurn (steps ++ [(op, m)]) happens queue' where
  happened j hj := by
    obtain ⟨n, hn⟩ := h.happened j (hqueue.subset hj)
    exact ⟨n, hn.concat (hop j hj)⟩
  ordered := (h.ordered.sublist hqueue).imp_of_mem fun hi hj ⟨n, k, hn, hk, hlt⟩ =>
    ⟨n, k, hn.concat (hop _ hi), hk.concat (hop _ hj), hlt⟩

omit [Connection σ] in
theorem arrive (h : InTurn steps happens queue) (hqueue : queue'.Sublist queue)
    (hop : ∀ j ∈ queue', ¬ happens j op m) (hoid : happens oid op m) :
    InTurn (steps ++ [(op, m)]) happens (queue' ++ [oid]) := by
  have hrest := h.shrink hqueue hop
  refine ⟨fun j hj => ?_, List.pairwise_append.mpr ⟨hrest.ordered, by simp, fun j hj i hi => ?_⟩⟩
  · rcases List.mem_append.mp hj with hj | hj
    · exact hrest.happened j hj
    · rw [List.mem_singleton.mp hj]
      exact ⟨_, lastAt_concat hoid⟩
  · obtain ⟨n, hn⟩ := h.happened j (hqueue.subset hj)
    rw [List.mem_singleton.mp hi]
    exact ⟨n, _, hn.concat (hop j hj), lastAt_concat hoid, hn.lt⟩

end InTurn

theorem InOrder.shrink {w w' : UnitOfWork} (h : InOrder steps w) (hshrinks : w.Shrinks w')
    (hinsert : ∀ j, ¬ SchedulesInsert j op m) (hdelete : ∀ j, ¬ SchedulesDelete j op m)
    (htrack : ∀ j ∈ w'.tracked.keys, ¬ StartsTracking j op m) :
    InOrder (steps ++ [(op, m)]) w' where
  insertions := h.insertions.shrink hshrinks.insertions fun j _ => hinsert j
  deletions := h.deletions.shrink hshrinks.deletions fun j _ => hdelete j
  tracked := h.tracked.shrink hshrinks.tracked htrack

theorem not_startsTracking (hinsert : ¬ SchedulesInsert j op m)
    (hop : match op with | .find .. | .refresh _ => False | _ => True) :
    ¬ StartsTracking j op m := by
  rintro (h | _ | _)
  · exact hinsert h
  · exact hop
  · exact hop

theorem inOrder_persist (oid : Oid) (hw : m.work.Consistent) (h : InOrder steps m.work) :
    InOrder (steps ++ [(.persist oid, m)]) ((Operation.persist oid).after m).work := by
  refine Action.post_iff_run (P := fun t : Manager σ => InOrder _ t.work) |>.mp ?_
  have hpersist := Action.post_iff.mp (post_persist oid m)
  have hdelete (j : Oid) : ¬ SchedulesDelete j (.persist oid) m := fun hj => nomatch hj.1
  refine Action.post_iff.mpr ⟨fun _ t ht => ?_, fun e t ht => ?_⟩
  case refine_2 =>
    rw [hpersist.2 e t ht]
    have hinsert (j : Oid) : ¬ SchedulesInsert j (.persist oid) m := by
      rintro ⟨hop, -, t', ht'⟩
      cases hop
      cases ht'.symm.trans ht
    exact h.shrink (.refl _) hinsert hdelete fun j _ =>
      not_startsTracking (hinsert j) trivial
  obtain ⟨md, described, -, heq⟩ := hpersist.1 _ t ht
  have hwork : t.work = m.work.persist oid md := by rw [heq]
  rw [hwork]
  by_cases hs : m.work.state oid = .detached
  · obtain ⟨hins, hdel, hkeys⟩ := UnitOfWork.persist_arrives hw md hs
    have hoid : SchedulesInsert oid (.persist oid) m := ⟨rfl, hs, t, ht⟩
    have hothers {queue : List Oid} (hqueue : oid ∉ queue) :
        ∀ j ∈ queue, ¬ SchedulesInsert j (.persist oid) m := by
      rintro j hj ⟨hop, -⟩
      cases hop
      exact hqueue hj
    have hnodup := hkeys ▸ (m.work.persist oid md).tracked.keys_nodup
    refine ⟨hins ▸ h.insertions.arrive (.refl _) (hothers ?_) hoid,
      hdel ▸ h.deletions.shrink (.refl _) fun j _ => hdelete j,
      hkeys ▸ h.tracked.arrive (.refl _) (fun j hj => ?_) (.scheduled hoid)⟩
    · rw [hw.mem_insertions, hs]
      simp
    · refine not_startsTracking (hothers (fun hmem => ?_) j hj) trivial
      exact (List.nodup_append.mp hnodup).2.2 oid hmem oid (by simp) rfl
  · have hinsert (j : Oid) : ¬ SchedulesInsert j (.persist oid) m := by
      rintro ⟨hop, hstate, -⟩
      cases hop
      exact hs hstate
    exact h.shrink (UnitOfWork.shrinks_persist md hs) hinsert hdelete fun j _ =>
      not_startsTracking (hinsert j) trivial

theorem inOrder_remove (oid : Oid) (hw : m.work.Consistent) (h : InOrder steps m.work) :
    InOrder (steps ++ [(.remove oid, m)]) ((Operation.remove oid).after m).work := by
  refine Action.post_iff_run (P := fun t : Manager σ => InOrder _ t.work) |>.mp ?_
  have hremove := Action.post_iff.mp (post_remove oid m)
  have hinsert (j : Oid) : ¬ SchedulesInsert j (.remove oid) m := fun hj => nomatch hj.1
  have htrack (j : Oid) : ¬ StartsTracking j (.remove oid) m :=
    not_startsTracking (hinsert j) trivial
  refine Action.post_iff.mpr ⟨fun _ t ht => ?_, fun e t ht => ?_⟩
  case refine_2 =>
    rw [hremove.2 e t ht]
    refine h.shrink (.refl _) hinsert (fun j hj => ?_) fun j _ => htrack j
    obtain ⟨hop, -, t', ht'⟩ := hj
    cases hop
    cases ht'.symm.trans ht
  obtain ⟨w, hr, heq⟩ := hremove.1 _ t ht
  have hwork : t.work = w := by rw [heq]
  rw [hwork]
  by_cases hs : m.work.state oid = .managed
  · obtain ⟨hins, hdel, hkeys⟩ := UnitOfWork.remove_arrives hw hr hs
    refine ⟨hins ▸ h.insertions.shrink (.refl _) fun j _ => hinsert j,
      hdel ▸ h.deletions.arrive (.refl _) (fun j hj hop => ?_) ⟨rfl, hs, t, ht⟩,
      hkeys ▸ h.tracked.shrink (.refl _) fun j _ => htrack j⟩
    obtain ⟨hop, -⟩ := hop
    cases hop
    have hremoved := (hw.mem_deletions oid).mp hj
    simp [hs] at hremoved
  · refine h.shrink (UnitOfWork.shrinks_remove hr hs) hinsert (fun j hj => ?_) fun j _ => htrack j
    obtain ⟨hop, hstate, -⟩ := hj
    cases hop
    exact hs hstate

theorem InOrder.track {w w' : UnitOfWork} (h : InOrder steps w) (hshrinks : w.Shrinks w')
    (md : Schema.Metadata) (key : IdentityKey) (s : Schema.Snapshot)
    (hinsert : ∀ j, ¬ SchedulesInsert j op m) (hdelete : ∀ j, ¬ SchedulesDelete j op m)
    (hothers : ∀ j, j ≠ oid → ¬ StartsTracking j op m)
    (hoid : StartsTracking oid op m ↔ oid ∉ w'.tracked.keys) :
    InOrder (steps ++ [(op, m)]) (w'.track oid md key s) := by
  refine ⟨h.insertions.shrink (.trans List.erase_sublist hshrinks.insertions) fun j _ => hinsert j,
    h.deletions.shrink (.trans List.erase_sublist hshrinks.deletions) fun j _ => hdelete j, ?_⟩
  by_cases hmem : oid ∈ w'.tracked.keys
  · rw [UnitOfWork.track, OrderedMap.keys_insert_of_mem _ hmem]
    refine h.tracked.shrink hshrinks.tracked fun j _ hj => ?_
    by_cases hne : j = oid
    · exact hoid.mp (hne ▸ hj) hmem
    · exact hothers j hne hj
  · rw [UnitOfWork.track, OrderedMap.keys_insert_of_not_mem _ hmem]
    refine h.tracked.arrive hshrinks.tracked (fun j hj => hothers j fun hne => ?_) (hoid.mpr hmem)
    exact hmem (hne ▸ hj)

theorem inOrder_find (type : EntityType) (id : Identifier) (hw : m.work.Consistent)
    (h : InOrder steps m.work) :
    InOrder (steps ++ [(.find type id, m)]) ((Operation.find type id).after m).work := by
  rw [← Operation.state_ask]
  refine Action.post_iff_run (P := fun t : Manager σ => InOrder _ t.work) |>.mp ?_
  have hfind := Action.post_iff.mp (post_find_found type id m)
  have hinsert (j : Oid) : ¬ SchedulesInsert j (.find type id) m := fun hj => nomatch hj.1
  have hdelete (j : Oid) : ¬ SchedulesDelete j (.find type id) m := fun hj => nomatch hj.1
  have hfound {j : Oid} (hj : StartsTracking j (.find type id) m) :
      (∃ t, (find type id).run m = (.ok (some j), t)) ∧ m.state j = .detached := by
    cases hj with
    | scheduled hj => exact absurd hj (hinsert j)
    | found hrun hs => exact ⟨⟨_, hrun⟩, hs⟩
  refine Action.post_iff.mpr ⟨fun o t ht => ?_, fun e t ht => ?_⟩
  case refine_2 =>
    rw [(hfind.2 e t ht).2.1]
    refine h.shrink (.refl _) hinsert hdelete fun j _ hj => ?_
    obtain ⟨⟨t', ht'⟩, -⟩ := hfound hj
    cases ht'.symm.trans ht
  cases hfind.1 o t ht with
  | @tracked md key oid _ hmd _ hslot =>
    rw [(post_metadata type m).of_run_ok hmd]
    exact h.shrink (.refl _) hinsert hdelete fun j hmem hj =>
      hw.mem_keys_iff.mp hmem (hfound hj).2
  | absent hmd _ _ hread =>
    rw [((post_loadRow _ _ _).of_run_ok hread).1, (post_metadata type m).of_run_ok hmd]
    refine h.shrink (.refl _) hinsert hdelete fun j _ hj => ?_
    obtain ⟨⟨t', ht'⟩, -⟩ := hfound hj
    cases ht'.symm.trans ht
  | loaded =>
    refine h.track (.refl _) _ _ _ hinsert hdelete (fun j hne hj => ?_) ?_
    · obtain ⟨⟨t', ht'⟩, -⟩ := hfound hj
      cases ht'.symm.trans ht
      exact hne rfl
    · constructor
      · exact fun hj hmem => hw.mem_keys_iff.mp hmem (hfound hj).2
      · intro hmem
        refine .found ht ?_
        by_contra hs
        exact hmem (hw.mem_keys_iff.mpr hs)

theorem inOrder_refresh (oid : Oid) (h : InOrder steps m.work) :
    InOrder (steps ++ [(.refresh oid, m)]) ((Operation.refresh oid).after m).work := by
  refine Action.post_iff_run (P := fun t : Manager σ => InOrder _ t.work) |>.mp ?_
  have hrefresh := Action.post_iff.mp (post_refresh_refreshed oid m)
  have hinsert (j : Oid) : ¬ SchedulesInsert j (.refresh oid) m := fun hj => nomatch hj.1
  have hdelete (j : Oid) : ¬ SchedulesDelete j (.refresh oid) m := fun hj => nomatch hj.1
  have hfound {j : Oid} (hj : StartsTracking j (.refresh oid) m) :
      j = oid ∧ ∃ t, (refresh oid).run m = (.ok ⟨⟩, t) := by
    cases hj with
    | scheduled hj => exact absurd hj (hinsert j)
    | refreshed hrun => exact ⟨rfl, _, hrun⟩
  have hshrinks := m.work.shrinks_detach oid
  refine Action.post_iff.mpr ⟨fun _ t ht => ?_, fun e t ht => ?_⟩
  · obtain ⟨-, -, -, -, -, -, -, -⟩ := hrefresh.1 _ t ht
    refine h.track hshrinks _ _ _ hinsert hdelete (fun j hne hj => hne (hfound hj).1) ?_
    refine iff_of_true (.refreshed ht) (UnitOfWork.not_mem_keys_of_get? ?_)
    rw [UnitOfWork.get?_tracked_detach, if_pos rfl]
  · have hnone (j : Oid) : ¬ StartsTracking j (.refresh oid) m := by
      intro hj
      obtain ⟨-, t', ht'⟩ := hfound hj
      cases ht'.symm.trans ht
    rcases (hrefresh.2 e t ht).2 with hw | hw
    · rw [hw]
      exact h.shrink (.refl _) hinsert hdelete fun j _ => hnone j
    · rw [hw]
      exact h.shrink hshrinks hinsert hdelete fun j _ => hnone j

theorem Effect.shrinks {w : UnitOfWork} (h : Effect m op w)
    (hop : match op with | .find .. | .persist _ | .remove _ | .refresh _ => False | _ => True) :
    m.work.Shrinks w := by
  cases h with
  | unchanged => exact .refl _
  | detached => exact m.work.shrinks_detach _
  | cleared => exact m.work.shrinks_empty
  | flushed => exact m.work.shrinks_apply _ _
  | found | persisted | removed | refreshed | lost => exact hop.elim

theorem InOrder.step (hw : m.work.Consistent) (h : InOrder steps m.work) (op : Operation) :
    InOrder (steps ++ [(op, m)]) (op.after m).work := by
  have heffect := (effect op m).1
  cases op with
  | find type id => exact inOrder_find type id hw h
  | persist oid => exact inOrder_persist oid hw h
  | remove oid => exact inOrder_remove oid hw h
  | refresh oid => exact inOrder_refresh oid h
  | edit | detach | clear | flush | describe | query | createQuery | clearMetadata | clearQueries =>
    exact h.shrink (heffect.shrinks trivial) (fun j hj => nomatch hj.1) (fun j hj => nomatch hj.1)
      fun j _ => not_startsTracking (fun hj => nomatch hj.1) trivial

theorem History.inOrder (h : History steps m) : InOrder steps m.work := by
  refine (h.keeps (P := fun steps w => w.Consistent ∧ InOrder steps w) ?_ ?_).2
  · exact fun _ op m hm => ⟨(effect op m).1.consistent hm.1, hm.2.step hm.1 op⟩
  · exact ⟨UnitOfWork.consistent_empty, .nil, .nil, .nil⟩

end Manager
end Persistence
