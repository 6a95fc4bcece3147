import Persistence.Proofs.TrackedTypes

/-!
Instances that are tracked are there. An instance is looked at before it comes to be tracked, and
what was never given out has no class that could be looked up. So a number that is given out anew is
not one of a tracked instance.
-/

namespace Persistence.Manager

open Schema (Metadata Registry)

variable {σ : Type} {r : Registry} {m t : Manager σ} {oid : Oid} {type : EntityType} {md : Metadata}

def TracksPresent (m : Manager σ) : Prop :=
  m.work.Every fun oid _ _ => oid.index < m.heap.objects.length

structure Present (r : Registry) (m : Manager σ) : Prop where
  consistent : m.work.Consistent
  answers : r.Agrees m.registry
  tracked : m.TracksPresent

theorem KeepsTypes.size_le (h : m.KeepsTypes t) : m.heap.objects.length ≤ t.heap.objects.length := by
  simpa [Heap.types] using List.IsPrefix.length_le h

namespace Present

theorem later (h : Present r m) (ht : m.KeepsTypes t) :
    m.work.Every fun oid _ _ => oid.index < t.heap.objects.length :=
  fun oid tracked htracked => (h.tracked oid tracked htracked).trans_le ht.size_le

theorem next_untracked (h : Present r m) : m.work.tracked.get? ⟨m.heap.objects.length⟩ = none :=
  Option.eq_none_iff_forall_ne_some.mpr fun t ht => Nat.lt_irrefl _ (h.tracked _ t ht)

theorem index_lt_of_metadata (h : Present r m) (hr : r.Sound)
    (hmd : (metadata (m.heap.typeOf oid)).run m = (.ok md, t)) :
    oid.index < m.heap.objects.length := by
  by_contra hout
  have hclass : (m.heap.typeOf oid).className = "" := by
    have hnone : m.heap.types[oid.index]? = none :=
      List.getElem?_eq_none (by simpa [Heap.types] using hout)
    rw [Heap.typeOf_eq, hnone]
    rfl
  have hview := view_of_metadata hmd
  rw [(h.answers.sound hr).view_eq, hclass] at hview
  simp [Text.isBlankText] at hview

variable [Connection σ]

theorem find (h : Present r m) (type : EntityType) (id : Identifier) :
    ((Operation.find type id).after m).TracksPresent := by
  have hkeeps : m.KeepsTypes ((Operation.find type id).after m) :=
    keepsTypes_after fun _ hop => by simp at hop
  rw [← Operation.state_ask] at hkeeps ⊢
  refine Action.post_iff_run (P := fun t : Manager σ => m.KeepsTypes t → t.TracksPresent) |>.mp ?_ hkeeps
  refine (post_find_found type id m).mono (fun found t ht hkeeps => ?_) fun _ t ht hkeeps => ?_
  case refine_2 =>
    rw [TracksPresent, ht.2.1]
    exact h.later hkeeps
  cases ht with
  | tracked hmd =>
    rw [(post_metadata type m).of_run_ok hmd]
    exact h.tracked
  | absent hmd _ _ hread =>
    rw [((post_loadRow _ _ _).of_run_ok hread).1, (post_metadata type m).of_run_ok hmd]
    exact h.tracked
  | loaded => exact (h.later hkeeps).track (by simp [Heap.allocate]) _

theorem persist (h : Present r m) (hr : r.Sound) (oid : Oid) :
    ((Operation.persist oid).after m).TracksPresent := by
  refine Action.post_iff_run (P := fun t : Manager σ => t.TracksPresent) |>.mp ?_
  refine (post_persist oid m).mono (fun _ t ht => ?_) fun _ t ht => ?_
  · obtain ⟨md, described, hmd, heq⟩ := ht
    rw [heq]
    exact h.tracked.persist (h.index_lt_of_metadata hr hmd)
  · rw [ht]
    exact h.tracked

theorem refresh (h : Present r m) (hr : r.Sound) (oid : Oid) :
    ((Operation.refresh oid).after m).TracksPresent := by
  have hkeeps : m.KeepsTypes ((Operation.refresh oid).after m) :=
    keepsTypes_after fun _ hop => by simp at hop
  refine Action.post_iff_run (P := fun t : Manager σ => m.KeepsTypes t → t.TracksPresent) |>.mp ?_ hkeeps
  refine (post_refresh oid m).mono (fun _ t ht hkeeps => ?_) fun _ t ht hkeeps => ?_
  · obtain ⟨-, md, key, values, hcarries, -, hwork⟩ := ht
    obtain ⟨md', described, x, ids, hmd, -⟩ := hcarries
    have hlt := Nat.lt_of_lt_of_le (h.index_lt_of_metadata hr hmd) hkeeps.size_le
    rw [TracksPresent, hwork]
    exact ((h.later hkeeps).detach oid).track hlt values
  · rw [TracksPresent]
    obtain ⟨-, hwork | hwork⟩ := ht
    · rw [hwork]
      exact h.later hkeeps
    · rw [hwork]
      exact (h.later hkeeps).detach oid

theorem after (h : Present r m) (hr : r.Sound) {op : Operation} (hop : op.Proper m) :
    Present r (op.after m) where
  consistent := (effect op m).1.consistent h.consistent
  answers := Trans.trans (r := Registry.Agrees) h.answers (op.within_run m)
  tracked := by
    cases op with
    | find type id => exact h.find type id
    | persist oid => exact h.persist hr oid
    | refresh oid => exact h.refresh hr oid
    | edit | remove | detach | clear | flush | describe | query | createQuery | clearMetadata
      | clearQueries =>
      exact (effect _ m).1.every h.consistent (h.later (keepsTypes_after hop)) fun _ _ _ => by simp

theorem keptOver (h : Present r m) (hr : r.Sound) :
    KeptOver Operation.Proper m.work fun t => Present r t ∧ m.KeepsTypes t where
  operation _ _ hop ht := ⟨ht.1.after hr hop, ht.2.trans (keepsTypes_after hop)⟩
  begin _ ht := ⟨⟨ht.1.consistent, ht.1.answers, ht.1.tracked⟩, ht.2⟩
  commit _ ht := ⟨⟨ht.1.consistent, ht.1.answers, ht.1.tracked⟩, ht.2⟩
  rollback _ ht := ⟨⟨ht.1.consistent, ht.1.answers, ht.1.tracked⟩, ht.2⟩
  restore _ ht := ⟨⟨h.consistent, ht.1.answers, h.later ht.2⟩, ht.2⟩

theorem runs (hr : r.Sound) {m' : Manager σ} (hruns : Runs Operation.Proper m m')
    (h : Present r m) : Present r m' ∧ m.KeepsTypes m' :=
  hruns.kept_along (R := KeepsTypes) (fun _ ht => ht.keptOver hr) h

end Present

/-- Whatever was done, all that is tracked is there, and classes are described by their mappings. -/
theorem Reachable.exists_present [Connection σ] (h : Reachable Operation.Proper m) :
    ∃ r : Registry, r.Sound ∧ Present r m := by
  induction h with
  | built hbuild =>
    rename_i m
    have hempty := (build_start hbuild).1
    refine ⟨m.registry, Registry.sound_of_memo_eq (memo_build hbuild), ?_, Std.Refl.refl m.registry, ?_⟩
    · rw [hempty]
      exact UnitOfWork.consistent_empty
    · rw [TracksPresent, hempty]
      exact UnitOfWork.every_empty _
  | run _ hruns ih =>
    obtain ⟨r, hr, hm⟩ := ih
    exact ⟨r, hr, (Present.runs hr hruns hm).1⟩
  | @entered m inner _ hinner ih =>
    obtain ⟨r, hr, hm⟩ := ih
    have hP := ((hm.keptOver hr).begin m ⟨hm, Std.Refl.refl m⟩).1
    rw [hinner] at hP
    exact ⟨r, hr, hP⟩

end Persistence.Manager
