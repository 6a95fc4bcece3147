import Persistence.Proofs.Runs
import Persistence.Proofs.Sample

/-!
The unit of work of a manager is consistent in every state that can be reached, whichever
operations and blocks have failed on the way.
-/

namespace Persistence.Manager

open UnitOfWork (consistent_empty)

variable {σ : Type} {m : Manager σ}

theorem build_start {o : Options} {heap : Heap} {connection : σ}
    (h : build o heap connection = .ok m) :
    m.work = .empty ∧ m.session.depth = 0 ∧ m.session.rollbackOnly = false := by
  unfold build at h
  cases hr : registerAll [] (Schema.Registry.empty.setMemoizing o.keepMetadata) o.registrations with
  | error e => simp [hr, bind, Except.bind] at h
  | ok registry =>
    simp only [hr, bind, Except.bind, pure, Except.pure] at h
    rw [← Except.ok.inj h]
    exact ⟨rfl, rfl, rfl⟩

variable [Connection σ]

theorem Effect.consistent {op : Operation} {w : UnitOfWork} (h : Effect m op w)
    (hm : m.work.Consistent) : w.Consistent := by
  cases h with
  | unchanged => exact hm
  | found => exact hm.track ..
  | persisted => exact hm.persist ..
  | removed hw => exact hm.remove hw
  | refreshed => exact (hm.detach _).track ..
  | lost => exact hm.detach _
  | detached => exact hm.detach _
  | cleared => exact consistent_empty
  | flushed _ hw => exact hm.apply (hw.wrote hm) _

theorem kept_consistent (allowed : Operation → Manager σ → Prop) :
    Kept allowed fun m => m.work.Consistent where
  operation op m _ hm := (effect op m).1.consistent hm
  begin _ hm := hm
  commit _ hm := hm
  rollback _ hm := hm
  restore _ _ hsaved _ := hsaved

theorem Reachable.consistent {allowed : Operation → Manager σ → Prop} (h : Reachable allowed m) :
    m.work.Consistent := by
  refine (kept_consistent allowed).reachable (fun o heap connection m hbuild => ?_) h
  rw [(build_start hbuild).1]
  exact consistent_empty

theorem Effect.keyed {op : Operation} {w : UnitOfWork} (h : Effect m op w)
    (hc : m.work.Consistent) (hm : m.work.Keyed) : w.Keyed := by
  cases h with
  | unchanged => exact hm
  | found _ hkey => exact hm.track hkey _
  | persisted => exact hm.persist _ _
  | removed hw => exact hm.remove hw
  | refreshed _ _ hkey => exact (hm.detach _).track hkey _
  | lost => exact hm.detach _
  | detached => exact hm.detach _
  | cleared => exact UnitOfWork.keyed_empty
  | flushed _ hw => exact hm.apply hc (hw.wrote hc)

theorem kept_keyed (allowed : Operation → Manager σ → Prop) :
    Kept allowed fun m => m.work.Consistent ∧ m.work.Keyed where
  operation op m _ hm :=
    ⟨(effect op m).1.consistent hm.1, (effect op m).1.keyed hm.1 hm.2⟩
  begin _ hm := hm
  commit _ hm := hm
  rollback _ hm := hm
  restore _ _ hsaved _ := hsaved

theorem Reachable.keyed {allowed : Operation → Manager σ → Prop} (h : Reachable allowed m) :
    m.work.Keyed := by
  refine ((kept_keyed allowed).reachable (fun o heap connection m hbuild => ?_) h).2
  rw [(build_start hbuild).1]
  exact ⟨consistent_empty, UnitOfWork.keyed_empty⟩

/-- After any run the queues hold the new and the removed instances, only new instances have no
key, and each slot is that of its instance, which has no other. -/
theorem consistent_of_reachable (h : Reachable anyOperation m) :
    m.work.Consistent ∧ ∀ oid key key', m.work.slots.get? key = some oid →
      m.work.slots.get? key' = some oid → key = key' :=
  ⟨h.consistent, fun _ _ _ hk hk' => h.consistent.slot_unique hk hk'⟩

open Sample in
def takeover : Manager Scripted :=
  let start := manager [userObject none "Ann", userObject (some 1) "Bob", userObject none "Cy"]
    ⟨[[userRow (.int 1) "Ann"]], false⟩
  let written := Operation.flush.after ((Operation.persist ⟨0⟩).after start)
  let failed := ((transactional fun inner =>
    (.error (.state (.notManaged ⟨2⟩)), (Operation.persist ⟨2⟩).after inner) :
      ManagerM Scripted Unit).run written).2
  (Operation.remove ⟨0⟩).after ((Operation.refresh ⟨1⟩).after failed)

theorem reachable_takeover : Reachable anyOperation takeover := by
  have built : Reachable anyOperation (Sample.manager
      [Sample.userObject none "Ann", Sample.userObject (some 1) "Bob", Sample.userObject none "Cy"]
      (Sample.Scripted.mk [[Sample.userRow (.int 1) "Ann"]] false)) := .built (Sample.build_manager ..)
  refine built.run ?_
  refine ((Runs.transactional _ ?_ ?_ ?_).operation (.refresh ⟨1⟩) trivial).operation
    (.remove ⟨0⟩) trivial
  · exact ((Runs.done _).operation (.persist ⟨0⟩) trivial).operation .flush trivial
  · exact fun inner _ => (Runs.done inner).operation (.persist ⟨2⟩) trivial
  · exact fun _ _ _ _ _ => trivial

theorem consistent_takeover :
    takeover.work.state ⟨0⟩ = .removed ∧ takeover.work.state ⟨1⟩ = .managed ∧
      takeover.work.state ⟨2⟩ = .detached ∧ takeover.work.slots.values = [⟨1⟩] ∧
      takeover.work.Consistent :=
  ⟨by decide, by decide, by decide, by decide +kernel, (consistent_of_reachable reachable_takeover).1⟩

end Persistence.Manager
