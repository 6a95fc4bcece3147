import Persistence.Proofs.Histories
import Persistence.Proofs.Noting

/-!
Accounts. Whatever is done with a manager, all that it has tracked is accounted for: the snapshot of
a managed instance has for each field what the last exchange about the field has left.
-/

namespace Persistence.Manager

open Schema (Field)
open UnitOfWork (changedRows explained_empty consistent_empty)

variable {σ α : Type} [Connection σ] {account : List (Oid × Exchange)} {m t : Manager σ}

theorem explained_find (type : EntityType) (id : Identifier) (h : m.work.Explained account) :
    ((Operation.find type id).after m).work.Explained
      (account ++ (Operation.find type id).exchanges m) := by
  rw [← Operation.state_ask]
  refine Action.post_iff_run (P := fun t : Manager σ => t.work.Explained _) |>.mp ?_
  have hfind := Action.post_iff.mp (post_find_row type id m)
  refine Action.post_iff.mpr ⟨fun o t ht => ?_, fun e t ht => ?_⟩
  case refine_2 =>
    have ht' : (Manager.find type id).run m = (.error e, t) := ht
    simpa [Operation.exchanges, ht', hfind.2 e t ht] using h
  have ht' : (Manager.find type id).run m = (.ok o, t) := ht
  rcases hfind.1 o t ht with ⟨hw, rfl | hrow⟩ | ⟨oid, md, key, s, row, rfl, hrow, hw, hs⟩
  · simpa [Operation.exchanges, ht', hw] using h
  · have hnone : (Operation.find type id).exchanges m = [] := by
      simp only [Operation.exchanges, ht', hrow]
    rwa [hnone, hw, List.append_nil]
  · have hone : (Operation.find type id).exchanges m =
        [(oid, .loaded row (m.heap.fresh type) (m.heap.fresh type))] := by
      simp only [Operation.exchanges, ht', hrow]
    rw [hone, hw]
    refine h.track fun f hf hown => ⟨_, ?_, hs f hf hown.1⟩
    rw [Exchange.kept?, hold_given]

theorem explained_refresh (oid : Oid) (h : m.work.Explained account) :
    ((Operation.refresh oid).after m).work.Explained
      (account ++ (Operation.refresh oid).exchanges m) := by
  refine Action.post_iff_run (P := fun t : Manager σ => t.work.Explained _) |>.mp ?_
  have hrefresh := Action.post_iff.mp (post_refresh_row oid m)
  refine Action.post_iff.mpr ⟨fun x t ht => ?_, fun e t ht => ?_⟩
  · obtain ⟨md, key, s, row, hrow, hw, hs⟩ := hrefresh.1 x t ht
    have ht' : (Manager.refresh oid).run m = (.ok x, t) := ht
    have hone : (Operation.refresh oid).exchanges m =
        [(oid, .loaded row (m.heap.fresh (m.heap.typeOf oid)) (m.heap.content oid))] := by
      simp only [Operation.exchanges, ht', hrow]
    rw [hone, hw]
    exact (h.detach oid).track fun f hf hown => ⟨_, rfl, hs f hf hown.1⟩
  · have ht' : (Manager.refresh oid).run m = (.error e, t) := ht
    have hnone : (Operation.refresh oid).exchanges m = [] := by
      simp only [Operation.exchanges, ht']
    rw [hnone, List.append_nil]
    rcases hrefresh.2 e t ht with hw | hw
    · rwa [hw]
    · rw [hw]
      exact h.detach oid

theorem explained_flush (hc : m.work.Consistent) (h : m.work.Explained account) :
    (Operation.flush.after m).work.Explained (account ++ Operation.flush.exchanges m) := by
  refine Action.post_iff_run (P := fun t : Manager σ => t.work.Explained _) |>.mp ?_
  have hflush := Action.post_iff.mp (post_flush m)
  refine Action.post_iff.mpr ⟨fun x t ht => ?_, fun e t ht => ?_⟩
  case refine_2 =>
    have ht' : Manager.flush.run m = (.error e, t) := ht
    have hnone : Operation.flush.exchanges m = [] := by simp only [Operation.exchanges, ht']
    rwa [hnone, hflush.2 e t ht, List.append_nil]
  have ht' : Manager.flush.run m = (.ok x, t) := ht
  have hsome : Operation.flush.exchanges m = m.work.committed m.toEnvironment := by
    simp only [Operation.exchanges, ht']
  have hpost : Manager.flush.Post
      (fun _ t => t.work.Explained (account ++ m.work.committed m.toEnvironment))
      (fun _ _ => True) m := by
    rw [post_flush_iff]
    exact (UnitOfWork.post_commit m.toEnvironment).mono (fun _ _ hw => hw.explained h hc) fun _ _ => id
  rw [hsome]
  exact hpost.of_run_ok ht

def Operation.Quiet : Operation → Prop
  | find .. | refresh _ | flush => False
  | edit _ | persist _ | remove _ | detach _ | clear | describe _ | query .. | createQuery _
  | clearMetadata | clearQueries => True

theorem Effect.retains {op : Operation} {w : UnitOfWork} (h : Effect m op w) (hop : op.Quiet) :
    m.work.Retains w := by
  cases h with
  | unchanged => exact .refl _
  | persisted => exact UnitOfWork.retains_persist _ _
  | removed hw => exact UnitOfWork.retains_remove hw
  | detached => exact UnitOfWork.retains_detach _
  | cleared => exact UnitOfWork.retains_empty
  | found | refreshed | lost | flushed => exact hop.elim

theorem Operation.explained (op : Operation) (hc : m.work.Consistent)
    (h : m.work.Explained account) :
    (op.after m).work.Explained (account ++ op.exchanges m) := by
  cases op with
  | find type id => exact explained_find type id h
  | refresh oid => exact explained_refresh oid h
  | flush => exact explained_flush hc h
  | edit | persist | remove | detach | clear | describe | query | createQuery | clearMetadata
    | clearQueries =>
    rw [Operation.exchanges, List.append_nil]
    exact h.of_retains ((effect _ m).1.retains trivial)

def Sound (account : List (Oid × Exchange)) (m : Manager σ) : Prop :=
  m.work.Consistent ∧ m.work.Explained account

def exchangesOf (steps : List (Operation × Manager σ)) : List (Oid × Exchange) :=
  steps.flatMap fun e => e.1.exchanges e.2

theorem exchangesWithin_eq {block : ManagerM σ α} {inside : Manager σ → List (Operation × Manager σ)}
    {exchanges : Manager σ → List (Oid × Exchange)}
    (h : ∀ started, exchanges started = exchangesOf (inside started)) (m : Manager σ) :
    exchangesWithin block exchanges m = exchangesOf (stepsWithin block inside m) := by
  rw [exchangesWithin, stepsWithin]
  rcases (onSession Session.begin).run m with ⟨_ | _, started⟩
  · rfl
  · dsimp only
    rw [h, exchangesOf, exchangesOf, List.flatMap_append]
    rcases block.run started with ⟨_ | _, last⟩
    · rfl
    · simp

theorem Block.exchanges_eq (b : Block σ α) (m : Manager σ) :
    b.exchanges false m = exchangesOf (b.steps m) := by
  induction b generalizing m with
  | done outcome => rfl
  | operation op next ih =>
    rw [Block.exchanges, Block.steps, ih, exchangesOf, exchangesOf, List.flatMap_cons]
  | transactional inner next ihInner ihNext =>
    rw [Block.exchanges, Block.steps, ihNext, exchangesWithin_eq ihInner, exchangesOf, exchangesOf,
      exchangesOf, List.flatMap_append]
    cases ((Manager.transactional inner.run).run m).1.isOk <;> rfl

theorem Account.exists_history (h : Account false account m) :
    ∃ steps, History steps m ∧ account = exchangesOf steps := by
  induction h with
  | built hbuild => exact ⟨[], .built hbuild, rfl⟩
  | run b _ ih =>
    obtain ⟨steps, hsteps, rfl⟩ := ih
    refine ⟨_, hsteps.run b, ?_⟩
    rw [b.exchanges_eq, exchangesOf, exchangesOf, exchangesOf, List.flatMap_append]
  | entered _ hinner ih =>
    obtain ⟨steps, hsteps, rfl⟩ := ih
    exact ⟨steps, hsteps.entered hinner, rfl⟩

theorem Account.sound (h : Account false account m) : Sound account m := by
  obtain ⟨steps, hsteps, rfl⟩ := h.exists_history
  refine hsteps.keeps (P := fun steps w => w.Consistent ∧ w.Explained (exchangesOf steps))
    (fun steps op m hm => ?_) ⟨consistent_empty, explained_empty⟩
  rw [exchangesOf, List.flatMap_append, List.flatMap_singleton]
  exact ⟨(effect op m).1.consistent hm.1, op.explained hm.1 hm.2⟩

theorem Account.reachable {failed : Bool} (h : Account failed account m) :
    Reachable anyOperation m := by
  induction h with
  | built hbuild => exact .built hbuild
  | run b _ ih => exact ih.run (b.runs (.done _))
  | entered _ hinner ih => exact ih.entered hinner

section Samples

open Sample

def editing : Block Scripted Unit :=
  .operation (.find user (.scalar (.int 2))) fun _ m =>
    .operation (.edit (m.heap.put ⟨1⟩ ⟨user, userSlots (some 2) "Bea"⟩)) fun _ _ =>
      .operation (.persist ⟨0⟩) fun _ _ => .operation .flush fun _ _ => .done (.ok ())

def unedited : Manager Scripted :=
  manager [userObject none "Ann"] ⟨[[userRow (.int 2) "Bob"]], false⟩

def edited : Manager Scripted := (editing.run.run unedited).2

end Samples

end Persistence.Manager
