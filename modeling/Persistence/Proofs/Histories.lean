import Persistence.Proofs.Blocks
import Persistence.Proofs.Bookkeeping

/-!
Histories. A history lists the operations that have led to a state, each with the state in which it
was done. What was done in a transaction that has failed is not in it, as the bookkeeping from before
is restored. The reachable states are those that have a history, so what is said of histories is
said of all of them.
-/

namespace Persistence.Manager

open UnitOfWork (consistent_empty)

variable {σ α : Type} [Connection σ] {m t : Manager σ}

theorem Operation.state_ask (op : Operation) (m : Manager σ) : (op.ask.run m).2 = op.after m := by
  refine Action.post_iff_run (P := fun t => t = op.after m) |>.mp ?_
  rw [← Action.post_discard (Q := fun _ t => t = op.after m), ← Operation.run_eq]
  exact Action.post_iff_run (P := fun t => t = op.after m) |>.mpr rfl

omit [Connection σ] in
theorem work_onSession {a : SessionM σ α} {r : Except Error α}
    (h : (onSession a).run m = (r, t)) : t.work = m.work := by
  rw [← (Prod.mk.inj h).2]

def stepsWithin (block : ManagerM σ α) (steps : Manager σ → List (Operation × Manager σ))
    (m : Manager σ) : List (Operation × Manager σ) :=
  match (onSession Session.begin).run m with
  | (.ok _, started) => steps started ++ match block.run started with
    | (.ok _, last) => [(.flush, last)]
    | (.error _, _) => []
  | (.error _, _) => []

/-- What a block does, apart from what is done in transactions that fail. -/
def Block.steps : {α : Type} → Block σ α → Manager σ → List (Operation × Manager σ)
  | _, .done _, _ => []
  | _, .operation op next, m =>
    (op, m) :: (next (op.ask.run m).1 (op.ask.run m).2).steps (op.ask.run m).2
  | _, .transactional inner next, m =>
    let ended := (Manager.transactional inner.run).run m
    (if ended.1.isOk then stepsWithin inner.run inner.steps m else []) ++
      (next ended.1 ended.2).steps ended.2

inductive History : List (Operation × Manager σ) → Manager σ → Prop
  | built {o : Options} {heap : Heap} {connection : σ} {m : Manager σ} :
      build o heap connection = .ok m → History [] m
  | run {steps : List (Operation × Manager σ)} {m : Manager σ} {α : Type} (b : Block σ α) :
      History steps m → History (steps ++ b.steps m) (b.run.run m).2
  | entered {steps : List (Operation × Manager σ)} {m inner : Manager σ} :
      History steps m → Begins m inner → History steps inner

section Kept

variable {P : List (Operation × Manager σ) → UnitOfWork → Prop}
  {steps : List (Operation × Manager σ)}
  (step : ∀ steps op m, P steps m.work → P (steps ++ [(op, m)]) (op.after m).work)

include step

theorem Ending.keeps {block : ManagerM σ α} {r : Except Error α}
    {inside : Manager σ → List (Operation × Manager σ)} (h : Ending m block r t)
    (hm : P steps m.work) (hblock : ∀ started, Begins m started →
      P (steps ++ inside started) (block.run started).2.work) :
    P (steps ++ if r.isOk then stepsWithin block inside m else []) t.work := by
  cases h with
  | refused hbegin =>
    rw [work_onSession hbegin]
    simpa [Except.isOk, Except.toBool] using hm
  | failed | unflushed | uncommitted => simpa [Except.isOk, Except.toBool] using hm
  | @committed started last flushed _ _ hstarted hlast hflushed hcommit =>
    have hinside := hblock started hstarted
    rw [hlast] at hinside
    have hdone := step _ .flush _ hinside
    have hafter : Operation.flush.after last = flushed := (Prod.mk.inj hflushed).2
    have hall : stepsWithin block inside m = inside started ++ [(.flush, last)] := by
      rw [stepsWithin, show (onSession Session.begin).run m = _ from hstarted]
      dsimp only
      rw [hlast]
    rw [hafter, List.append_assoc, ← hall] at hdone
    rw [work_onSession hcommit]
    simpa [Except.isOk, Except.toBool] using hdone

theorem Block.keeps (b : Block σ α) (hm : P steps m.work) :
    P (steps ++ b.steps m) (b.run.run m).2.work := by
  induction b generalizing steps m with
  | done outcome =>
    rw [Block.steps, List.append_nil]
    cases outcome <;> exact hm
  | operation op next ih =>
    rw [Block.run_operation, Block.steps, Operation.state_ask, List.append_cons]
    exact ih _ _ (step _ op m hm)
  | transactional inner next ihInner ihNext =>
    rw [Block.run_transactional, Block.steps, ← List.append_assoc]
    refine ihNext _ _ ((ending inner.run m).keeps step hm fun started hstarted => ihInner ?_)
    rwa [work_onSession hstarted]

/-- What holds of a new unit of work, and is kept by each operation together with the operations so
far, holds of every history. -/
theorem History.keeps (start : P [] .empty) (h : History steps m) : P steps m.work := by
  induction h with
  | built hbuild => rwa [(build_start hbuild).1]
  | run b _ ih => exact b.keeps step ih
  | entered _ hinner ih => rwa [work_onSession hinner]

end Kept

theorem transactional_congr {a b : ManagerM σ α}
    (h : ∀ started, Begins m started → a.run started = b.run started) :
    (transactional a).run m = (transactional b).run m := by
  change (onSession Session.begin >>= _).run m = (onSession Session.begin >>= _).run m
  rw [Action.run_bind, Action.run_bind]
  split
  · rename_i started hstarted
    have hflushed : (do let x ← a; flush; return x : ManagerM σ α).run started =
        (do let x ← b; flush; return x : ManagerM σ α).run started := by
      rw [Action.run_bind, Action.run_bind, h started hstarted]
    have hattempt (c : ManagerM σ α) :
        c.attempt.run started = (.ok (c.run started).1, (c.run started).2) := rfl
    rw [Action.run_bind, Action.run_bind, hattempt, hattempt, hflushed]
  · rfl

theorem Runs.exists_block (h : Runs anyOperation m t) (last : Block σ α) :
    ∃ b : Block σ α, b.run.run m = last.run.run t := by
  induction h generalizing α with
  | done m => exact ⟨last, rfl⟩
  | operation op _ _ ih =>
    -- runs grow at their end, so what was done last comes first in the block that follows
    obtain ⟨b, hb⟩ := ih (.operation op fun _ _ => last)
    refine ⟨b, ?_⟩
    rw [hb, Block.run_operation, Operation.state_ask]
  | @transactional β m m' block _ _ _ ih ihblock =>
    obtain ⟨inner, hinner⟩ : ∃ inner : Block σ β,
        (Manager.transactional inner.run).run m' = (Manager.transactional block).run m' := by
      by_cases hbegin : ∃ started, Begins m' started
      · obtain ⟨started, hstarted⟩ := hbegin
        obtain ⟨inner, hinner⟩ := ihblock started hstarted (.done (block.run started).1)
        refine ⟨inner, transactional_congr fun started' hstarted' => ?_⟩
        obtain rfl : started' = started := (Prod.mk.inj (hstarted'.symm.trans hstarted)).2
        rw [hinner]
        rfl
      · refine ⟨.done (.error (.state (.notManaged ⟨0⟩))), transactional_congr ?_⟩
        exact fun started hstarted => absurd ⟨started, hstarted⟩ hbegin
    obtain ⟨b, hb⟩ := ih (.transactional inner fun _ _ => last)
    refine ⟨b, ?_⟩
    rw [hb, Block.run_transactional, hinner]

theorem Block.runs (b : Block σ α) {start : Manager σ} (h : Runs anyOperation start m) :
    Runs anyOperation start (b.run.run m).2 := by
  induction b generalizing start m with
  | done outcome =>
    have hstays : ((done outcome).run.run m).2 = m := by cases outcome <;> rfl
    rwa [hstays]
  | operation op next ih =>
    rw [Block.run_operation, Operation.state_ask]
    exact ih _ _ (h.operation op trivial)
  | transactional inner next ihInner ihNext =>
    rw [Block.run_transactional]
    refine ihNext _ _ (h.transactional inner.run (fun started _ => ihInner (.done started)) ?_)
    exact fun _ _ _ _ _ => trivial

theorem Reachable.exists_history (h : Reachable anyOperation m) : ∃ steps, History steps m := by
  induction h with
  | built hbuild => exact ⟨[], .built hbuild⟩
  | run _ hruns ih =>
    obtain ⟨steps, hsteps⟩ := ih
    obtain ⟨b, hb⟩ := hruns.exists_block (.done (.ok ()) : Block σ Unit)
    have hrun := History.run b hsteps
    rw [hb] at hrun
    exact ⟨_, hrun⟩
  | entered _ hinner ih =>
    obtain ⟨steps, hsteps⟩ := ih
    exact ⟨steps, hsteps.entered hinner⟩

theorem History.reachable {steps : List (Operation × Manager σ)} (h : History steps m) :
    Reachable anyOperation m := by
  induction h with
  | built hbuild => exact .built hbuild
  | run b _ ih => exact ih.run (b.runs (.done _))
  | entered _ hinner ih => exact ih.entered hinner

theorem reachable_iff_exists_history :
    Reachable anyOperation m ↔ ∃ steps, History steps m :=
  ⟨Reachable.exists_history, fun ⟨_, h⟩ => h.reachable⟩

end Persistence.Manager
