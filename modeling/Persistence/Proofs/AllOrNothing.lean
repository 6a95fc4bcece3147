import Persistence.Proofs.Blocks
import Persistence.Proofs.FailedFlush
import Persistence.Proofs.Nesting
import Persistence.Proofs.Working

/-!
Transactional blocks are all or nothing. Inside of a block the enclosing transactions stay open and
only calls for rows are made. A flush or a transaction that fails after it has begun dooms the
whole, so a block whose outermost commit has succeeded has abandoned nothing on its way.
-/

namespace Persistence

open Persistence.Action (post_of_forall)

namespace Session

variable {σ : Type}

structure Within (s t : Session (Recorded σ)) : Prop where
  depth : t.depth = s.depth
  doomed : s.rollbackOnly = true → t.rollbackOnly = true
  calls : ∃ works, t.connection.calls = s.connection.calls ++ works ∧ ∀ c ∈ works, c.isWork

variable {s t u : Session (Recorded σ)}

theorem Works.within (h : s.Works t) : s.Within t := ⟨h.1.1, fun hr => h.1.2.trans hr, h.2⟩

theorem Within.trans (h : s.Within t) (h' : t.Within u) : s.Within u := by
  obtain ⟨works, hworks, hwork⟩ := h.calls
  obtain ⟨works', hworks', hwork'⟩ := h'.calls
  refine ⟨h'.depth.trans h.depth, fun hr => h'.doomed (h.doomed hr), works ++ works', ?_, ?_⟩
  · rw [hworks', hworks, List.append_assoc]
  · exact fun c hc => (List.mem_append.mp hc).elim (hwork c) (hwork' c)

theorem Within.leave {last : Session (Recorded σ)}
    (h : Within { s with depth := s.depth + 1 } last) (hd : t.depth = s.depth)
    (hr : last.rollbackOnly = true → t.rollbackOnly = true) (hc : t.connection = last.connection) :
    s.Within t := ⟨hd, fun hs => hr (h.doomed hs), hc ▸ h.calls⟩

section Nested

variable [Connection σ] {Q : Unit → Session σ → Prop} {E : Error → Session σ → Prop}
  {s : Session σ} {n : Nat}

theorem post_begin_nested (hd : s.depth ≠ 0) :
    begin.Post Q E s ↔ Q () { s with depth := s.depth + 1 } := by
  rw [post_begin]
  exact ⟨fun h => h.2 hd, fun h => ⟨fun h0 => absurd h0 hd, fun _ => h⟩⟩

theorem post_commit_nested (hd : s.depth = n + 2) :
    commit.Post Q E s ↔ Q () { s with depth := n + 1 } := by
  simp only [commit, Action.post_bind, Action.post_get, hd, Action.post_set]

theorem post_rollback_nested (hd : s.depth = n + 2) :
    rollback.Post Q E s ↔ Q () { s with depth := n + 1, rollbackOnly := true } := by
  simp only [rollback, Action.post_bind, Action.post_get, hd, Action.post_set]

end Nested

end Session

namespace UnitOfWork

variable {σ : Type} [Connection σ]

/-- There is something to write and a transaction can be begun for it. -/
def Opens (w : UnitOfWork) (env : Environment σ) : Prop := ∃ c inner,
  w.changeSet env.heap = .ok c ∧ c.isEmpty = false ∧
    (Environment.onSession Session.begin).run env = (.ok ⟨⟩, inner)

theorem post_commit_within {w : UnitOfWork} (env : Environment (Recorded σ))
    (hd : env.session.depth ≠ 0) :
    w.commit.Post (fun _ t => env.session.Within t.session)
      (fun _ t => env.session.Within t.session ∧
        (w.Opens env → t.session.rollbackOnly = true)) env := by
  obtain ⟨n, hn⟩ := Nat.exists_eq_succ_of_ne_zero hd
  have hrefl := (Session.Works.refl env.session).within
  simp only [commit, Action.post_bind, Action.post_get, Action.post_liftExcept, Action.post_ite,
    Action.post_pure]
  refine ⟨fun c hc => ⟨fun _ => hrefl, fun hne => ?_⟩, fun e he => ⟨hrefl, ?_⟩⟩
  case refine_2 =>
    rintro ⟨c, inner, hc, -⟩
    simp [he] at hc
  rw [Environment.onSession, Action.post_onPart, Session.post_begin_nested hd, Action.post_attempt]
  have hwrite := post_write_works (w := w) c
    { env with session := { env.session with depth := env.session.depth + 1 } }
  refine hwrite.mono (fun written done hdone => ?_) fun e done hdone => ?_
  · have hdepth : done.session.depth = n + 2 := hdone.1.1.trans (by simp [hn])
    simp only [Action.post_bind, Action.post_pure, Environment.onSession, Action.post_onPart,
      Session.post_commit_nested hdepth]
    exact ⟨hn.symm, fun hr => hdone.1.2.trans hr, hdone.2⟩
  · have hdepth : done.session.depth = n + 2 := hdone.1.1.1.trans (by simp [hn])
    simp only [Action.post_bind, Action.post_discard, Action.post_attempt, Action.post_throw,
      Environment.onSession, Action.post_onPart, Session.post_rollback_nested hdepth]
    exact ⟨⟨hn.symm, fun _ => rfl, hdone.1.2⟩, fun _ => trivial⟩

end UnitOfWork

namespace Manager

variable {σ α : Type} [Connection σ]

theorem post_flush_within (m : Manager (Recorded σ)) (hd : m.session.depth ≠ 0) :
    flush.Post (fun _ t => m.session.Within t.session)
      (fun _ t => m.session.Within t.session ∧
        (m.work.Opens m.toEnvironment → t.session.rollbackOnly = true)) m := by
  rw [post_flush_iff]
  exact UnitOfWork.post_commit_within m.toEnvironment hd

theorem Operation.within (op : Operation) (m : Manager (Recorded σ)) (hd : m.session.depth ≠ 0) :
    m.session.Within (op.ask.run m).2.session ∧
      (op = .flush ∧ m.work.Opens m.toEnvironment ∧ (∃ e, (op.ask.run m).1 = .error e) →
        (op.ask.run m).2.session.rollbackOnly = true) := by
  by_cases h : op = .flush
  · subst h
    have hflush := Action.post_iff.mp (post_flush_within m hd)
    match hrun : (Operation.ask .flush).run m with
    | (.ok x, t) => exact ⟨hflush.1 x t hrun, by simp⟩
    | (.error e, t) => exact ⟨(hflush.2 e t hrun).1, fun hopens => (hflush.2 e t hrun).2 hopens.2.1⟩
  · have hworking := Action.post_iff_run (P := fun t : Manager (Recorded σ) =>
      m.session.Works t.session) |>.mp (Operation.working h m)
    exact ⟨hworking.within, fun hflush => absurd hflush.1 h⟩

/-- A flush or a transaction of a block fails after it has begun, whether the block goes on after
that or not. -/
def Block.Abandons {α : Type} : Block σ α → Manager σ → Prop
  | .done _, _ => False
  | .operation op next, m =>
    (op = .flush ∧ m.work.Opens m.toEnvironment ∧ ∃ e, (op.ask.run m).1 = .error e) ∨
      (next (op.ask.run m).1 (op.ask.run m).2).Abandons (op.ask.run m).2
  | .transactional inner next, m =>
    (∃ started, Begins m started ∧ (inner.Abandons started ∨
      ∃ e, ((Manager.transactional inner.run).run m).1 = .error e)) ∨
      (next ((Manager.transactional inner.run).run m).1
        ((Manager.transactional inner.run).run m).2).Abandons
        ((Manager.transactional inner.run).run m).2

def KeepsOpen (block : ManagerM (Recorded σ) α) : Prop := ∀ m : Manager (Recorded σ),
  m.session.depth ≠ 0 → m.session.Within (block.run m).2.session

variable {m started last flushed t : Manager (Recorded σ)} {block : ManagerM (Recorded σ) α}
  {r : Except Error α}

theorem Begins.unique {started' : Manager (Recorded σ)} (h : Begins m started)
    (h' : Begins m started') : started' = started := (Prod.mk.inj (h'.symm.trans h)).2

theorem Begins.nested (h : Begins m started) (hd : m.session.depth ≠ 0) :
    started.session = { m.session with depth := m.session.depth + 1 } := by
  have hpost : (onSession Session.begin).Post (fun _ (t : Manager (Recorded σ)) =>
      t.session = { m.session with depth := m.session.depth + 1 }) (fun _ _ => True) m := by
    rw [post_onSession, Session.post_begin_nested hd]
  exact hpost.of_run_ok h

theorem post_begin (m : Manager (Recorded σ)) :
    (onSession Session.begin).Post
      (fun _ t => t.session.depth = m.session.depth + 1 ∧ t.session.connection.calls =
        m.session.connection.calls ++ if m.session.depth = 0 then [⟨.begin, none⟩] else [])
      (fun _ t => t.work = m.work ∧ t.session.depth = m.session.depth) m := by
  rw [post_onSession]
  exact (Session.post_begin_recorded m.session).mono (fun _ _ h => ⟨h.1, h.2.2⟩)
    fun _ _ h => ⟨rfl, h.2.1.1⟩

theorem Begins.depth (h : Begins m started) : started.session.depth = m.session.depth + 1 :=
  ((post_begin m).of_run_ok h).1

theorem Begins.calls (h : Begins m started) : started.session.connection.calls =
    m.session.connection.calls ++ if m.session.depth = 0 then [⟨.begin, none⟩] else [] :=
  ((post_begin m).of_run_ok h).2

theorem session_rolledBack {n : Nat} (hd : m.session.depth = n + 2) :
    (rolledBack m).session = { m.session with depth := n + 1, rollbackOnly := true } := by
  refine Action.post_iff_run (P := fun t : Manager (Recorded σ) => t.session = _) |>.mp ?_
  rw [post_onSession, Session.post_rollback_nested hd]

theorem Begins.within (h : Begins m started) (hblock : KeepsOpen block)
    (hlast : block.run started = (r, last)) : started.session.Within last.session := by
  have hkept := hblock started (by simp [h.depth])
  rwa [hlast] at hkept

theorem Begins.flush_within {r' : Except Error Unit} (h : Begins m started)
    (hblock : KeepsOpen block) (hlast : block.run started = (r, last))
    (hflushed : flush.run last = (r', flushed)) : last.session.Within flushed.session := by
  have hdepth : last.session.depth ≠ 0 := by simp [(h.within hblock hlast).depth, h.depth]
  have hkept := (Operation.within .flush last hdepth).1
  rwa [show (Operation.ask .flush).run last = _ from hflushed] at hkept

theorem Ending.within (h : Ending m block r t) (hd : m.session.depth ≠ 0)
    (hblock : KeepsOpen block) :
    m.session.Within t.session ∧ ∀ started, Begins m started →
      (block.run started).2.session.rollbackOnly = true ∨ (∃ e, r = .error e) →
      t.session.rollbackOnly = true := by
  obtain ⟨n, hn⟩ := Nat.exists_eq_succ_of_ne_zero hd
  have depth {started last : Manager (Recorded σ)} (hstarted : Begins m started)
      (hwithin : started.session.Within last.session) : last.session.depth = n + 2 := by
    rw [hwithin.depth, hstarted.depth, hn]
  have abandoned {started last : Manager (Recorded σ)} (hstarted : Begins m started)
      (hwithin : started.session.Within last.session) :
      m.session.Within (rolledBack last).session ∧
        (rolledBack last).session.rollbackOnly = true := by
    rw [session_rolledBack (depth hstarted hwithin)]
    rw [hstarted.nested hd] at hwithin
    exact ⟨hwithin.leave hn.symm (fun _ => rfl) rfl, rfl⟩
  cases h with
  | refused hbegin =>
    have hpost : (onSession Session.begin).Post (fun _ _ => True) (fun _ _ => False) m := by
      rw [post_onSession, Session.post_begin_nested hd]
      trivial
    exact (hpost.of_run_error hbegin).elim
  | failed hstarted hlast =>
    obtain ⟨hleft, hdoomed⟩ := abandoned hstarted (hstarted.within hblock hlast)
    exact ⟨hleft, fun _ _ _ => hdoomed⟩
  | unflushed hstarted hlast hflushed =>
    obtain ⟨hleft, hdoomed⟩ := abandoned hstarted
      ((hstarted.within hblock hlast).trans (hstarted.flush_within hblock hlast hflushed))
    exact ⟨hleft, fun _ _ _ => hdoomed⟩
  | @uncommitted _ _ flushed _ _ _ hstarted hlast hflushed hcommit =>
    have hkept := (hstarted.within hblock hlast).trans (hstarted.flush_within hblock hlast hflushed)
    have hpost : (onSession Session.commit).Post (fun _ _ => True) (fun _ _ => False) flushed := by
      rw [post_onSession, Session.post_commit_nested (depth hstarted hkept)]
      trivial
    exact (hpost.of_run_error hcommit).elim
  | @committed started _ flushed t _ hstarted hlast hflushed hcommit =>
    have hflush := hstarted.flush_within hblock hlast hflushed
    have hkept := (hstarted.within hblock hlast).trans hflush
    have hpost : (onSession Session.commit).Post (fun _ (t : Manager (Recorded σ)) =>
        t.session = { flushed.session with depth := n + 1 }) (fun _ _ => False) flushed := by
      rw [post_onSession, Session.post_commit_nested (depth hstarted hkept)]
    rw [hstarted.nested hd] at hkept
    rw [hpost.of_run_ok hcommit]
    refine ⟨hkept.leave hn.symm id rfl, fun started' hstarted' hdoomed => ?_⟩
    obtain rfl := hstarted.unique hstarted'
    rw [hlast] at hdoomed
    exact hflush.doomed (hdoomed.resolve_right (by simp))

/-- Inside of a transaction a block leaves it open, and dooms it with all that it abandons. -/
theorem Block.within (b : Block (Recorded σ) α) (m : Manager (Recorded σ))
    (hd : m.session.depth ≠ 0) :
    m.session.Within (b.run.run m).2.session ∧
      (b.Abandons m → (b.run.run m).2.session.rollbackOnly = true) := by
  induction b generalizing m with
  | done outcome =>
    exact ⟨Session.Works.within (Action.Within.liftExcept (R := Worked) outcome m), False.elim⟩
  | operation op next ih =>
    obtain ⟨hwithin, hdoomed⟩ := op.within m hd
    obtain ⟨hrest, hrest'⟩ := ih (op.ask.run m).1 (op.ask.run m).2 _ (by rwa [hwithin.depth])
    rw [Block.run_operation]
    exact ⟨hwithin.trans hrest, fun h => h.elim (fun h => hrest.doomed (hdoomed h)) hrest'⟩
  | transactional inner next ihInner ihNext =>
    have hinner : KeepsOpen inner.run := fun started hstarted => (ihInner started hstarted).1
    obtain ⟨hwithin, hdoomed⟩ := (ending inner.run m).within hd hinner
    rw [Block.run_transactional]
    obtain ⟨hrest, hrest'⟩ := ihNext _ _ ((Manager.transactional inner.run).run m).2
      (by rwa [hwithin.depth])
    refine ⟨hwithin.trans hrest, fun h => h.elim (fun h => hrest.doomed ?_) hrest'⟩
    obtain ⟨started, hstarted, h⟩ := h
    refine hdoomed started hstarted (h.imp_left fun habandons => ?_)
    exact (ihInner started (by simp [hstarted.depth])).2 habandons

theorem depth_rolledBack {d : Nat} (hd : m.session.depth = d + 1) :
    (rolledBack m).session.depth = d := by
  refine Action.post_iff_run (P := fun t : Manager (Recorded σ) => t.session.depth = d) |>.mp ?_
  have h := (Action.post_attempt _).mp (Session.post_rollback_recorded hd)
  rw [post_onSession]
  exact h.mono (fun _ _ h => h.1) fun _ _ h => h.1

theorem post_commit_step (m : Manager (Recorded σ)) :
    (onSession Session.commit).Post
      (fun _ t => Session.Stepped m.session t.session .commit none)
      (fun e t => Session.Stepped m.session t.session .commit (some e)) m := by
  rw [post_onSession]
  exact Session.post_step_commit m.session

theorem depth_of_commit_failed {e : Error} (hd : m.session.depth ≠ 0)
    (h : (onSession Session.commit).run m = (.error e, t)) :
    m.session.depth = t.session.depth + 1 := by
  obtain ⟨calls, -, hstep⟩ := (post_commit_step m).of_run_error h
  cases hstep with
  | work hr => simp [Session.Request.isWork] at hr
  | outside _ h0 => exact absurd h0 hd
  | uncommitted h1 _ h0 => rw [h1, h0]
  | reversed h1 _ h0 => rw [h1, h0]

theorem Ending.undone {e : Error} (h : Ending m block (.error e) t) (hblock : KeepsOpen block) :
    t.work = m.work ∧ t.session.depth = m.session.depth ∧
      ∀ started cause last, Begins m started → block.run started = (.error cause, last) →
        e = cause := by
  have only {started started' last last' : Manager (Recorded σ)} {r r' : Except Error α}
      (hstarted : Begins m started) (hlast : block.run started = (r, last))
      (hstarted' : Begins m started') (hlast' : block.run started' = (r', last')) : r = r' := by
    obtain rfl := hstarted.unique hstarted'
    exact (Prod.mk.inj (hlast.symm.trans hlast')).1
  cases h with
  | refused hbegin =>
    obtain ⟨hwork, hdepth⟩ := (post_begin m).of_run_error hbegin
    refine ⟨hwork, hdepth, fun started _ _ hstarted _ => ?_⟩
    have hbegun := (Prod.mk.inj (hbegin.symm.trans hstarted)).1
    simp at hbegun
  | failed hstarted hlast =>
    refine ⟨rfl, ?_, fun _ _ _ hstarted' hlast' => ?_⟩
    · exact depth_rolledBack ((hstarted.within hblock hlast).depth.trans hstarted.depth)
    · exact Except.error.inj (only hstarted hlast hstarted' hlast')
  | unflushed hstarted hlast hflushed =>
    have hkept := (hstarted.within hblock hlast).trans (hstarted.flush_within hblock hlast hflushed)
    refine ⟨rfl, depth_rolledBack (hkept.depth.trans hstarted.depth), ?_⟩
    intro _ _ _ hstarted' hlast'
    have hanswer := only hstarted hlast hstarted' hlast'
    simp at hanswer
  | uncommitted hstarted hlast hflushed hcommit =>
    have hkept := (hstarted.within hblock hlast).trans (hstarted.flush_within hblock hlast hflushed)
    have hdepth := hkept.depth.trans hstarted.depth
    have hended := depth_of_commit_failed (by simp [hdepth]) hcommit
    refine ⟨rfl, by simpa [hdepth] using hended.symm, ?_⟩
    intro _ _ _ hstarted' hlast'
    have hanswer := only hstarted hlast hstarted' hlast'
    simp at hanswer

theorem Ending.outermost {x : α} (h : Ending m block (.ok x) t) (hd : m.session.depth = 0)
    (hblock : KeepsOpen block) :
    (∃ works, t.session.connection.calls =
        m.session.connection.calls ++ ⟨.begin, none⟩ :: works ++ [⟨.commit, none⟩] ∧
      ∀ c ∈ works, c.isWork) ∧
      ∃ started, Begins m started ∧ (block.run started).2.session.rollbackOnly = false := by
  cases h with
  | @committed started _ flushed _ _ hstarted hlast hflushed hcommit =>
    have hflush := hstarted.flush_within hblock hlast hflushed
    have hkept := (hstarted.within hblock hlast).trans hflush
    have hdepth : flushed.session.depth = 1 := by rw [hkept.depth, hstarted.depth, hd]
    obtain ⟨calls, hcalls, hstep⟩ := (post_commit_step flushed).of_run_ok hcommit
    cases hstep with
    | work hr => simp [Session.Request.isWork] at hr
    | released hone hmore => omega
    | committed _ hsound _ _ =>
      obtain ⟨works, hworks, hwork⟩ := hkept.calls
      refine ⟨⟨works, ?_, hwork⟩, started, hstarted, ?_⟩
      · rw [hcalls, hworks, hstarted.calls, if_pos hd]
        simp
      · rw [hlast]
        refine Bool.eq_false_iff.mpr fun hdoomed => ?_
        simp [hflush.doomed hdoomed] at hsound

/-- A block that fails as a transaction leaves the unit of work and the open transactions as they
were, and its own error is answered as it is. An outermost one that succeeds has begun and committed
once, and nothing in it has failed after it had begun. -/
theorem transactional_all_or_nothing (b : Block (Recorded σ) α) (m : Manager (Recorded σ)) :
    (∀ e t, (transactional b.run).run m = (.error e, t) →
      t.work = m.work ∧ t.session.depth = m.session.depth ∧
        ∀ started cause last, Begins m started → b.run.run started = (.error cause, last) →
          e = cause) ∧
    (∀ x t, m.session.depth = 0 → (transactional b.run).run m = (.ok x, t) →
      (∃ works, t.session.connection.calls =
          m.session.connection.calls ++ ⟨.begin, none⟩ :: works ++ [⟨.commit, none⟩] ∧
        ∀ c ∈ works, c.isWork) ∧
      ∃ started, Begins m started ∧ ¬ b.Abandons started) := by
  have hblock : KeepsOpen b.run := fun m hd => (b.within m hd).1
  have hending := ending b.run m
  refine ⟨fun e t hrun => ?_, fun x t hd hrun => ?_⟩
  · rw [hrun] at hending
    exact hending.undone hblock
  · rw [hrun] at hending
    obtain ⟨hcalls, started, hstarted, hsound⟩ := hending.outermost hd hblock
    refine ⟨hcalls, started, hstarted, fun habandons => ?_⟩
    have hdoomed := (b.within started (by simp [hstarted.depth])).2 habandons
    simp [hdoomed] at hsound

open Sample in
def newcomer : Manager (Recorded Scripted) := manager [userObject none "Ann"] { inner := {} }

open Sample in
def registering (swallows : Bool) : Block (Recorded Scripted) Unit :=
  .operation (.persist ⟨0⟩) fun _ _ =>
    if swallows then
      .transactional (.done (.error (.state (.notManaged ⟨0⟩))) : Block _ Unit)
        fun _ _ => .done (.ok ())
    else .done (.ok ())

theorem transactional_all_or_nothing_newcomer :
    (∃ e t, (transactional (registering true).run).run newcomer = (.error e, t) ∧
      t.work = newcomer.work ∧ t.session.depth = newcomer.session.depth) ∧
    ∃ x t works, (transactional (registering false).run).run newcomer = (.ok x, t) ∧
      t.session.connection.calls =
        newcomer.session.connection.calls ++ ⟨.begin, none⟩ :: works ++ [⟨.commit, none⟩] ∧
      ∃ started, Begins newcomer started ∧ ¬ (registering false).Abandons started := by
  have hfailed : ((transactional (registering true).run).run newcomer).1.isOk = false := by
    decide +kernel
  have hdone : ((transactional (registering false).run).run newcomer).1.isOk = true := by
    decide +kernel
  constructor
  · rcases hrun : (transactional (registering true).run).run newcomer with ⟨e | x, t⟩
    · have h := (transactional_all_or_nothing (registering true) newcomer).1 e t hrun
      exact ⟨e, t, rfl, h.1, h.2.1⟩
    · simp [hrun, Except.isOk, Except.toBool] at hfailed
  · rcases hrun : (transactional (registering false).run).run newcomer with ⟨e | x, t⟩
    · simp [hrun, Except.isOk, Except.toBool] at hdone
    · obtain ⟨⟨works, hcalls, -⟩, hstarted⟩ :=
        (transactional_all_or_nothing (registering false) newcomer).2 x t rfl hrun
      exact ⟨x, t, works, rfl, hcalls, hstarted⟩

end Manager
end Persistence
