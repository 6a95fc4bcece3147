import Persistence.Proofs.Bookkeeping

/-!
A failed flush. `Breaks` lists the steps at which a flush can fail, each at the state that the
steps before it have led to. Whichever it is, the unit of work and the depth of transactions are as
before, a transaction that was begun is rolled back by the last call that is made, and the root of
the error is that of the step.
-/

namespace Persistence

open Schema (Metadata Snapshot)
open Persistence.Action (post_of_forall)

variable {σ : Type}

namespace UnitOfWork

variable [Connection σ] {w : UnitOfWork}

/-- The writing of a row fails at one of its steps with the given error. -/
inductive RowBreaks (w : UnitOfWork) : RowChange → Environment σ → Error → Prop
  /-- The values or the key for the statement cannot be had. -/
  | unprepared {r : RowChange} {env : Environment σ} {e : Error} :
      w.statement env.heap r = .error e → RowBreaks w r env e
  /-- The connection refuses the statement. -/
  | refused {r : RowChange} {env : Environment σ} {e : Error} {s : Sql.Statement} {c : σ} :
      w.statement env.heap r = .ok s →
      (Connection.update s.sql s.parameters).run env.session.connection = (.error e, c) →
      RowBreaks w r env e
  /-- The statement has been taken, but the generated identifier is not told. -/
  | untold {oid : Oid} {env taken : Environment σ} {e : Error} {s : Sql.Statement} {n : Nat}
      {t : Tracked} {c : σ} :
      w.statement env.heap (.insert oid) = .ok s →
      (Environment.onSession (Session.execute s)).run env = (.ok n, taken) →
      w.require oid = .ok t → t.metadata.generatesIdentity = true →
      Connection.lastInsertId.run taken.session.connection = (.error e, c) →
      RowBreaks w (.insert oid) env e
  /-- The generated identifier cannot be written onto the instance. -/
  | unassigned {oid : Oid} {env taken told : Environment σ} {e : Error} {s : Sql.Statement}
      {n : Nat} {t : Tracked} {id : String} :
      w.statement env.heap (.insert oid) = .ok s →
      (Environment.onSession (Session.execute s)).run env = (.ok n, taken) →
      w.require oid = .ok t → t.metadata.generatesIdentity = true →
      (Environment.onSession Session.lastInsertId).run taken = (.ok id, told) →
      told.heap.identify t.metadata oid id = .error e →
      RowBreaks w (.insert oid) env e
  /-- The inserted instance has no values, no key, or the key of another instance. -/
  | unsettled {oid : Oid} {env taken received : Environment σ} {e : Error} {s : Sql.Statement}
      {n : Nat} {t : Tracked} :
      w.statement env.heap (.insert oid) = .ok s →
      (Environment.onSession (Session.execute s)).run env = (.ok n, taken) →
      w.require oid = .ok t → (receive t.metadata oid).run taken = (.ok (), received) →
      w.settle t.metadata oid received.heap = .error e →
      RowBreaks w (.insert oid) env e
  /-- The updated instance has no key. -/
  | unkeyed {u : PendingUpdate} {env taken : Environment σ} {e : Error} {s : Sql.Statement}
      {n : Nat} {t : Tracked} :
      w.statement env.heap (.update u) = .ok s →
      (Environment.onSession (Session.execute s)).run env = (.ok n, taken) →
      w.require u.oid = .ok t → IdentityKey.ofSnapshot t.metadata u.current = .error e →
      RowBreaks w (.update u) env e

/-- A flush fails at one of its steps with the given error. -/
inductive Breaks (w : UnitOfWork) (env : Environment σ) : Error → Prop
  /-- The changes cannot be extracted. -/
  | changes {e : Error} : w.changeSet env.heap = .error e → Breaks w env e
  | begin {e : Error} {c : ChangeSet} {s : σ} : w.changeSet env.heap = .ok c →
      c.isEmpty = false → env.session.depth = 0 →
      Connection.begin.run env.session.connection = (.error e, s) → Breaks w env e
  /-- A row cannot be written; those before it have been. -/
  | row {e : Error} {c : ChangeSet} {inner mid : Environment σ} {before after : List RowChange}
      {r : RowChange} {done : List (List Written)} : w.changeSet env.heap = .ok c →
      (Environment.onSession Session.begin).run env = (.ok (), inner) →
      changedRows c = before ++ r :: after → (before.mapM w.send).run inner = (.ok done, mid) →
      w.RowBreaks r mid e → Breaks w env e
  | commit {e : Error} {c : ChangeSet} {inner done : Environment σ} {written : List Written}
      {s : σ} : w.changeSet env.heap = .ok c → env.session.depth = 0 →
      (Environment.onSession Session.begin).run env = (.ok (), inner) →
      (w.write c).run inner = (.ok written, done) →
      Connection.commit.run done.session.connection = (.error e, s) → Breaks w env e

omit [Connection σ] in
theorem exists_require {h : Heap} {r : RowChange} {s : Sql.Statement}
    (hs : w.statement h r = .ok s) : ∃ t, w.require r.oid = .ok t := by
  cases r with
  | insert oid =>
    cases ht : w.require oid with
    | ok t => exact ⟨t, ht⟩
    | error e => simp [statement, ht, bind, Except.bind] at hs
  | update u =>
    cases ht : w.require u.oid with
    | ok t => exact ⟨t, ht⟩
    | error e => simp [statement, ht, bind, Except.bind] at hs
  | delete oid =>
    cases ht : w.require oid with
    | ok t => exact ⟨t, ht⟩
    | error e => simp [statement, ht, bind, Except.bind] at hs

theorem post_receive_works (m : Metadata) (oid : Oid) (env : Environment (Recorded σ)) :
    (receive m oid).Post (fun _ t => env.session.Works t.session)
      (fun e t => env.session.Works t.session ∧ m.generatesIdentity = true ∧
        ((∃ c, Connection.lastInsertId.run env.session.connection = (.error e, c)) ∨
          ∃ id told, (Environment.onSession Session.lastInsertId).run env = (.ok id, told) ∧
            told.heap.identify m oid id = .error e)) env := by
  have hlast := Environment.post_onSession (Session.post_lastInsertId_works env.session)
  rw [receive, Action.post_ite]
  refine ⟨fun hg => ?_, fun _ => .refl _⟩
  rw [Action.post_bind, Action.post_iff]
  refine ⟨fun id told htold => ?_, fun e t ht => ?_⟩
  · obtain ⟨-, hworks⟩ := hlast.of_run_ok htold
    simp only [Environment.writeIdentifier_eq, Action.post_bind, Action.post_get,
      Action.post_liftExcept, Action.post_modify]
    exact ⟨fun _ _ => hworks, fun e he => ⟨hworks, hg, .inr ⟨id, told, htold, he⟩⟩⟩
  · obtain ⟨-, hworks, hc⟩ := hlast.of_run_error ht
    exact ⟨hworks, hg, .inl hc⟩

theorem post_send (r : RowChange) (env : Environment (Recorded σ)) :
    (w.send r).Post (fun _ t => env.session.Works t.session)
      (fun e t => env.session.Works t.session ∧ w.RowBreaks r env e) env := by
  simp only [send, Action.post_bind, Action.post_get, Action.post_liftExcept, Action.post_discard]
  refine ⟨fun s hs => ?_, fun e he => ⟨.refl _, .unprepared he⟩⟩
  obtain ⟨t, ht⟩ := exists_require hs
  have hsent := Environment.post_onSession (Session.post_execute_works env.session s)
  rw [Action.post_iff]
  refine ⟨fun n taken htaken => ?_, fun e failed hfailed => ?_⟩
  case refine_2 =>
    obtain ⟨-, hworks, c, hc⟩ := hsent.of_run_error hfailed
    exact ⟨hworks, .refused hs hc⟩
  obtain ⟨-, hworks⟩ := hsent.of_run_ok htaken
  cases r with
  | insert oid =>
    simp only [conclude, Action.post_bind, Action.post_get, Action.post_liftExcept,
      Action.post_pure, show w.require oid = .ok t from ht, Except.ok.injEq, forall_eq',
      reduceCtorEq, false_implies, implies_true, and_true]
    rw [Action.post_iff]
    refine ⟨fun _ received hreceived => ?_, fun e failed hfailed => ?_⟩
    · have hworks' := hworks.trans ((post_receive_works t.metadata oid taken).of_run_ok hreceived)
      exact ⟨fun _ _ => hworks', fun e he => ⟨hworks', .unsettled hs htaken ht hreceived he⟩⟩
    · obtain ⟨hworks', hg, ⟨c, hc⟩ | ⟨id, told, htold, he⟩⟩ :=
        (post_receive_works t.metadata oid taken).of_run_error hfailed
      · exact ⟨hworks.trans hworks', .untold hs htaken ht hg hc⟩
      · exact ⟨hworks.trans hworks', .unassigned hs htaken ht hg htold he⟩
  | update u =>
    simp only [conclude, Action.post_bind, Action.post_liftExcept, Action.post_pure,
      show w.require u.oid = .ok t from ht, Except.ok.injEq, forall_eq', reduceCtorEq,
      false_implies, implies_true, and_true]
    exact ⟨fun _ _ => hworks, fun e he => ⟨hworks, .unkeyed hs htaken ht he⟩⟩
  | delete oid => exact hworks

theorem post_write_works (c : ChangeSet) (env : Environment (Recorded σ)) :
    (w.write c).Post (fun _ t => env.session.Works t.session)
      (fun e t => env.session.Works t.session ∧ ∃ before r after done mid,
        changedRows c = before ++ r :: after ∧ (before.mapM w.send).run env = (.ok done, mid) ∧
          w.RowBreaks r mid e) env := by
  rw [write_eq, Action.post_map]
  refine (Action.post_mapM (J := fun before done t => env.session.Works t.session ∧
    (before.mapM w.send).run env = (.ok done, t)) ⟨.refl _, rfl⟩ ?_).mono (fun _ _ h => h.1)
    fun _ _ => id
  intro before r after done mid hrows ⟨hworks, hdone⟩
  have hsend := Action.post_iff.mp (post_send (w := w) r mid)
  refine Action.post_iff.mpr ⟨fun xs t ht => ?_, fun e t ht => ?_⟩
  · exact ⟨hworks.trans (hsend.1 xs t ht), Action.run_mapM_concat hdone ht⟩
  · obtain ⟨hworks', hbreaks⟩ := hsend.2 e t ht
    exact ⟨hworks.trans hworks', before, r, after, done, mid, hrows, hdone, hbreaks⟩

/-- The calls of a failed flush outside of all transactions: none, or a begin that is refused, or a
begin that is followed by one rollback, which is the last call. -/
inductive Undone : List CallRecord → Prop
  | untouched : Undone []
  | refused (e : Error) : Undone [⟨.begin, some e⟩]
  | written (works : List CallRecord) (failure : Option Error) : (∀ c ∈ works, c.isWork) →
      Undone (⟨.begin, none⟩ :: works ++ [⟨.rollback, failure⟩])
  | committed (works : List CallRecord) (e : Error) (failure : Option Error) :
      (∀ c ∈ works, c.isWork) →
      Undone (⟨.begin, none⟩ :: works ++ [⟨.commit, some e⟩, ⟨.rollback, failure⟩])

/-- What the calls of a failed flush come to, by the number of open transactions. -/
def UndoneAt (depth : Nat) (calls : List CallRecord) : Prop :=
  (depth = 0 → Undone calls) ∧ (depth ≠ 0 → ∀ c ∈ calls, c.isWork)

theorem post_commit_recorded (env : Environment (Recorded σ)) (hb : env.session.Balanced) :
    w.commit.Post
      (fun _ t => t.session.depth = env.session.depth ∧ t.session.Balanced)
      (fun e t => t.session.depth = env.session.depth ∧ t.session.Balanced ∧
        (∃ calls, t.session.connection.calls = env.session.connection.calls ++ calls ∧
          UndoneAt env.session.depth calls) ∧
        ∃ cause, w.Breaks env cause ∧ e.root = cause.root) env := by
  simp only [commit, Action.post_bind, Action.post_get, Action.post_liftExcept, Action.post_ite,
    Action.post_pure]
  refine ⟨fun c hc => ⟨fun _ => ⟨trivial, hb⟩, fun hne => ?_⟩, fun e he => ?_⟩
  case refine_2 =>
    exact ⟨trivial, hb, ⟨[], by simp, fun _ => .untouched, fun _ => by simp⟩, e, .changes he, rfl⟩
  have hbegin := Environment.post_onSession (Session.post_begin_recorded env.session)
  rw [Action.post_iff]
  refine ⟨fun _ inner hinner => ?_, fun e failed hfailed => ?_⟩
  case refine_2 =>
    obtain ⟨-, hd, hn, cause, conn, hrun, rfl, hcalls⟩ := hbegin.of_run_error hfailed
    refine ⟨hn.1, hn.balanced hb, ⟨_, hcalls, fun _ => .refused cause, fun h => absurd hd h⟩, cause,
      .begin hc (by simpa using hne) hd hrun, Error.root_context ..⟩
  obtain ⟨-, hdepth, honly, hcalls⟩ := hbegin.of_run_ok hinner
  have hwrite := post_write_works (w := w) c inner
  rw [Action.post_attempt, Action.post_iff]
  refine ⟨fun written done hwritten => ?_, fun e failed hfailed => ?_⟩
  · obtain ⟨⟨hd, hr⟩, works, hworks, hwork⟩ := hwrite.of_run_ok hwritten
    have hcommit := Environment.post_onSession (Session.post_commit_recorded (hd.trans hdepth)
      fun h => by rw [hr, honly, hb h])
    simp only [Action.post_bind, Action.post_pure]
    refine hcommit.mono (fun _ t ht => ht.2) fun e t ht => ?_
    obtain ⟨-, h0, ht0, hbal, cause, conn, failure, hrun, rfl, hcalls'⟩ := ht
    refine ⟨ht0.trans h0.symm, hbal, ⟨_, ?_, fun _ => .committed works cause failure hwork,
      fun h => absurd h0 h⟩, cause, .commit hc h0 hinner hwritten hrun, Error.root_context ..⟩
    rw [hcalls', hworks, hcalls, if_pos h0]
    simp
  · obtain ⟨⟨⟨hd, -⟩, works, hworks, hwork⟩, before, r, after, xss, mid, hrows, hmid, hbreaks⟩ :=
      hwrite.of_run_error hfailed
    have hback := Environment.post_onSession
      ((Action.post_attempt _).mp (Session.post_rollback_recorded (hd.trans hdepth)))
    simp only [Action.post_bind, Action.post_discard, Action.post_attempt, Action.post_throw]
    -- the same holds whether the rollback itself succeeds or fails
    refine hback.mono (fun _ t ht => ?_) fun _ t ht => ?_
    all_goals
      obtain ⟨-, htd, hbal, failure, hcalls'⟩ := ht
      refine ⟨htd, hbal, ?_, e, .row hc hinner hrows hmid hbreaks, Error.root_context ..⟩
      by_cases h0 : env.session.depth = 0
      · refine ⟨_, ?_, fun _ => .written works failure hwork, fun h => absurd h0 h⟩
        rw [hcalls', hworks, hcalls, if_pos h0, if_pos h0]
        simp
      · refine ⟨works, ?_, fun h => absurd h h0, fun _ => hwork⟩
        rw [hcalls', hworks, hcalls, if_neg h0, if_neg h0]
        simp

end UnitOfWork

namespace Manager

variable [Connection σ] {m m' : Manager (Recorded σ)} {e : Error}

theorem post_flush_recorded (m : Manager (Recorded σ)) (hb : m.session.Balanced) :
    flush.Post
      (fun _ t => t.session.depth = m.session.depth ∧ t.session.Balanced)
      (fun e t => t.session.depth = m.session.depth ∧ t.session.Balanced ∧
        (∃ calls, t.session.connection.calls = m.session.connection.calls ++ calls ∧
          UnitOfWork.UndoneAt m.session.depth calls) ∧
        e.problem = .flush ∧ ∃ cause, m.work.Breaks m.toEnvironment cause ∧ e.root = cause.root) m := by
  rw [post_flush_iff]
  refine (UnitOfWork.post_commit_recorded m.toEnvironment hb).mono (fun _ _ => id) ?_
  rintro e t ⟨hd, hbal, hcalls, cause, hbreaks, hroot⟩
  exact ⟨hd, hbal, hcalls, rfl, cause, hbreaks, (Error.root_context ..).trans hroot⟩

theorem kept_balanced (allowed : Operation → Manager (Recorded σ) → Prop) :
    Kept allowed fun m => m.session.Balanced where
  operation op m _ hm := by
    by_cases hop : op = .flush
    · subst hop
      refine Action.post_iff_run (P := fun t : Manager (Recorded σ) => t.session.Balanced) |>.mp ?_
      exact (post_flush_recorded m hm).mono (fun _ _ h => h.2) fun _ _ h => h.2.1
    · exact ((effect op m).2 hop).balanced hm
  begin _ hm := Session.balanced_begin hm
  commit _ hm := Session.balanced_commit hm
  rollback _ hm := Session.balanced_rollback hm
  restore _ _ _ hm := hm

theorem Reachable.balanced (h : Reachable anyOperation m) : m.session.Balanced :=
  (kept_balanced anyOperation).reachable (fun _ _ _ _ hbuild _ => (build_start hbuild).2.2) h

/-- A failed flush leaves the unit of work and the depth of transactions as they were. Outside of
all transactions it has made no change or rolled it back with its last call. Its error is that of
the flush and goes back to the step that failed. -/
theorem failed_flush (h : Reachable anyOperation m) (hrun : flush.run m = (.error e, m')) :
    m'.work = m.work ∧ m'.session.depth = m.session.depth ∧
      (∃ calls, m'.session.connection.calls = m.session.connection.calls ++ calls ∧
        UnitOfWork.UndoneAt m.session.depth calls) ∧
      e.problem = .flush ∧ ∃ cause, m.work.Breaks m.toEnvironment cause ∧ e.root = cause.root := by
  obtain ⟨hd, -, hcalls, hflush, hcause⟩ := (post_flush_recorded m h.balanced).of_run_error hrun
  exact ⟨(post_flush m).of_run_error hrun, hd, hcalls, hflush, hcause⟩

open Sample in
def refused : Manager (Recorded Scripted) :=
  (Operation.persist ⟨0⟩).after (manager [userObject none "Ann"] { inner := ⟨[], true⟩ })

theorem failed_flush_refused : ∃ e m', flush.run refused = (.error e, m') ∧
    e.root = .validation (.other "read only") ∧
    m'.session.connection.calls.map CallRecord.call =
      [.begin, .update "INSERT INTO users (name) VALUES (?)" [.text "Ann"], .rollback] ∧
    m'.work = refused.work ∧ m'.session.depth = refused.session.depth ∧ e.problem = .flush ∧
    ∃ cause, refused.work.Breaks refused.toEnvironment cause ∧ e.root = cause.root := by
  have hreach : Reachable anyOperation refused := by
    have built : Reachable anyOperation (Sample.manager [Sample.userObject none "Ann"]
      ({ inner := ⟨[], true⟩ } : Recorded Sample.Scripted)) := .built (Sample.build_manager ..)
    exact built.run ((Runs.done _).operation (.persist ⟨0⟩) trivial)
  have hrun : flush.run refused = (.error ⟨.flush, [.transaction .changesRolledBack,
      .validation (.other "read only")]⟩, (flush.run refused).2) := rfl
  obtain ⟨hwork, hdepth, -, hflush, hcause⟩ := failed_flush hreach hrun
  exact ⟨_, _, hrun, rfl, by decide +kernel, hwork, hdepth, hflush, hcause⟩

end Manager
end Persistence
