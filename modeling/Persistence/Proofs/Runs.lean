import Persistence.Proofs.Requests

/-!
Runs of a manager. A run is any sequence of operations and transactional blocks, each of which may
succeed or fail; a block runs operations and blocks of its own. Between two operations a caller may
do anything to the instances.

What every operation does to the unit of work is said once here. A property that all operations and
the ends of blocks keep is kept by every run.
-/

namespace Persistence.Manager

open Schema (Metadata Snapshot)
open Persistence.Action (post_of_forall)

variable {σ α : Type} {m m' : Manager σ}

theorem post_persist (oid : Oid) (m : Manager σ) :
    (persist oid).Post
      (fun _ t => ∃ md described, (metadata (m.heap.typeOf oid)).run m = (.ok md, described) ∧
        t = { m with registry := t.registry, work := m.work.persist oid md })
      (fun _ t => t = { m with registry := t.registry }) m := by
  simp only [persist, updateWork, Action.post_bind, Action.post_get, Action.post_liftExcept,
    Action.post_modify]
  rw [Action.post_iff]
  refine ⟨fun md t ht => ?_, fun e t ht => ?_⟩
  · have hkept := (post_metadata _ m).of_run_ok ht
    refine ⟨fun _ _ => ⟨md, t, ht, ?_⟩, fun _ _ => hkept⟩
    rw [hkept]
  · exact (post_metadata _ m).of_run_error ht

theorem post_remove (oid : Oid) (m : Manager σ) :
    (remove oid).Post
      (fun _ t => ∃ w, m.work.remove oid = .ok w ∧ t = { m with registry := t.registry, work := w })
      (fun _ t => t = { m with registry := t.registry }) m := by
  simp only [remove, updateWork, Action.post_bind, Action.post_get, Action.post_discard,
    Action.post_liftExcept, Action.post_modify]
  refine (post_metadata _ m).mono (fun md t ht => ?_) fun _ _ => id
  rw [ht]
  exact ⟨fun w hw => ⟨w, hw, rfl⟩, fun _ _ => rfl⟩

variable [Connection σ]

theorem post_find (type : EntityType) (id : Identifier) (m : Manager σ) :
    (find type id).Post
      (fun _ t => m.session.SameNesting t.session ∧ (t.work = m.work ∨ ∃ oid md key values,
        m.work.find? key = none ∧ key.Belongs md ∧ t.work = m.work.track oid md key values))
      (fun _ t => m.session.SameNesting t.session ∧ t.work = m.work) m := by
  refine (post_find_found type id m).mono (fun _ t ht => ?_) fun _ _ ht => ⟨ht.1, ht.2.1⟩
  cases ht with
  | tracked hmd =>
    rw [(post_metadata type m).of_run_ok hmd]
    exact ⟨⟨rfl, rfl⟩, .inl rfl⟩
  | absent hmd _ _ hread =>
    have hdescribed := (post_metadata type m).of_run_ok hmd
    obtain ⟨hkept, hnesting⟩ := (post_loadRow _ _ _).of_run_ok hread
    rw [hdescribed] at hkept hnesting
    exact ⟨hnesting, .inl (by rw [hkept])⟩
  | loaded hmd hkey hfree hread =>
    have hdescribed := (post_metadata type m).of_run_ok hmd
    obtain ⟨-, hnesting⟩ := (post_loadRow _ _ _).of_run_ok hread
    rw [hdescribed] at hnesting
    exact ⟨hnesting, .inr ⟨_, _, _, _, hfree, IdentityKey.belongs_of_ofIdentifier hkey, rfl⟩⟩

theorem post_refresh (oid : Oid) (m : Manager σ) :
    (refresh oid).Post
      (fun _ t => m.session.SameNesting t.session ∧ ∃ md key values, m.Carries oid key ∧
        key.Belongs md ∧ t.work = (m.work.detach oid).track oid md key values)
      (fun _ t => m.session.SameNesting t.session ∧
        (t.work = m.work ∨ t.work = m.work.detach oid)) m := by
  refine (post_refresh_refreshed oid m).mono (fun _ t ht => ?_) fun _ _ => id
  obtain ⟨hmd, hx, hids, hkey, hread, -, -, -⟩ := ht
  have hdescribed := (post_metadata _ m).of_run_ok hmd
  obtain ⟨-, hnesting⟩ := (post_loadRow _ _ _).of_run_ok hread
  rw [hdescribed] at hnesting
  exact ⟨hnesting, _, _, _, ⟨_, _, _, _, hmd, hx, hids, hkey⟩,
    IdentityKey.belongs_of_ofSnapshot hkey, rfl⟩

theorem post_flush_iff {Q : Unit → Manager σ → Prop} {E : Error → Manager σ → Prop} :
    flush.Post Q E m ↔ m.work.commit.Post
      (fun w env => Q ⟨⟩ { m with toEnvironment := env, work := w })
      (fun e env => E (e.context .flush) { m with toEnvironment := env }) m.toEnvironment := by
  simp only [flush, inEnvironment, updateWork, Action.post_bind, Action.post_get,
    Action.post_onPart, Action.post_explain, Action.post_modify]

theorem post_flush (m : Manager σ) :
    flush.Post
      (fun _ t => (t.work = m.work ∧ ¬ ∃ written, m.work.Writes m.toEnvironment written) ∨
        ∃ written, m.work.Writes m.toEnvironment written ∧
          t.work = m.work.apply written m.work.deletions)
      (fun _ t => t.work = m.work) m := by
  rw [post_flush_iff]
  exact (UnitOfWork.post_commit m.toEnvironment).mono (fun _ _ h => h.writes) fun _ _ _ => rfl

inductive Operation
  /-- The caller changes instances, makes new ones or holds some of them. -/
  | edit (heap : Heap)
  | find (type : EntityType) (id : Identifier)
  | persist (oid : Oid)
  | remove (oid : Oid)
  | refresh (oid : Oid)
  | detach (oid : Oid)
  | clear
  | flush
  | describe (type : EntityType)
  | query (sql : String) (parameters : List Value)
  | createQuery (source : String)
  | clearMetadata
  | clearQueries

/-- What an operation does; its answer is of no account here. -/
def Operation.run : Operation → ManagerM σ Unit
  | edit heap => changeHeap fun _ => heap
  | find type id => discard (Manager.find type id)
  | persist oid => Manager.persist oid
  | remove oid => Manager.remove oid
  | refresh oid => Manager.refresh oid
  | detach oid => Manager.detach oid
  | clear => Manager.clear
  | flush => Manager.flush
  | describe type => discard (metadata type)
  | query sql parameters => discard (onSession (Session.query sql parameters))
  | createQuery source => discard (Manager.createQuery source)
  | clearMetadata => Manager.clearMetadata
  | clearQueries => Manager.clearQueries

/-- The state that an operation leaves, whether it succeeds or fails. -/
def Operation.after (op : Operation) (m : Manager σ) : Manager σ := (op.run.run m).2

inductive Effect (m : Manager σ) : Operation → UnitOfWork → Prop
  | unchanged {op : Operation} : Effect m op m.work
  | found {type : EntityType} {id : Identifier} {oid : Oid} {md : Metadata} {key : IdentityKey}
      {values : Snapshot} : m.work.find? key = none → key.Belongs md →
      Effect m (.find type id) (m.work.track oid md key values)
  | persisted {oid : Oid} {md : Metadata} : Effect m (.persist oid) (m.work.persist oid md)
  | removed {oid : Oid} {w : UnitOfWork} : m.work.remove oid = .ok w → Effect m (.remove oid) w
  | refreshed {oid : Oid} {md : Metadata} {key : IdentityKey} {values : Snapshot} {t : Manager σ} :
      (refresh oid).run m = (.ok ⟨⟩, t) → m.Carries oid key → key.Belongs md →
      Effect m (.refresh oid) ((m.work.detach oid).track oid md key values)
  | lost {oid : Oid} : Effect m (.refresh oid) (m.work.detach oid)
  | detached {oid : Oid} : Effect m (.detach oid) (m.work.detach oid)
  | cleared : Effect m .clear .empty
  | flushed {written : List Written} {t : Manager σ} : flush.run m = (.ok ⟨⟩, t) →
      m.work.Writes m.toEnvironment written → Effect m .flush (m.work.apply written m.work.deletions)

theorem effect (op : Operation) (m : Manager σ) : Effect m op (op.after m).work ∧
    (op ≠ .flush → m.session.SameNesting (op.after m).session) := by
  have still {w : UnitOfWork} (h : w = m.work) : Effect m op w := h ▸ Effect.unchanged
  have same {s : Session σ} (h : s = m.session) : op ≠ .flush → m.session.SameNesting s :=
    fun _ => h ▸ ⟨rfl, rfl⟩
  let P (t : Manager σ) : Prop :=
    Effect m op t.work ∧ (op ≠ .flush → m.session.SameNesting t.session)
  suffices h : op.run.Post (fun _ => P) (fun _ => P) m from Action.post_iff_run (P := P) |>.mp h
  cases op with
  | edit heap => exact ⟨.unchanged, same rfl⟩
  | find type id =>
    rw [Operation.run, Action.post_discard]
    refine (post_find type id m).mono (fun _ t ht => ⟨?_, fun _ => ht.1⟩) fun _ t ht =>
      ⟨still ht.2, fun _ => ht.1⟩
    obtain ⟨-, ht | ⟨oid, md, key, values, hfree, hkey, ht⟩⟩ := ht
    · exact still ht
    · exact ht ▸ .found hfree hkey
  | persist oid =>
    refine (post_persist oid m).mono (fun _ t ht => ?_) fun _ t ht => ?_
    · obtain ⟨md, -, -, ht⟩ := ht
      rw [ht]
      exact ⟨.persisted, same rfl⟩
    · rw [ht]
      exact ⟨.unchanged, same rfl⟩
  | remove oid =>
    refine (post_remove oid m).mono (fun _ t ht => ?_) fun _ t ht => ?_
    · obtain ⟨w, hw, ht⟩ := ht
      rw [ht]
      exact ⟨.removed hw, same rfl⟩
    · rw [ht]
      exact ⟨.unchanged, same rfl⟩
  | refresh oid =>
    have h := Action.post_iff.mp (post_refresh oid m)
    refine Action.post_iff.mpr ⟨fun _ t ht => ⟨?_, fun _ => (h.1 _ t ht).1⟩,
      fun e t ht => ⟨?_, fun _ => (h.2 e t ht).1⟩⟩
    · obtain ⟨-, md, key, values, hcarries, hkey, hw⟩ := h.1 _ t ht
      exact hw ▸ .refreshed ht hcarries hkey
    · obtain ⟨-, hw | hw⟩ := h.2 e t ht
      · exact still hw
      · exact hw ▸ .lost
  | detach oid => exact ⟨.detached, same rfl⟩
  | clear => exact ⟨.cleared, same rfl⟩
  | flush =>
    have h := Action.post_iff.mp (post_flush m)
    refine Action.post_iff.mpr ⟨fun _ t ht => ⟨?_, fun hop => absurd rfl hop⟩,
      fun e t ht => ⟨still (h.2 e t ht), fun hop => absurd rfl hop⟩⟩
    obtain ⟨hw, -⟩ | ⟨written, hwrites, hw⟩ := h.1 _ t ht
    · exact still hw
    · exact hw ▸ .flushed ht hwrites
  | describe type =>
    rw [Operation.run, Action.post_discard]
    exact (post_metadata type m).mono (fun _ t ht => by rw [ht]; exact ⟨.unchanged, same rfl⟩)
      fun _ t ht => by rw [ht]; exact ⟨.unchanged, same rfl⟩
  | query sql parameters =>
    simp only [Operation.run, onSession, inEnvironment, Environment.onSession, Action.post_discard,
      Action.post_onPart]
    exact (Session.post_query_sameNesting ..).mono (fun _ _ h => ⟨.unchanged, fun _ => h⟩)
      fun _ _ h => ⟨.unchanged, fun _ => h⟩
  | createQuery source =>
    simp only [Operation.run, Manager.createQuery, onRegistry, Action.post_discard,
      Action.post_bind, Action.post_get, Action.post_set, Action.post_liftExcept,
      Action.post_onPart, Action.post_pure]
    refine ⟨fun _ _ => ?_, fun _ _ => ⟨.unchanged, same rfl⟩⟩
    exact post_of_forall _ (fun _ _ => ⟨.unchanged, same rfl⟩) fun _ _ => ⟨.unchanged, same rfl⟩
  | clearMetadata => exact ⟨.unchanged, same rfl⟩
  | clearQueries => exact ⟨.unchanged, same rfl⟩

/-- `Begins m inner`: a transaction can be begun, which leads to `inner`. -/
def Begins (m inner : Manager σ) : Prop := (onSession Session.begin).run m = (.ok ⟨⟩, inner)

/-- Runs of operations that are allowed where they are done. What a block does is a run from the
state in which it is entered; the flush at its end counts as an operation. -/
inductive Runs (allowed : Operation → Manager σ → Prop) : Manager σ → Manager σ → Prop
  | done (m : Manager σ) : Runs allowed m m
  | operation {m m' : Manager σ} (op : Operation) :
      Runs allowed m m' → allowed op m' → Runs allowed m (op.after m')
  | transactional {α : Type} {m m' : Manager σ} (block : ManagerM σ α) : Runs allowed m m' →
      (∀ inner, Begins m' inner → Runs allowed inner (block.run inner).2) →
      (∀ inner x last, Begins m' inner → block.run inner = (.ok x, last) → allowed .flush last) →
      Runs allowed m ((transactional block).run m').2

/-- The states that a manager can be in, those inside of blocks included. -/
inductive Reachable (allowed : Operation → Manager σ → Prop) : Manager σ → Prop
  | built {o : Options} {heap : Heap} {connection : σ} {m : Manager σ} :
      build o heap connection = .ok m → Reachable allowed m
  | run {m m' : Manager σ} : Reachable allowed m → Runs allowed m m' → Reachable allowed m'
  | entered {m inner : Manager σ} : Reachable allowed m → Begins m inner → Reachable allowed inner

/-- All operations are allowed at any time. -/
def anyOperation (_ : Operation) (_ : Manager σ) : Prop := True

/-- A property of managers that operations, the ends of transactions and the restoring of a given
unit of work keep. -/
structure KeptOver (allowed : Operation → Manager σ → Prop) (saved : UnitOfWork)
    (P : Manager σ → Prop) : Prop where
  operation : ∀ op m, allowed op m → P m → P (op.after m)
  begin : ∀ m, P m → P ((onSession Session.begin).run m).2
  commit : ∀ m, P m → P ((onSession Session.commit).run m).2
  rollback : ∀ m, P m → P ((onSession Session.rollback).run m).2
  restore : ∀ m, P m → P { m with work := saved }

/-- A block as a whole keeps what it keeps inside, what its flush keeps, and what is kept if the
unit of work is again as it was when the block was entered. -/
theorem KeptOver.transactional {allowed : Operation → Manager σ → Prop} {P : Manager σ → Prop}
    (h : KeptOver allowed m.work P) (block : ManagerM σ α) (hm : P m)
    (hblock : ∀ inner, Begins m inner → P inner → P (block.run inner).2)
    (hflush : ∀ inner x last, Begins m inner → block.run inner = (.ok x, last) →
      allowed .flush last) :
    P ((transactional block).run m).2 := by
  refine Action.post_iff_run.mp ?_
  simp only [Manager.transactional, updateWork, Action.post_bind, Action.post_get]
  rw [Action.post_iff]
  refine ⟨fun _ inner hinner => ?_, fun e failed hfailed => ?_⟩
  case refine_2 =>
    have hP := h.begin m hm
    rwa [hfailed] at hP
  have hP : P inner := by
    have hP := h.begin m hm
    rwa [hinner] at hP
  -- a failure of the block or of its flush leads to the same ending
  have giveUp (e : Error) (last : Manager σ) (hlast : P last) :
      (onSession (σ := σ) Session.rollback).Post
        (fun _ t => P { t with work := m.work }) (fun _ t => P { t with work := m.work }) last := by
    have hP := Action.post_iff_run.mpr (h.rollback last hlast)
    exact hP.mono (fun _ t ht => h.restore t ht) fun _ t ht => h.restore t ht
  have hdone := hblock inner hinner hP
  simp only [Action.post_attempt, Action.post_bind, Action.post_pure, Action.post_discard,
    Action.post_modify, Action.post_throw]
  rw [Action.post_iff]
  refine ⟨fun x last hlast => ?_, fun e last hlast => ?_⟩
  case refine_2 =>
    rw [hlast] at hdone
    exact giveUp e last hdone
  rw [hlast] at hdone
  have hflushed := h.operation .flush last (hflush inner x last hinner hlast) hdone
  refine (Action.post_iff_run.mpr hflushed).mono (fun _ flushed hP => ?_) fun e flushed hP => giveUp e flushed hP
  have hcommit := Action.post_iff_run.mpr (h.commit flushed hP)
  exact hcommit.mono (fun _ t ht => ht) fun e t ht => h.restore t ht

structure Kept (allowed : Operation → Manager σ → Prop) (P : Manager σ → Prop) : Prop where
  operation : ∀ op m, allowed op m → P m → P (op.after m)
  begin : ∀ m, P m → P ((onSession Session.begin).run m).2
  commit : ∀ m, P m → P ((onSession Session.commit).run m).2
  rollback : ∀ m, P m → P ((onSession Session.rollback).run m).2
  restore : ∀ m saved, P saved → P m → P { m with work := saved.work }

namespace Kept

variable {allowed : Operation → Manager σ → Prop} {P : Manager σ → Prop}

theorem keptOver (h : Kept allowed P) {saved : Manager σ} (hsaved : P saved) :
    KeptOver allowed saved.work P :=
  ⟨h.operation, h.begin, h.commit, h.rollback, fun t ht => h.restore t saved hsaved ht⟩

theorem transactional (h : Kept allowed P) (block : ManagerM σ α) (hm : P m)
    (hblock : ∀ inner, Begins m inner → P inner → P (block.run inner).2)
    (hflush : ∀ inner x last, Begins m inner → block.run inner = (.ok x, last) →
      allowed .flush last) :
    P ((transactional block).run m).2 :=
  (h.keptOver hm).transactional block hm hblock hflush

theorem runs (h : Kept allowed P) (hrun : Runs allowed m m') (hm : P m) : P m' := by
  induction hrun with
  | done m => exact hm
  | operation op _ hop ih => exact h.operation op _ hop (ih hm)
  | transactional block _ _ hflush ih ihblock =>
    exact h.transactional block (ih hm) (fun inner hinner hP => ihblock inner hinner hP) hflush

theorem reachable (h : Kept allowed P)
    (start : ∀ o heap connection m, build (σ := σ) o heap connection = .ok m → P m)
    (hm : Reachable allowed m) : P m := by
  induction hm with
  | built hbuild => exact start _ _ _ _ hbuild
  | run _ hrun ih => exact h.runs hrun ih
  | entered _ hinner ih =>
    have hP := h.begin _ ih
    rwa [hinner] at hP

end Kept

/-- A property that is kept as long as managers stay related to those that came before them. -/
theorem Runs.kept_along {allowed : Operation → Manager σ → Prop} {P : Manager σ → Prop}
    {R : Manager σ → Manager σ → Prop} [Std.Refl R] [Trans R R R]
    (hkept : ∀ m, P m → KeptOver allowed m.work fun t => P t ∧ R m t)
    (hrun : Runs allowed m m') (hm : P m) : P m' ∧ R m m' := by
  induction hrun with
  | done m => exact ⟨hm, Std.Refl.refl m⟩
  | @operation m m' op _ hop ih =>
    obtain ⟨hP, hR⟩ := ih hm
    obtain ⟨hafter, hR'⟩ := (hkept m' hP).operation op m' hop ⟨hP, Std.Refl.refl m'⟩
    exact ⟨hafter, Trans.trans hR hR'⟩
  | @transactional _ m m' block _ _ hflush ih ihblock =>
    obtain ⟨hP, hR⟩ := ih hm
    have hdone := (hkept m' hP).transactional block ⟨hP, Std.Refl.refl m'⟩
      (fun inner hinner hin => ?_) hflush
    · exact ⟨hdone.1, Trans.trans hR hdone.2⟩
    · obtain ⟨hlast, hR'⟩ := ihblock inner hinner hin.1
      exact ⟨hlast, Trans.trans hin.2 hR'⟩

end Persistence.Manager
