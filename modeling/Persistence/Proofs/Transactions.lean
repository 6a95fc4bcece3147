import Persistence.Proofs.Postcondition
import Persistence.Session

/-!
Nested transactions and what of them reaches the connection. `Recorded` is a connection that keeps
the calls that were made of it, each with the failure it ended in.

Statements leave the nesting of transactions alone. Outside of all transactions no transaction is
doomed, so the outermost commit of a well-nested session reaches the connection.
-/

namespace Persistence

open Persistence.Action (post_of_forall)

theorem concat_eq_append_cons {α : Type} {xs ys zs : List α} {x y : α} :
    xs ++ [x] = ys ++ y :: zs ↔
      (xs = ys ∧ x = y ∧ zs = []) ∨ ∃ more, zs = more ++ [x] ∧ xs = ys ++ y :: more := by
  constructor
  · intro h
    obtain rfl | ⟨more, last, rfl⟩ := List.eq_nil_or_concat zs
    · obtain ⟨hxs, hx⟩ := List.append_inj' h rfl
      exact .inl ⟨hxs, List.singleton_inj.mp hx, rfl⟩
    · rw [List.concat_eq_append, ← List.cons_append, ← List.append_assoc] at h
      obtain ⟨hxs, hx⟩ := List.append_inj' h rfl
      exact .inr ⟨more, by rw [List.concat_eq_append, hx], hxs⟩
  · rintro (⟨rfl, rfl, rfl⟩ | ⟨more, rfl, rfl⟩)
    · rfl
    · rw [← List.cons_append, List.append_assoc]

/-- What can be asked of a connection. -/
inductive Call
  | query (sql : String) (parameters : List Value)
  | update (sql : String) (parameters : List Value)
  | lastInsertId
  | begin
  | commit
  | rollback
deriving DecidableEq

/-- A call with the failure it ended in, if it failed. -/
structure CallRecord where
  call : Call
  failure : Option Error
deriving DecidableEq

/-- Whether a call is made for rows and not for a transaction. -/
def CallRecord.isWork (c : CallRecord) : Bool :=
  match c.call with
  | .query .. | .update .. | .lastInsertId => true
  | .begin | .commit | .rollback => false

/-- A connection with the calls that were made of it, the oldest first. -/
structure Recorded (σ : Type) where
  inner : σ
  calls : List CallRecord := []

namespace Recorded

variable {σ α : Type} {Q : α → Recorded σ → Prop} {E : Error → Recorded σ → Prop}

def call (c : Call) (a : Action σ α) : Action (Recorded σ) α := fun r =>
  match a.run r.inner with
  | (.ok x, s) => (.ok x, ⟨s, r.calls ++ [⟨c, none⟩]⟩)
  | (.error e, s) => (.error e, ⟨s, r.calls ++ [⟨c, some e⟩]⟩)

instance [Connection σ] : Connection (Recorded σ) where
  query sql parameters := call (.query sql parameters) (Connection.query sql parameters)
  update sql parameters := call (.update sql parameters) (Connection.update sql parameters)
  lastInsertId := call .lastInsertId Connection.lastInsertId
  begin := call .begin Connection.begin
  commit := call .commit Connection.commit
  rollback := call .rollback Connection.rollback

theorem post_call (c : Call) (a : Action σ α) (r : Recorded σ) :
    (call c a).Post Q E r ↔ a.Post (fun x s => Q x ⟨s, r.calls ++ [⟨c, none⟩]⟩)
      (fun e s => E e ⟨s, r.calls ++ [⟨c, some e⟩]⟩) r.inner := by
  match h : a.run r.inner with
  | (.ok x, s) =>
    rw [Action.post_of_run_ok h]
    exact Action.post_of_run_ok (by simp only [call, ExceptT.run]; rw [show a r.inner = _ from h])
  | (.error e, s) =>
    rw [Action.post_of_run_error h]
    exact Action.post_of_run_error (by simp only [call, ExceptT.run]; rw [show a r.inner = _ from h])

theorem post_calls (c : Call) (a : Action σ α) (r : Recorded σ) :
    (call c a).Post (fun _ t => t.calls = r.calls ++ [⟨c, none⟩])
      (fun e t => t.calls = r.calls ++ [⟨c, some e⟩]) r := by
  rw [post_call]
  exact post_of_forall _ (fun _ _ => rfl) fun _ _ => rfl

end Recorded

namespace Session

variable {σ α : Type} {s t : Session σ}

def Balanced (s : Session σ) : Prop := s.depth = 0 → s.rollbackOnly = false

def SameNesting (s t : Session σ) : Prop := t.depth = s.depth ∧ t.rollbackOnly = s.rollbackOnly

theorem SameNesting.balanced (h : s.SameNesting t) (hs : s.Balanced) : t.Balanced := by
  intro ht
  rw [h.2]
  exact hs (h.1 ▸ ht)

variable [Connection σ]

variable {E : Error → Session σ → Prop}

omit [Connection σ] in
theorem post_logged {Q : α → Session σ → Prop} (a : Action σ α) (sql : String)
    (parameters : List Value) : Action.Post (fun s =>
        let (x, t) := (onConnection a).run s
        (x, record sql parameters t)) Q E s ↔
      a.Post (fun x c => Q x (record sql parameters { s with connection := c }))
        (fun e c => E e (record sql parameters { s with connection := c })) s.connection := by
  rw [← Action.post_onPart Session.connection (fun s c => record sql parameters { s with connection := c })]
  rfl

theorem post_query {Q : List Row → Session σ → Prop} (sql : String) (parameters : List Value) :
    (query sql parameters).Post Q E s ↔ (Connection.query sql parameters).Post
      (fun rows c => Q rows (record sql parameters { s with connection := c }))
      (fun e c => E e (record sql parameters { s with connection := c })) s.connection :=
  post_logged ..

theorem post_update {Q : Nat → Session σ → Prop} (sql : String) (parameters : List Value) :
    (update sql parameters).Post Q E s ↔ (Connection.update sql parameters).Post
      (fun n c => Q n (record sql parameters { s with connection := c }))
      (fun e c => E e (record sql parameters { s with connection := c })) s.connection :=
  post_logged ..

theorem post_query_sameNesting (sql : String) (parameters : List Value) :
    (query sql parameters).Post (fun _ t => s.SameNesting t) (fun _ t => s.SameNesting t) s := by
  rw [post_query]
  exact post_of_forall _ (fun _ _ => ⟨rfl, rfl⟩) fun _ _ => ⟨rfl, rfl⟩

theorem post_begin {Q : Unit → Session σ → Prop} : begin.Post Q E s ↔
    (s.depth = 0 → (Connection.begin : Action σ Unit).Post
      (fun _ c => Q () { s with connection := c, depth := 1 })
      (fun e c => E (e.context (.transaction .beginFailed)) { s with connection := c })
      s.connection) ∧
    (s.depth ≠ 0 → Q () { s with depth := s.depth + 1 }) := by
  simp only [begin, onConnection, Action.post_bind, Action.post_get, Action.post_ite,
    Action.post_explain, Action.post_onPart, Action.post_modify]
  refine and_congr (imp_congr_right fun hd => ?_) Iff.rfl
  rw [hd]

theorem balanced_begin (h : s.Balanced) : ((begin : SessionM σ Unit).run s).2.Balanced := by
  refine Action.post_iff_run.mp (post_begin.mpr ⟨fun hd => ?_, fun hd => ?_⟩)
  · exact post_of_forall _ (fun _ c hc => by simp at hc) fun _ c => h
  · simp [Balanced]

theorem balanced_commit (h : s.Balanced) : ((commit : SessionM σ Unit).run s).2.Balanced := by
  refine Action.post_iff_run.mp ?_
  simp only [commit, rollbackQuietly, onConnection, Action.post_bind, Action.post_get]
  split
  · exact h
  · -- whatever the connection answers, the outermost transaction is over
    have ended (c : σ) : Balanced { connection := c, log := s.log } := fun _ => rfl
    simp only [Action.post_bind, Action.post_set, Action.post_ite, Action.post_discard,
      Action.post_attempt, Action.post_onPart, Action.post_throw, Action.post_pure]
    refine ⟨fun _ => post_of_forall _ (fun _ => ended) fun _ => ended, fun _ => ?_⟩
    exact post_of_forall _ (fun _ => ended) fun _ _ => post_of_forall _ (fun _ => ended) fun _ => ended
  · intro hd
    simp at hd

theorem balanced_rollback (h : s.Balanced) :
    ((rollback : SessionM σ Unit).run s).2.Balanced := by
  refine Action.post_iff_run.mp ?_
  simp only [rollback, onConnection, Action.post_bind, Action.post_get]
  split
  · exact h
  · simp only [Action.post_bind, Action.post_set, Action.post_explain, Action.post_onPart]
    exact post_of_forall _ (fun _ _ _ => rfl) fun _ _ _ => rfl
  · intro hd
    simp at hd

omit [Connection σ] in
def Works (s t : Session (Recorded σ)) : Prop :=
  s.SameNesting t ∧ ∃ new, t.connection.calls = s.connection.calls ++ new ∧ ∀ c ∈ new, c.isWork

omit [Connection σ] in
theorem Works.refl (s : Session (Recorded σ)) : s.Works s := ⟨⟨rfl, rfl⟩, [], by simp, by simp⟩

omit [Connection σ] in
theorem Works.trans {s t u : Session (Recorded σ)} (h : s.Works t) (h' : t.Works u) : s.Works u := by
  obtain ⟨⟨hd, hr⟩, new, hnew, hwork⟩ := h
  obtain ⟨⟨hd', hr'⟩, new', hnew', hwork'⟩ := h'
  refine ⟨⟨hd'.trans hd, hr'.trans hr⟩, new ++ new', ?_, fun c hc => ?_⟩
  · rw [hnew', hnew, List.append_assoc]
  · exact (List.mem_append.mp hc).elim (hwork c) (hwork' c)

omit [Connection σ] in
theorem works_of_calls {s t : Session (Recorded σ)} {c : CallRecord} (hn : s.SameNesting t)
    (ht : t.connection.calls = s.connection.calls ++ [c]) (hc : c.isWork = true) : s.Works t :=
  ⟨hn, [c], ht, by simpa using hc⟩

theorem post_execute_works (s : Session (Recorded σ)) (x : Sql.Statement) :
    (execute x).Post (fun _ t => s.Works t) (fun e t => s.Works t ∧
      ∃ c, (Connection.update x.sql x.parameters).run s.connection = (.error e, c)) s := by
  have hcalls := Action.post_iff.mp (Recorded.post_calls (.update x.sql x.parameters)
    (Connection.update x.sql x.parameters) s.connection)
  rw [execute, post_update, Action.post_iff]
  refine ⟨fun n c hc => ?_, fun e c hc => ⟨?_, c, hc⟩⟩
  · exact works_of_calls ⟨rfl, rfl⟩ (hcalls.1 n c hc) rfl
  · exact works_of_calls ⟨rfl, rfl⟩ (hcalls.2 e c hc) rfl

theorem post_lastInsertId_works (s : Session (Recorded σ)) :
    lastInsertId.Post (fun _ t => s.Works t) (fun e t => s.Works t ∧
      ∃ c, Connection.lastInsertId.run s.connection = (.error e, c)) s := by
  have hcalls := Action.post_iff.mp (Recorded.post_calls .lastInsertId Connection.lastInsertId
    s.connection)
  rw [lastInsertId, onConnection, Action.post_onPart, Action.post_iff]
  refine ⟨fun id c hc => ?_, fun e c hc => ⟨?_, c, hc⟩⟩
  · exact works_of_calls ⟨rfl, rfl⟩ (hcalls.1 id c hc) rfl
  · exact works_of_calls ⟨rfl, rfl⟩ (hcalls.2 e c hc) rfl

theorem post_begin_recorded (s : Session (Recorded σ)) :
    begin.Post
      (fun _ t => t.depth = s.depth + 1 ∧ t.rollbackOnly = s.rollbackOnly ∧
        t.connection.calls = s.connection.calls ++ if s.depth = 0 then [⟨.begin, none⟩] else [])
      (fun e t => s.depth = 0 ∧ s.SameNesting t ∧ ∃ cause c,
        Connection.begin.run s.connection = (.error cause, c) ∧
          e = cause.context (.transaction .beginFailed) ∧
          t.connection.calls = s.connection.calls ++ [⟨.begin, some cause⟩]) s := by
  have hcalls := Action.post_iff.mp (Recorded.post_calls .begin Connection.begin s.connection)
  rw [post_begin]
  refine ⟨fun hd => ?_, fun hd => ⟨rfl, rfl, by simp [hd]⟩⟩
  rw [Action.post_iff]
  refine ⟨fun _ c hc => ⟨by rw [hd], rfl, ?_⟩, fun e c hc => ⟨hd, ⟨rfl, rfl⟩, e, c, hc, rfl, ?_⟩⟩
  · rw [if_pos hd]
    exact hcalls.1 _ c hc
  · exact hcalls.2 e c hc

theorem post_rollback_recorded {d : Nat} {s : Session (Recorded σ)} (hd : s.depth = d + 1) :
    rollback.attempt.Post
      (fun _ t => t.depth = d ∧ t.Balanced ∧ ∃ failure,
        t.connection.calls = s.connection.calls ++ if d = 0 then [⟨.rollback, failure⟩] else [])
      (fun _ _ => False) s := by
  have hcalls := Action.post_iff.mp (Recorded.post_calls .rollback Connection.rollback s.connection)
  simp only [rollback, onConnection, Action.post_attempt, Action.post_bind, Action.post_get]
  split
  · rename_i h
    omega
  · rename_i h
    obtain rfl : d = 0 := by omega
    simp only [Action.post_bind, Action.post_set, Action.post_explain, Action.post_onPart]
    rw [Action.post_iff]
    refine ⟨fun x c hc => ⟨trivial, fun _ => rfl, none, ?_⟩,
      fun e c hc => ⟨trivial, fun _ => rfl, some e, ?_⟩⟩
    · exact hcalls.1 x c hc
    · exact hcalls.2 e c hc
  · rename_i n h
    obtain rfl : d = n + 1 := by omega
    exact ⟨rfl, by simp [Balanced], none, by simp⟩

theorem post_commit_recorded {d : Nat} {s : Session (Recorded σ)} (hd : s.depth = d + 1)
    (hr : d = 0 → s.rollbackOnly = false) :
    commit.Post (fun _ t => t.depth = d ∧ t.Balanced)
      (fun e t => d = 0 ∧ t.depth = 0 ∧ t.Balanced ∧ ∃ cause c failure,
        Connection.commit.run s.connection = (.error cause, c) ∧
          e = cause.context (.transaction .commitFailed) ∧
          t.connection.calls =
            s.connection.calls ++ [⟨.commit, some cause⟩, ⟨.rollback, failure⟩]) s := by
  have hcalls := Action.post_iff.mp (Recorded.post_calls .commit Connection.commit s.connection)
  simp only [commit, rollbackQuietly, onConnection, Action.post_bind, Action.post_get]
  split
  · rename_i h
    omega
  · rename_i h
    obtain rfl : d = 0 := by omega
    simp only [Action.post_bind, Action.post_set, Action.post_discard, Action.post_attempt,
      Action.post_onPart, Action.post_throw, Action.post_pure, hr rfl, Bool.false_eq_true, if_false]
    rw [Action.post_iff]
    refine ⟨fun x c hc => ⟨trivial, fun _ => rfl⟩, fun e c hc => ?_⟩
    have hback := Action.post_iff.mp (Recorded.post_calls .rollback Connection.rollback c)
    have hcommitted := hcalls.2 e c hc
    rw [Action.post_iff]
    refine ⟨fun x c' hc' => ?_, fun e' c' hc' => ?_⟩
    · refine ⟨trivial, trivial, fun _ => rfl, e, c, none, hc, rfl, ?_⟩
      simp [hback.1 x c' hc', hcommitted]
    · refine ⟨trivial, trivial, fun _ => rfl, e, c, some e', hc, rfl, ?_⟩
      simp [hback.2 e' c' hc', hcommitted]
  · rename_i n h
    obtain rfl : d = n + 1 := by omega
    exact ⟨rfl, by simp [Balanced]⟩

end Session
end Persistence
