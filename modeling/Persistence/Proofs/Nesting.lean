import Persistence.Proofs.Sample
import Persistence.Proofs.Transactions

/-!
The protocol of nested transactions. Whatever is asked of a session and whichever calls fail, the
begins, commits and rollbacks that reach the connection are a word of transactions that are over,
followed by at most one that is open. `Step` lists all that one request can do, and everything is
read off it.
-/

namespace Persistence.Session

variable {σ : Type}

inductive Request
  | begin
  | commit
  | rollback
  | query (sql : String) (parameters : List Value)
  | update (sql : String) (parameters : List Value)
  | lastInsertId

def Request.isWork : Request → Bool
  | begin | commit | rollback => false
  | query .. | update .. | lastInsertId => true

def Request.run [Connection σ] : Request → SessionM σ Unit
  | begin => Session.begin
  | commit => Session.commit
  | rollback => Session.rollback
  | query sql parameters => discard (Session.query sql parameters)
  | update sql parameters => discard (Session.update sql parameters)
  | lastInsertId => discard Session.lastInsertId

/-- A request with what it came to. -/
structure Turn where
  request : Request
  /-- How many transactions were open when it was made. -/
  depth : Nat
  /-- What reached the connection. -/
  calls : List CallRecord
  failure : Option Error

section Histories

variable [Connection σ]

def Request.after (r : Request) (s : Session (Recorded σ)) : Session (Recorded σ) := (r.run.run s).2

def Request.turn (r : Request) (s : Session (Recorded σ)) : Turn where
  request := r
  depth := s.depth
  calls := (r.after s).connection.calls.drop s.connection.calls.length
  failure := match (r.run.run s).1 with
    | .ok _ => none
    | .error e => some e

/-- `History turns s`: the requests of `turns` were made of a new session and have led to `s`. -/
inductive History : List Turn → Session (Recorded σ) → Prop
  | start (connection : σ) (log : Option (List (String × List Value))) :
      History [] { connection := ⟨connection, []⟩, log := log }
  | turn {turns : List Turn} {s : Session (Recorded σ)} (r : Request) :
      History turns s → History (turns ++ [r.turn s]) (r.after s)

end Histories

/-- The calls for transactions among all calls. -/
def boundaries (calls : List CallRecord) : List CallRecord := calls.filter fun c => !c.isWork

/-- Transactions that are over: each was refused, committed or rolled back, where a rollback
follows a commit that failed. -/
inductive Concluded : List CallRecord → Prop
  | empty : Concluded []
  | refused {w : List CallRecord} (e : Error) : Concluded w → Concluded (w ++ [⟨.begin, some e⟩])
  | committed {w : List CallRecord} : Concluded w →
      Concluded (w ++ [⟨.begin, none⟩] ++ [⟨.commit, none⟩])
  | uncommitted {w : List CallRecord} (e : Error) (failure : Option Error) : Concluded w →
      Concluded (w ++ [⟨.begin, none⟩] ++ [⟨.commit, some e⟩, ⟨.rollback, failure⟩])
  | rolledBack {w : List CallRecord} (failure : Option Error) : Concluded w →
      Concluded (w ++ [⟨.begin, none⟩] ++ [⟨.rollback, failure⟩])

/-- The last transaction is open; those before it are over. -/
def Unfinished (w : List CallRecord) : Prop := ∃ v, Concluded v ∧ w = v ++ [⟨.begin, none⟩]

theorem Concluded.not_unfinished {w : List CallRecord} (h : Concluded w) : ¬ Unfinished w := by
  rintro ⟨v, -, hw⟩
  have hlast : w.getLast? = some ⟨.begin, none⟩ := by rw [hw, List.getLast?_concat]
  cases h <;> simp at hlast

theorem boundaries_append (xs ys : List CallRecord) :
    boundaries (xs ++ ys) = boundaries xs ++ boundaries ys := List.filter_append ..

inductive Step (s t : Session (Recorded σ)) : Request → List CallRecord → Option Error → Prop
  | work {r : Request} {c : CallRecord} {failure : Option Error} :
      r.isWork = true → c.isWork = true → s.SameNesting t → Step s t r [c] failure
  /-- The connection cannot begin a transaction. -/
  | refused {cause e : Error} : s.depth = 0 → s.SameNesting t →
      Step s t .begin [⟨.begin, some cause⟩] (some e)
  | begun : s.depth = 0 → t.depth = 1 → t.rollbackOnly = s.rollbackOnly →
      Step s t .begin [⟨.begin, none⟩] none
  | nested : s.depth ≠ 0 → t.depth = s.depth + 1 → t.rollbackOnly = s.rollbackOnly →
      Step s t .begin [] none
  /-- There is no transaction to end. -/
  | outside {r : Request} {e : Error} : r = .commit ∨ r = .rollback → s.depth = 0 →
      s.SameNesting t → Step s t r [] (some e)
  | committed : s.depth = 1 → s.rollbackOnly = false → t.depth = 0 → t.rollbackOnly = false →
      Step s t .commit [⟨.commit, none⟩] none
  | uncommitted {cause e : Error} {failure : Option Error} : s.depth = 1 →
      s.rollbackOnly = false → t.depth = 0 → t.rollbackOnly = false →
      Step s t .commit [⟨.commit, some cause⟩, ⟨.rollback, failure⟩] (some e)
  /-- A doomed transaction is rolled back where it should have been committed. -/
  | reversed {failure : Option Error} : s.depth = 1 → s.rollbackOnly = true → t.depth = 0 →
      t.rollbackOnly = false →
      Step s t .commit [⟨.rollback, failure⟩] (some (.transaction .rollbackOnly))
  | rolledBack {failure e : Option Error} : s.depth = 1 → t.depth = 0 → t.rollbackOnly = false →
      Step s t .rollback [⟨.rollback, failure⟩] e
  | released : s.depth = t.depth + 1 → t.depth ≠ 0 → t.rollbackOnly = s.rollbackOnly →
      Step s t .commit [] none
  /-- A nested rollback dooms the transaction. -/
  | doomed : s.depth = t.depth + 1 → t.depth ≠ 0 → t.rollbackOnly = true →
      Step s t .rollback [] none

def Stepped (s t : Session (Recorded σ)) (r : Request) (failure : Option Error) : Prop :=
  ∃ calls, t.connection.calls = s.connection.calls ++ calls ∧ Step s t r calls failure

section Steps

variable [Connection σ] (s : Session (Recorded σ))

theorem post_step_begin :
    begin.Post (fun _ t => Stepped s t .begin none) (fun e t => Stepped s t .begin (some e)) s := by
  have hcalls := Action.post_iff.mp (Recorded.post_calls .begin Connection.begin s.connection)
  rw [post_begin]
  refine ⟨fun hd => ?_, fun hd => ⟨[], by simp, .nested hd rfl rfl⟩⟩
  rw [Action.post_iff]
  refine ⟨fun _ c hc => ⟨_, hcalls.1 _ c hc, .begun hd rfl rfl⟩, fun e c hc => ?_⟩
  exact ⟨_, hcalls.2 e c hc, .refused hd ⟨rfl, rfl⟩⟩

theorem post_step_commit :
    commit.Post (fun _ t => Stepped s t .commit none)
      (fun e t => Stepped s t .commit (some e)) s := by
  have hcalls := Action.post_iff.mp (Recorded.post_calls .commit Connection.commit s.connection)
  simp only [commit, rollbackQuietly, onConnection, Action.post_bind, Action.post_get]
  split
  case h_1 hd => exact ⟨[], by simp, .outside (.inl rfl) hd ⟨rfl, rfl⟩⟩
  case h_3 n hd => exact ⟨[], by simp, .released (by simp [hd]) (by simp) rfl⟩
  case h_2 hd =>
    simp only [Action.post_bind, Action.post_set, Action.post_discard, Action.post_attempt,
      Action.post_onPart, Action.post_throw, Action.post_pure, Action.post_ite]
    refine ⟨fun hr => ?_, fun hr => ?_⟩
    · have hback := Action.post_iff.mp
        (Recorded.post_calls .rollback Connection.rollback s.connection)
      rw [Action.post_iff]
      exact ⟨fun x c hc => ⟨_, hback.1 x c hc, .reversed hd hr rfl rfl⟩,
        fun e c hc => ⟨_, hback.2 e c hc, .reversed hd hr rfl rfl⟩⟩
    · have hr : s.rollbackOnly = false := by simpa using hr
      rw [Action.post_iff]
      refine ⟨fun x c hc => ⟨_, hcalls.1 x c hc, .committed hd hr rfl rfl⟩, fun e c hc => ?_⟩
      have hback := Action.post_iff.mp (Recorded.post_calls .rollback Connection.rollback c)
      have hcommitted := hcalls.2 e c hc
      rw [Action.post_iff]
      refine ⟨fun x c' hc' => ?_, fun e' c' hc' => ?_⟩
      · exact ⟨[⟨.commit, some e⟩, ⟨.rollback, none⟩], by simp [hback.1 x c' hc', hcommitted],
          .uncommitted hd hr rfl rfl⟩
      · exact ⟨[⟨.commit, some e⟩, ⟨.rollback, some e'⟩], by simp [hback.2 e' c' hc', hcommitted],
          .uncommitted hd hr rfl rfl⟩

theorem post_step_rollback :
    rollback.Post (fun _ t => Stepped s t .rollback none)
      (fun e t => Stepped s t .rollback (some e)) s := by
  have hcalls := Action.post_iff.mp (Recorded.post_calls .rollback Connection.rollback s.connection)
  simp only [rollback, onConnection, Action.post_bind, Action.post_get]
  split
  case h_1 hd => exact ⟨[], by simp, .outside (.inr rfl) hd ⟨rfl, rfl⟩⟩
  case h_3 n hd => exact ⟨[], by simp, .doomed (by simp [hd]) (by simp) rfl⟩
  case h_2 hd =>
    simp only [Action.post_bind, Action.post_set, Action.post_explain, Action.post_onPart]
    rw [Action.post_iff]
    exact ⟨fun x c hc => ⟨_, hcalls.1 x c hc, .rolledBack hd rfl rfl⟩,
      fun e c hc => ⟨_, hcalls.2 e c hc, .rolledBack hd rfl rfl⟩⟩

omit [Connection σ] in
theorem post_step_work {r : Request} {α : Type} {call : Call} {a : Action σ α}
    {end' : Recorded σ → Session (Recorded σ)} (hr : r.isWork = true)
    (hc : ∀ failure, CallRecord.isWork ⟨call, failure⟩ = true)
    (hconnection : ∀ c, (end' c).connection = c) (hsame : ∀ c, s.SameNesting (end' c)) :
    (Recorded.call call a).Post (fun _ c => Stepped s (end' c) r none)
      (fun e c => Stepped s (end' c) r (some e)) s.connection := by
  refine (Recorded.post_calls call a s.connection).mono (fun _ c h => ?_) fun e c h => ?_
  · exact ⟨_, by rw [hconnection, h], .work hr (hc _) (hsame c)⟩
  · exact ⟨_, by rw [hconnection, h], .work hr (hc _) (hsame c)⟩

theorem Request.post_step (r : Request) :
    r.run.Post (fun _ t => Stepped s t r none) (fun e t => Stepped s t r (some e)) s := by
  cases r with
  | begin => exact post_step_begin s
  | commit => exact post_step_commit s
  | rollback => exact post_step_rollback s
  | query sql parameters =>
    rw [Request.run, Action.post_discard, post_query]
    exact post_step_work s rfl (fun _ => rfl) (fun _ => rfl) fun _ => ⟨rfl, rfl⟩
  | update sql parameters =>
    rw [Request.run, Action.post_discard, post_update]
    exact post_step_work s rfl (fun _ => rfl) (fun _ => rfl) fun _ => ⟨rfl, rfl⟩
  | lastInsertId =>
    rw [Request.run, Action.post_discard, Session.lastInsertId, onConnection, Action.post_onPart]
    exact post_step_work s rfl (fun _ => rfl) (fun _ => rfl) fun _ => ⟨rfl, rfl⟩

theorem Request.step (r : Request) :
    (r.after s).connection.calls = s.connection.calls ++ (r.turn s).calls ∧
      Step s (r.after s) r (r.turn s).calls (r.turn s).failure := by
  have added {t : Session (Recorded σ)} {failure : Option Error} (ht : r.after s = t)
      (hf : (r.turn s).failure = failure) (h : Stepped s t r failure) :
      (r.after s).connection.calls = s.connection.calls ++ (r.turn s).calls ∧
        Step s (r.after s) r (r.turn s).calls (r.turn s).failure := by
    obtain ⟨calls, hcalls, hstep⟩ := h
    have hturn : (r.turn s).calls = calls := by
      rw [Request.turn, ht, hcalls, List.drop_left]
    rw [hturn, ht, hf]
    exact ⟨hcalls, hstep⟩
  have hpost := Action.post_iff.mp (r.post_step s)
  match hrun : r.run.run s with
  | (.ok x, t) =>
    exact added (by rw [Request.after, hrun]) (by rw [Request.turn, hrun]) (hpost.1 x t hrun)
  | (.error e, t) =>
    exact added (by rw [Request.after, hrun]) (by rw [Request.turn, hrun]) (hpost.2 e t hrun)

end Steps

/-- A nested transaction was rolled back since the connection was last asked to begin one. -/
def Doomed (turns : List Turn) : Prop :=
  ∃ before r after, turns = before ++ r :: after ∧ r.request = .rollback ∧ 1 < r.depth ∧
    ∀ t ∈ after, ∀ c ∈ t.calls, c.call ≠ .begin

theorem doomed_concat {turns : List Turn} {t : Turn} : Doomed (turns ++ [t]) ↔
    (t.request = .rollback ∧ 1 < t.depth) ∨ (Doomed turns ∧ ∀ c ∈ t.calls, c.call ≠ .begin) := by
  constructor
  · rintro ⟨before, r, after, hturns, hr, hd, hafter⟩
    obtain ⟨-, rfl, -⟩ | ⟨more, rfl, hbefore⟩ := concat_eq_append_cons.mp hturns
    · exact .inl ⟨hr, hd⟩
    · refine .inr ⟨⟨before, r, more, hbefore, hr, hd, fun u hu => hafter u (by simp [hu])⟩, ?_⟩
      exact hafter t (by simp)
  · rintro (⟨hr, hd⟩ | ⟨⟨before, r, after, rfl, hr, hd, hafter⟩, hlast⟩)
    · exact ⟨turns, t, [], rfl, hr, hd, by simp⟩
    · refine ⟨before, r, after ++ [t], by simp, hr, hd, fun u hu => ?_⟩
      rcases List.mem_append.mp hu with hu | hu
      · exact hafter u hu
      · rwa [List.mem_singleton.mp hu]

structure Told (turns : List Turn) (s : Session (Recorded σ)) : Prop where
  calls : s.connection.calls = turns.flatMap Turn.calls
  balanced : s.Balanced
  concluded : s.depth = 0 → Concluded (boundaries s.connection.calls)
  unfinished : s.depth ≠ 0 → Unfinished (boundaries s.connection.calls)
  doomed : s.depth ≠ 0 → (s.rollbackOnly = true ↔ Doomed turns)

section Steps

variable {turns : List Turn} {turn : Turn} {s t : Session (Recorded σ)}

theorem told_of_concluded (hcalls : t.connection.calls = turns.flatMap Turn.calls)
    (hd : t.depth = 0) (hr : t.rollbackOnly = false)
    (hword : Concluded (boundaries t.connection.calls)) : Told turns t :=
  ⟨hcalls, fun _ => hr, fun _ => hword, fun h => absurd hd h, fun h => absurd hd h⟩

theorem told_of_unfinished (hcalls : t.connection.calls = turns.flatMap Turn.calls)
    (hd : t.depth ≠ 0) (hword : Unfinished (boundaries t.connection.calls))
    (hdoomed : t.rollbackOnly = true ↔ Doomed turns) : Told turns t :=
  ⟨hcalls, fun h => absurd h hd, fun h => absurd h hd, fun _ => hword, fun _ => hdoomed⟩

namespace Told

theorem doomed_concat (h : Told turns s) (hd : s.depth ≠ 0)
    (hr : ¬ (turn.request = .rollback ∧ 1 < turn.depth))
    (hc : ∀ c ∈ turn.calls, c.call ≠ .begin) :
    s.rollbackOnly = true ↔ Doomed (turns ++ [turn]) := by
  rw [h.doomed hd, Session.doomed_concat]
  exact ⟨fun hdoomed => .inr ⟨hdoomed, hc⟩, fun hdoomed => (hdoomed.resolve_left hr).1⟩

variable (h : Told turns s) (hcalls : t.connection.calls = s.connection.calls ++ turn.calls)

include h hcalls

theorem calls_concat : t.connection.calls = (turns ++ [turn]).flatMap Turn.calls := by
  rw [hcalls, h.calls, List.flatMap_append, List.flatMap_singleton]

theorem open_concat (hb : boundaries turn.calls = []) (hd : s.depth ≠ 0) (hd' : t.depth ≠ 0)
    (hdoomed : t.rollbackOnly = true ↔ Doomed (turns ++ [turn])) : Told (turns ++ [turn]) t := by
  refine told_of_unfinished (h.calls_concat hcalls) hd' ?_ hdoomed
  rw [hcalls, boundaries_append, hb, List.append_nil]
  exact h.unfinished hd

theorem same_concat (hn : s.SameNesting t) (hb : boundaries turn.calls = [])
    (hr : ¬ (turn.request = .rollback ∧ 1 < turn.depth))
    (hc : ∀ c ∈ turn.calls, c.call ≠ .begin) : Told (turns ++ [turn]) t := by
  by_cases hd : s.depth = 0
  · have hd' : t.depth = 0 := hn.1.trans hd
    refine told_of_concluded (h.calls_concat hcalls) hd' (hn.balanced h.balanced hd') ?_
    rw [hcalls, boundaries_append, hb, List.append_nil]
    exact h.concluded hd
  · refine h.open_concat hcalls hb hd (hn.1 ▸ hd) ?_
    rw [hn.2]
    exact h.doomed_concat hd hr hc

theorem ended_concat {w : List CallRecord} (hb : boundaries turn.calls = w) (hs : s.depth = 1)
    (hd : t.depth = 0) (hr : t.rollbackOnly = false)
    (hw : ∀ v, Concluded v → Concluded (v ++ [⟨.begin, none⟩] ++ w)) :
    Told (turns ++ [turn]) t := by
  obtain ⟨v, hv, hopen⟩ := h.unfinished (by rw [hs]; simp)
  refine told_of_concluded (h.calls_concat hcalls) hd hr ?_
  rw [hcalls, boundaries_append, hopen, hb]
  exact hw v hv

theorem step (hdepth : turn.depth = s.depth)
    (hstep : Step s t turn.request turn.calls turn.failure) : Told (turns ++ [turn]) t := by
  have hflat := h.calls_concat hcalls
  obtain ⟨request, depth, calls, failure⟩ := turn
  dsimp only at hdepth hstep hcalls
  subst hdepth
  cases hstep with
  | @work _ c _ hr hc hn =>
    refine h.same_concat hcalls hn (by simp [boundaries, hc]) ?_ ?_
    · rintro ⟨rfl, -⟩
      simp [Request.isWork] at hr
    · rintro c' hc' hbegin
      obtain rfl := List.mem_singleton.mp hc'
      simp [CallRecord.isWork, hbegin] at hc
  | @refused cause e hd hn =>
    have hd' : t.depth = 0 := hn.1.trans hd
    refine told_of_concluded hflat hd' (hn.balanced h.balanced hd') ?_
    rw [hcalls, boundaries_append]
    exact .refused cause (h.concluded hd)
  | begun hd hd' hr =>
    refine told_of_unfinished hflat (by rw [hd']; simp) ?_ ?_
    · rw [hcalls, boundaries_append]
      exact ⟨_, h.concluded hd, rfl⟩
    · rw [hr, h.balanced hd, Session.doomed_concat]
      simp
  | nested hd hd' hr =>
    refine h.open_concat hcalls rfl hd (by rw [hd']; simp) ?_
    rw [hr]
    exact h.doomed_concat hd (by simp) (by simp)
  | outside hr hd hn => exact h.same_concat hcalls hn rfl (by simp [hd]) (by simp)
  | committed hs _ hd hr => exact h.ended_concat hcalls rfl hs hd hr fun _ => .committed
  | uncommitted hs _ hd hr => exact h.ended_concat hcalls rfl hs hd hr fun _ => .uncommitted _ _
  | reversed hs _ hd hr => exact h.ended_concat hcalls rfl hs hd hr fun _ => .rolledBack _
  | rolledBack hs hd hr => exact h.ended_concat hcalls rfl hs hd hr fun _ => .rolledBack _
  | released hd hd' hr =>
    have hs : s.depth ≠ 0 := by omega
    refine h.open_concat hcalls rfl hs hd' ?_
    rw [hr]
    exact h.doomed_concat hs (by simp) (by simp)
  | doomed hd hd' hr =>
    refine h.open_concat hcalls rfl (by omega) hd' ?_
    rw [hr, Session.doomed_concat]
    exact ⟨fun _ => .inl ⟨rfl, show 1 < s.depth by omega⟩, fun _ => rfl⟩

end Told

end Steps

variable [Connection σ]

theorem History.told {turns : List Turn} {s : Session (Recorded σ)} (h : History turns s) :
    Told turns s := by
  induction h with
  | start connection log => exact told_of_concluded rfl rfl rfl .empty
  | @turn turns s r _ ih => exact ih.step (r.step s).1 rfl (r.step s).2

/-- What a turn owes to the turns before it: only an outermost commit of a transaction that is not
doomed makes the connection commit, and one of a doomed transaction rolls back and fails. -/
structure Turn.Lawful (turn : Turn) (before : List Turn) : Prop where
  commits : ∀ c ∈ turn.calls, c.call = .commit →
    turn.request = .commit ∧ turn.depth = 1 ∧ ¬ Doomed before
  reverses : turn.request = .commit → turn.depth = 1 → Doomed before →
    (∃ failure, turn.calls = [⟨.rollback, failure⟩]) ∧
      turn.failure = some (.transaction .rollbackOnly)

omit [Connection σ] in
theorem Told.lawful {turns : List Turn} {s t : Session (Recorded σ)} {turn : Turn}
    (h : Told turns s) (hdepth : turn.depth = s.depth)
    (hstep : Step s t turn.request turn.calls turn.failure) : turn.Lawful turns := by
  have sound (hd : s.depth = 1) (hr : s.rollbackOnly = false) : ¬ Doomed turns := by
    rw [← h.doomed (by rw [hd]; simp), hr]
    simp
  obtain ⟨request, depth, calls, failure⟩ := turn
  dsimp only at hdepth hstep
  subst hdepth
  constructor
  case commits =>
    intro c hc hcommit
    cases hstep with
    | work _ hwork _ =>
      obtain rfl := List.mem_singleton.mp hc
      simp [CallRecord.isWork, hcommit] at hwork
    | committed hd hr _ _ => exact ⟨rfl, hd, sound hd hr⟩
    | uncommitted hd hr _ _ => exact ⟨rfl, hd, sound hd hr⟩
    | refused | begun | reversed | rolledBack =>
      obtain rfl := List.mem_singleton.mp hc
      simp at hcommit
    | nested | outside | released | doomed => simp at hc
  case reverses =>
    intro hrequest hd hdoomed
    dsimp only at hrequest hd
    cases hstep with
    | work hr _ _ => simp [hrequest, Request.isWork] at hr
    | refused | begun | nested | rolledBack | doomed => simp at hrequest
    | outside _ hd' _ => omega
    | released hd' hd'' _ => omega
    | committed _ hr _ _ => exact absurd hdoomed (sound hd hr)
    | uncommitted _ hr _ _ => exact absurd hdoomed (sound hd hr)
    | reversed => exact ⟨⟨_, rfl⟩, rfl⟩

theorem History.lawful {turns : List Turn} {s : Session (Recorded σ)} (h : History turns s) :
    ∀ before turn after, turns = before ++ turn :: after → turn.Lawful before := by
  induction h with
  | start connection log =>
    intro before turn after hturns
    simp at hturns
  | @turn turns s r h ih =>
    intro before turn after hturns
    obtain ⟨rfl, rfl, -⟩ | ⟨more, -, hturns⟩ := concat_eq_append_cons.mp hturns
    · exact h.told.lawful rfl (r.step s).2
    · exact ih before turn more hturns

/-- What reaches the connection for transactions is a word of transactions that are over and at
most one that is open, which is there exactly while the depth is not zero. Outside of all
transactions none is doomed, and each turn is lawful. -/
theorem nesting_protocol {turns : List Turn} {s : Session (Recorded σ)} (h : History turns s) :
    s.connection.calls = turns.flatMap Turn.calls ∧
      (Concluded (boundaries s.connection.calls) ∨ Unfinished (boundaries s.connection.calls)) ∧
      (0 < s.depth ↔ Unfinished (boundaries s.connection.calls)) ∧
      (s.depth = 0 → s.rollbackOnly = false) ∧
      ∀ before turn after, turns = before ++ turn :: after → turn.Lawful before := by
  have htold := h.told
  refine ⟨htold.calls, ?_, ⟨fun hd => ?_, fun hopen => ?_⟩, htold.balanced, h.lawful⟩
  · by_cases hd : s.depth = 0
    · exact .inl (htold.concluded hd)
    · exact .inr (htold.unfinished hd)
  · exact htold.unfinished (Nat.pos_iff_ne_zero.mp hd)
  · refine Nat.pos_of_ne_zero fun hd => ?_
    exact (htold.concluded hd).not_unfinished hopen

theorem nesting_protocol_reversed :
    ∃ (turns : List Turn) (s : Session (Recorded Sample.Scripted)), History turns s ∧
      s.connection.calls = [⟨.begin, none⟩, ⟨.rollback, none⟩, ⟨.begin, none⟩] ∧ s.depth = 2 ∧
      Unfinished (boundaries s.connection.calls) ∧
      ∀ before turn after, turns = before ++ turn :: after → turn.Lawful before := by
  have h : History [] { connection := ⟨Sample.Scripted.mk [] false, []⟩ } := .start _ none
  have h := ((((h.turn .begin).turn .begin).turn .rollback).turn .commit)
  have h := (h.turn .begin).turn .begin
  obtain ⟨-, -, hopen, -, hlawful⟩ := nesting_protocol h
  exact ⟨_, _, h, rfl, rfl, hopen.mp (by decide), hlawful⟩

end Persistence.Session
