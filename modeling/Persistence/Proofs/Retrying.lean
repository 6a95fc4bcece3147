import Persistence.Proofs.Calls

/-!
Retrying a failed flush. What a flush is to call depends on the unit of work and on what the tracked
instances hold, but not on the identifiers that the database generates. A failed flush leaves all
but these identifiers as it was, so the next one is to call the same.
-/

namespace Persistence

open Schema (Metadata Snapshot Field)

namespace UnitOfWork

variable {w : UnitOfWork} {h h' h'' : Heap} {oid : Oid} {t : Tracked}

/-- No two fields of what is tracked share a slot. -/
def OwnSlots (w : UnitOfWork) : Prop :=
  ∀ oid t, w.tracked.get? oid = some t → (t.metadata.fields.map fun f => f.accessor.slot).Nodup

/-- The tracked instances hold the same in both heaps. -/
def SameContents (w : UnitOfWork) (h h' : Heap) : Prop :=
  ∀ oid t, w.tracked.get? oid = some t → h'.content oid = h.content oid

theorem insertValues_congr {m : Metadata} {x y : Instance}
    (hread : ∀ f ∈ m.fields, ¬ (m.generatesIdentity = true ∧ m.isIdentifier f.name = true) →
      y.read f.accessor.slot = x.read f.accessor.slot) :
    m.insertValues (m.snapshotOf y) = m.insertValues (m.snapshotOf x) := by
  refine List.map_congr_left fun f hf => ?_
  obtain ⟨hf, hwritten⟩ := List.mem_filter.mp hf
  have hvalue : IdentityKey.snapshotValue (m.snapshotOf y) f.name =
      IdentityKey.snapshotValue (m.snapshotOf x) f.name := by
    rw [IdentityKey.snapshotValue, IdentityKey.snapshotValue, Metadata.lookupEntry_snapshotOf y hf,
      Metadata.lookupEntry_snapshotOf x hf, hread f hf fun h => by simp [h] at hwritten]
  simp only [hvalue]

theorem Identified.insertValues (hh : w.Identified h h') (hown : w.OwnSlots)
    (ht : w.tracked.get? oid = some t) :
    t.metadata.insertValues (t.metadata.snapshotOf (h'.content oid)) =
      t.metadata.insertValues (t.metadata.snapshotOf (h.content oid)) := by
  refine insertValues_congr fun f hf hwritten => ?_
  obtain hsame | ⟨t', g, ht', -, hg, hmem, hids, hread⟩ := hh.objects oid
  · rw [Heap.content, hsame, Heap.content]
  · obtain rfl := Option.some.inj (ht.symm.trans ht')
    refine hread _ fun hslot => hwritten ⟨hg, ?_⟩
    rw [eq_of_key_eq (hown oid t ht) hf hmem hslot]
    simp [Metadata.isIdentifier, hids]

theorem Identified.pending_eq (hh : w.Identified h h') (hsame : w.SameContents h' h'') :
    w.pending h'' = w.pending h := by
  have hchange : ∀ e ∈ w.tracked.toList, changeOf h'' e = changeOf h e := by
    rintro ⟨oid, t⟩ he
    have ht := (w.tracked.get?_eq_some_iff oid t).mpr he
    by_cases hs : t.state = .managed
    · have hcontent : h''.content oid = h.content oid :=
        (hsame oid t ht).trans (congrArg Object.content (hh.object_eq ht (by simp [hs])))
      rw [changeOf, changeOf, hcontent]
    · simp [changeOf, hs]
  rw [pending, pending, List.filterMap_congr hchange]

theorem Identified.script_eq (hh : w.Identified h h') (hown : w.OwnSlots)
    (hsame : w.SameContents h' h'') : w.script h'' = w.script h := by
  rw [script, script, hh.pending_eq hsame]
  congr 1
  funext r
  cases r with
  | insert oid =>
    cases ht : w.tracked.get? oid with
    | none => simp [rowCalls, statement?, ht]
    | some t =>
      simp only [rowCalls, statement?, ht, hsame oid t ht, Option.pure_def, Option.bind_eq_bind,
        Option.bind_some, hh.insertValues hown ht]
  | update | delete => rfl

end UnitOfWork

namespace Manager

variable {σ : Type} [Connection σ] {m m' : Manager (Recorded σ)}

theorem post_flush_calls (hw : m.work.Consistent) :
    flush.Post
      (fun _ t => m.work.Identified m.heap t.heap ∧ m.work.Flushed m.heap m.session t.session)
      (fun _ t => m.work.Identified m.heap t.heap ∧ m.work.Attempted m.heap m.session t.session)
      m := by
  rw [post_flush_iff]
  exact UnitOfWork.post_commit_calls hw m.toEnvironment

theorem flush_makes {r : Except Error Unit} (hw : m.work.Consistent) (hrun : flush.run m = (r, m')) :
    ∃ made, m'.session.connection.calls = m.session.connection.calls ++ made ∧
      works made <+: m.work.script m.heap ∧ (r.isOk = true → works made = m.work.script m.heap) := by
  have hflush := Action.post_iff.mp (post_flush_calls hw)
  cases r with
  | ok x =>
    obtain ⟨-, made, hmade, hworks, -⟩ := hflush.1 x m' hrun
    exact ⟨made, hmade, hworks ▸ List.prefix_refl _, fun _ => hworks⟩
  | error e =>
    obtain ⟨-, made, hmade, hworks⟩ := hflush.2 e m' hrun
    exact ⟨made, hmade, hworks, fun hr => by simp [Except.isOk, Except.toBool] at hr⟩

/-- After a flush that has failed, whatever the failure and whatever identifiers were generated, the
next one sends the same statements with the same parameters in the same order, as far as both of
them get, if what is tracked and what those instances hold is still the same. One that succeeds gets
at least as far as the one that has failed. -/
theorem flush_retried {e : Error} {r : Except Error Unit} {m₂ m₃ : Manager (Recorded σ)}
    (h : Reachable anyOperation m) (hown : m.work.OwnSlots) (hfailed : flush.run m = (.error e, m'))
    (hwork : m₂.work = m'.work) (hsame : m'.work.SameContents m'.heap m₂.heap)
    (hagain : flush.run m₂ = (r, m₃)) :
    ∃ made made', m'.session.connection.calls = m.session.connection.calls ++ made ∧
      m₃.session.connection.calls = m₂.session.connection.calls ++ made' ∧
      (works made <+: works made' ∨ works made' <+: works made) ∧
      (r.isOk = true → works made <+: works made') := by
  have hkept : m'.work = m.work := (post_flush m).of_run_error hfailed
  have hidentified := ((post_flush_calls h.consistent).of_run_error hfailed).1
  obtain ⟨made, hmade, hprefix, -⟩ := flush_makes h.consistent hfailed
  have hw : m₂.work.Consistent := by
    rw [hwork, hkept]
    exact h.consistent
  obtain ⟨made', hmade', hprefix', hall⟩ := flush_makes hw hagain
  have hscript : m₂.work.script m₂.heap = m.work.script m.heap := by
    rw [hkept] at hsame
    rw [hwork, hkept]
    exact hidentified.script_eq hown hsame
  rw [hscript] at hprefix' hall
  refine ⟨made, made', hmade, hmade', List.prefix_or_prefix_of_prefix hprefix hprefix', fun hr => ?_⟩
  rw [hall hr]
  exact hprefix

section Samples

open Sample

structure Numbering where
  rows : List (List Row) := []
  ids : List String := []

instance : Connection Numbering where
  query _ _ := fun s =>
    match s.rows with
    | [] => (.ok [], s)
    | answer :: rest => (.ok answer, { s with rows := rest })
  update _ _ := pure 1
  lastInsertId := fun s =>
    match s.ids with
    | [] => (.error (.validation (.other "no identifier")), s)
    | id :: rest => (.ok id, { s with ids := rest })
  begin := pure ()
  commit := pure ()
  rollback := pure ()

def colliding : Manager (Recorded Numbering) :=
  let start := manager [userObject none "Ann"] { inner := ⟨[[userRow (.int 1) "Bob"]], ["1", "2"]⟩ }
  let found := (Operation.find user (.scalar (.int 1))).after start
  let edited := (Operation.edit (found.heap.put ⟨1⟩ ⟨user, userSlots (some 1) "Bea"⟩)).after found
  (Operation.persist ⟨0⟩).after edited

theorem reachable_colliding : Reachable anyOperation colliding := by
  have built : Reachable anyOperation (Sample.manager [userObject none "Ann"]
      ({ inner := ⟨[[userRow (.int 1) "Bob"]], ["1", "2"]⟩ } : Recorded Numbering)) :=
    .built (build_manager ..)
  exact built.run (((Runs.done _).operation (.find _ _) trivial).operation (.edit _) trivial
    |>.operation (.persist ⟨0⟩) trivial)

theorem ownSlots_colliding : colliding.work.OwnSlots := by
  have hall : colliding.work.tracked.toList.all
      (fun e => decide (e.2.metadata.fields.map fun f => f.accessor.slot).Nodup) = true := by
    decide +kernel
  intro oid t ht
  have hmem := (colliding.work.tracked.get?_eq_some_iff oid t).mp ht
  exact of_decide_eq_true (List.all_eq_true.mp hall _ hmem)

def collided : Manager (Recorded Numbering) := (flush.run colliding).2

def retried : Manager (Recorded Numbering) := (flush.run collided).2

theorem flush_retried_colliding :
    collided.heap.content ⟨0⟩ = ⟨user, userSlots (some 1) "Ann"⟩ ∧ ∃ made made',
      collided.session.connection.calls = colliding.session.connection.calls ++ made ∧
      retried.session.connection.calls = collided.session.connection.calls ++ made' ∧
      works made = [.update "INSERT INTO users (name) VALUES (?)" [.text "Ann"], .lastInsertId] ∧
      works made' = [.update "INSERT INTO users (name) VALUES (?)" [.text "Ann"], .lastInsertId,
        .update "UPDATE users SET name = ? WHERE id = ?" [.text "Bea", .int 1]] ∧
      works made <+: works made' := by
  have hfailed : (flush.run colliding).1.isOk = false := by decide +kernel
  have hdone : (flush.run collided).1.isOk = true := by decide +kernel
  obtain ⟨e, hrun⟩ : ∃ e, flush.run colliding = (.error e, collided) := by
    unfold collided
    generalize flush.run colliding = outcome at hfailed
    obtain ⟨x | e, t⟩ := outcome
    · exact ⟨x, rfl⟩
    · simp [Except.isOk, Except.toBool] at hfailed
  have hretried : flush.run collided = ((flush.run collided).1, retried) := rfl
  obtain ⟨made, made', hmade, hmade', -, hprefix⟩ := flush_retried reachable_colliding
    ownSlots_colliding hrun rfl (fun _ _ _ => rfl) hretried
  have hfirst : made = collided.session.connection.calls.drop
      colliding.session.connection.calls.length := by rw [hmade, List.drop_left]
  have hsecond : made' = retried.session.connection.calls.drop
      collided.session.connection.calls.length := by rw [hmade', List.drop_left]
  refine ⟨by decide +kernel, made, made', hmade, hmade', ?_, ?_, hprefix hdone⟩
  · rw [hfirst]
    decide +kernel
  · rw [hsecond]
    decide +kernel

end Samples

end Manager
end Persistence
