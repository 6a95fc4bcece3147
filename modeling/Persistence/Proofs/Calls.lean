import Persistence.Proofs.Nesting
import Persistence.Proofs.Noting
import Persistence.Proofs.Texts

/-!
The calls of a flush. Each row has its statement, and an inserted row whose identifier the database
generates has one more call, which asks for it. A flush that succeeds makes the calls of all rows in
order, one that fails makes the first of them, and neither changes anything of the instances but the
generated identifiers.
-/

namespace Persistence

open Schema (Metadata Snapshot Field)
open Persistence.Action (post_of_forall post_mapM)

variable {σ : Type}

namespace Session

variable {s t u : Session (Recorded σ)} {script script' : List Call}

def Sends (script : List Call) (s t : Session (Recorded σ)) : Prop :=
  s.SameNesting t ∧ t.connection.calls = s.connection.calls ++ script.map fun c => ⟨c, none⟩

def Tries (script : List Call) (s t : Session (Recorded σ)) : Prop :=
  s.SameNesting t ∧ ∃ made, t.connection.calls = s.connection.calls ++ made ∧
    made.map CallRecord.call <+: script

theorem Sends.refl (s : Session (Recorded σ)) : Sends [] s s := ⟨⟨rfl, rfl⟩, by simp⟩

theorem Tries.refl (s : Session (Recorded σ)) : Tries script s s :=
  ⟨⟨rfl, rfl⟩, [], by simp, List.nil_prefix⟩

theorem Sends.tries (h : Sends script s t) : Tries script s t := by
  refine ⟨h.1, _, h.2, ?_⟩
  simp [Function.comp_def]

theorem Sends.trans (h : Sends script s t) (h' : Sends script' t u) :
    Sends (script ++ script') s u := by
  refine ⟨⟨h'.1.1.trans h.1.1, h'.1.2.trans h.1.2⟩, ?_⟩
  rw [h'.2, h.2, List.map_append, List.append_assoc]

theorem Sends.trans_tries (h : Sends script s t) (h' : Tries script' t u) :
    Tries (script ++ script') s u := by
  obtain ⟨hn, made, hmade, hprefix⟩ := h'
  refine ⟨⟨hn.1.trans h.1.1, hn.2.trans h.1.2⟩, (script.map fun c => ⟨c, none⟩) ++ made, ?_, ?_⟩
  · rw [hmade, h.2, List.append_assoc]
  · rw [List.map_append, List.map_map]
    simpa [Function.comp_def, List.prefix_append_right_inj] using hprefix

theorem Tries.mono (h : Tries script s t) (hs : script <+: script') : Tries script' s t := by
  obtain ⟨hn, made, hmade, hprefix⟩ := h
  exact ⟨hn, made, hmade, hprefix.trans hs⟩

variable [Connection σ]

theorem post_execute_sends (s : Session (Recorded σ)) (x : Sql.Statement) :
    (execute x).Post (fun _ t => Sends [x.call] s t) (fun _ t => Tries [x.call] s t) s := by
  rw [execute, post_update]
  refine (Recorded.post_calls (.update x.sql x.parameters)
    (Connection.update x.sql x.parameters) s.connection).mono (fun _ c hc => ?_) fun e c hc => ?_
  · exact ⟨⟨rfl, rfl⟩, hc⟩
  · exact ⟨⟨rfl, rfl⟩, _, hc, List.prefix_refl _⟩

theorem post_lastInsertId_sends (s : Session (Recorded σ)) :
    lastInsertId.Post (fun _ t => Sends [.lastInsertId] s t)
      (fun _ t => Tries [.lastInsertId] s t) s := by
  rw [lastInsertId, onConnection, Action.post_onPart]
  refine (Recorded.post_calls .lastInsertId Connection.lastInsertId s.connection).mono
    (fun _ c hc => ?_) fun e c hc => ?_
  · exact ⟨⟨rfl, rfl⟩, hc⟩
  · exact ⟨⟨rfl, rfl⟩, _, hc, List.prefix_refl _⟩

end Session

/-- The calls for rows among all calls. -/
def works (made : List CallRecord) : List Call :=
  (made.filter CallRecord.isWork).map CallRecord.call

theorem works_append (xs ys : List CallRecord) : works (xs ++ ys) = works xs ++ works ys := by
  simp [works]

theorem works_of_step {s t : Session (Recorded σ)} {r : Session.Request} {calls : List CallRecord}
    {failure : Option Error} (h : Session.Step s t r calls failure) (hr : r.isWork = false) :
    works calls = [] := by
  cases h with
  | work hwork => simp [hr] at hwork
  | _ => rfl

namespace UnitOfWork

open Session (Sends Tries)

variable {w : UnitOfWork} {heap h h' h'' : Heap} {c : ChangeSet} {oid : Oid} {t : Tracked}
  {r : RowChange}

structure Identified (w : UnitOfWork) (h h' : Heap) : Prop where
  initials : h'.initials = h.initials
  size : h'.objects.length = h.objects.length
  objects : ∀ j, h'.object j = h.object j ∨ ∃ t f, w.tracked.get? j = some t ∧ t.state = .new ∧
    t.metadata.generatesIdentity = true ∧ f ∈ t.metadata.fields ∧
    t.metadata.identifiers = [f.name] ∧
    ∀ i, i ≠ f.accessor.slot → (h'.content j).read i = (h.content j).read i

theorem Identified.refl (w : UnitOfWork) (h : Heap) : w.Identified h h :=
  ⟨rfl, rfl, fun _ => .inl rfl⟩

theorem Identified.trans (hh : w.Identified h h') (hh' : w.Identified h' h'') :
    w.Identified h h'' := by
  refine ⟨hh'.initials.trans hh.initials, hh'.size.trans hh.size, fun j => ?_⟩
  obtain hsame | ⟨t, f, ht, hs, hg, hf, hids, hread⟩ := hh.objects j
  · obtain hsame' | ⟨t, f, ht, hs, hg, hf, hids, hread⟩ := hh'.objects j
    · exact .inl (hsame'.trans hsame)
    · refine .inr ⟨t, f, ht, hs, hg, hf, hids, fun i hi => ?_⟩
      rw [hread i hi, Heap.content, hsame, Heap.content]
  · refine .inr ⟨t, f, ht, hs, hg, hf, hids, fun i hi => ?_⟩
    obtain hsame' | ⟨t', f', ht', -, -, hf', hids', hread'⟩ := hh'.objects j
    · rw [Heap.content, hsame', ← Heap.content, hread i hi]
    · obtain rfl := Option.some.inj (ht.symm.trans ht')
      have hname : f'.name = f.name := by simpa [hids] using hids'.symm
      obtain rfl := eq_of_key_eq t.metadata.fieldNames_nodup hf' hf hname
      rw [hread' i hi, hread i hi]

theorem identified_of_identify {id : String} (ht : w.tracked.get? oid = some t)
    (hs : t.state = .new) (hg : t.metadata.generatesIdentity = true)
    (hid : h.identify t.metadata oid id = .ok h') : w.Identified h h' := by
  obtain ⟨f, hf, hids⟩ := Metadata.identifiers_eq_of_generates hg
  obtain ⟨v, -, -, hread⟩ := Heap.read_identify hf hids hid
  obtain ⟨y, -, hput⟩ := Heap.of_identify hid
  refine ⟨by rw [hput]; rfl, by simp [hput, Heap.put], fun j => ?_⟩
  by_cases hj : j = oid
  · subst hj
    exact .inr ⟨t, f, ht, hs, hg, hf, hids, hread⟩
  · exact .inl (Heap.object_identify hid j hj)

theorem Identified.object_eq (hh : w.Identified h h') (ht : w.tracked.get? oid = some t)
    (hs : t.state ≠ .new) : h'.object oid = h.object oid := by
  obtain hsame | ⟨t', -, ht', hnew, -⟩ := hh.objects oid
  · exact hsame
  · obtain rfl := Option.some.inj (ht.symm.trans ht')
    exact absurd hnew hs

def Touches (w : UnitOfWork) (oid : Oid) (h h' : Heap) : Prop :=
  (∀ j, j ≠ oid → h'.object j = h.object j) ∧ w.Identified h h'

theorem Touches.refl (oid : Oid) (h : Heap) : w.Touches oid h h := ⟨fun _ _ => rfl, .refl w h⟩

def changeOf (h : Heap) (e : Oid × Tracked) : Option PendingUpdate :=
  let current := e.2.metadata.snapshotOf (h.content e.1)
  let changes := changedFields e.2.snapshot current
  if e.2.state = .managed ∧ changes ≠ [] then some ⟨e.1, changes, current⟩ else none

def pending (w : UnitOfWork) (h : Heap) : ChangeSet :=
  ⟨w.insertions, w.tracked.toList.filterMap (changeOf h), w.deletions⟩

def inquiries (w : UnitOfWork) : RowChange → List Call
  | .insert oid =>
    if (w.tracked.get? oid).any fun t => t.metadata.generatesIdentity then [.lastInsertId] else []
  | .update _ | .delete _ => []

def statement? (w : UnitOfWork) (h : Heap) : RowChange → Option Sql.Statement
  | .insert oid => do
    let t ← w.tracked.get? oid
    return .insert t.metadata.fullTableName
      (t.metadata.insertValues (t.metadata.snapshotOf (h.content oid)))
  | .update u => do
    let t ← w.tracked.get? u.oid
    let key ← t.key
    return .update t.metadata.fullTableName (t.metadata.assignments u.changes)
      (key.conditions t.metadata)
  | .delete oid => do
    let t ← w.tracked.get? oid
    let key ← t.key
    return .delete t.metadata.fullTableName (key.conditions t.metadata)

def rowCalls (w : UnitOfWork) (h : Heap) (r : RowChange) : List Call :=
  match w.statement? h r with
  | some s => s.call :: w.inquiries r
  | none => []

def script (w : UnitOfWork) (h : Heap) : List Call :=
  (changedRows (w.pending h)).flatMap (w.rowCalls h)

theorem eq_of_mem_inquiries {call : Call} (h : call ∈ w.inquiries r) : call = .lastInsertId := by
  cases r with
  | insert oid =>
    rw [inquiries] at h
    split at h
    · exact List.mem_singleton.mp h
    · simp at h
  | update | delete => simp [inquiries] at h

theorem pendingUpdates_eq {es : List (Oid × Tracked)} {us : List PendingUpdate}
    (hus : pendingUpdates h es = .ok us) : us = es.filterMap (changeOf h) := by
  induction es generalizing us with
  | nil => exact (Except.ok.inj hus).symm
  | cons e es ih =>
    obtain ⟨oid, t⟩ := e
    obtain ⟨hs, hrest⟩ | ⟨hs, current, more, hv, hmore, hus⟩ := pendingUpdates_cons hus
    · rw [List.filterMap_cons_none (by simp [changeOf, hs]), ← ih hrest]
    · have hvalues := Heap.values_eq hv
      subst hvalues
      obtain ⟨hnil, rfl⟩ | ⟨hne, rfl⟩ := hus
      · rw [List.filterMap_cons_none (by simp [changeOf, hnil]), ← ih hmore]
      · have hchange : changeOf h (oid, t) = some ⟨oid, changedFields t.snapshot
            (t.metadata.snapshotOf (h.content oid)), t.metadata.snapshotOf (h.content oid)⟩ := by
          simp [changeOf, hs, hne]
        rw [List.filterMap_cons_some hchange, ← ih hmore]

theorem pending_eq (hc : w.changeSet h = .ok c) : c = w.pending h := by
  obtain ⟨hins, hdel, hus⟩ := changeSet_eq hc
  obtain ⟨inserts, updates, deletes⟩ := c
  simp only at hins hdel hus
  rw [pending, hins, hdel, pendingUpdates_eq hus]

theorem exists_key_of_mem_changedRows (hw : w.Consistent) (hc : w.changeSet h = .ok c)
    (hr : r ∈ changedRows c) (hins : ∀ oid, r ≠ .insert oid)
    (ht : w.tracked.get? r.oid = some t) : ∃ key, t.key = some key := by
  rw [← Option.ne_none_iff_exists', ne_eq, hw.key_eq_none_iff r.oid t ht, ← state_of_get? ht]
  obtain ⟨-, hdel, -⟩ := changeSet_eq hc
  cases r with
  | insert oid => exact absurd rfl (hins oid)
  | update u =>
    have hu : u ∈ c.updates := by simpa [changedRows] using hr
    simp [RowChange.oid, state_of_mem_updates hc hu]
  | delete oid =>
    have hoid : oid ∈ w.deletions := by
      rw [← hdel]
      simpa [changedRows] using hr
    simp [RowChange.oid, (hw.mem_deletions oid).mp hoid]

theorem statement?_of_statement {s : Sql.Statement} {h₀ : Heap} (hw : w.Consistent)
    (hc : w.changeSet h₀ = .ok c) (hr : r ∈ changedRows c) (hs : w.statement h r = .ok s) :
    w.statement? h r = some s := by
  obtain ⟨t, ht⟩ := exists_require hs
  have ht := require_eq_ok.mp ht
  cases r with
  | insert oid =>
    rw [statement_insert_eq ht hs, statement?, show w.tracked.get? oid = some t from ht]
    rfl
  | update u =>
    obtain ⟨key, hkey⟩ := exists_key_of_mem_changedRows hw hc hr (by simp) ht
    simp [statement?, show w.tracked.get? u.oid = some t from ht, hkey,
      statement_update_eq ht hkey hs]
  | delete oid =>
    obtain ⟨key, hkey⟩ := exists_key_of_mem_changedRows hw hc hr (by simp) ht
    simp [statement?, show w.tracked.get? oid = some t from ht, hkey, statement_delete_eq ht hkey hs]

theorem rowCalls_congr (hobject : h'.object r.oid = h.object r.oid) :
    w.rowCalls h' r = w.rowCalls h r := by
  cases r with
  | insert oid =>
    have hcontent : h'.content oid = h.content oid := congrArg Object.content hobject
    simp only [rowCalls, statement?, hcontent]
  | update | delete => rfl

section Sending

variable [Connection σ]

theorem post_receive_calls (m : Metadata) (oid : Oid) (env : Environment (Recorded σ)) :
    let script := if m.generatesIdentity then [Call.lastInsertId] else []
    (receive m oid).Post (fun _ t => Sends script env.session t.session)
      (fun _ t => Tries script env.session t.session) env := by
  rw [receive, Action.post_ite]
  refine ⟨fun hg => ?_, fun hg => ?_⟩
  · simp only [hg, if_true]
    rw [Action.post_bind]
    refine (Environment.post_onSession (Session.post_lastInsertId_sends env.session)).mono
      (fun id told htold => ?_) fun _ _ h => h.2
    simp only [Environment.writeIdentifier_eq, Action.post_bind, Action.post_get,
      Action.post_liftExcept, Action.post_modify]
    exact ⟨fun _ _ => htold.2, fun _ _ => htold.2.tries⟩
  · simp only [hg, Bool.false_eq_true, if_false]
    exact .refl _

theorem post_send_calls {h₀ : Heap} (hw : w.Consistent) (hc : w.changeSet h₀ = .ok c)
    (hr : r ∈ changedRows c) (env : Environment (Recorded σ)) :
    (w.send r).Post (fun _ t => Sends (w.rowCalls env.heap r) env.session t.session)
      (fun _ t => Tries (w.rowCalls env.heap r) env.session t.session) env := by
  simp only [send, Action.post_bind, Action.post_get, Action.post_liftExcept, Action.post_discard]
  refine ⟨fun s hs => ?_, fun _ _ => .refl _⟩
  obtain ⟨t, ht⟩ := exists_require hs
  have hcalls : w.rowCalls env.heap r = [s.call] ++ w.inquiries r := by
    rw [rowCalls, statement?_of_statement hw hc hr hs]
    rfl
  rw [hcalls]
  refine (Environment.post_onSession (Session.post_execute_sends env.session s)).mono
    (fun _ taken htaken => ?_) fun _ _ h => h.2.mono (List.prefix_append _ _)
  obtain ⟨-, hsent⟩ := htaken
  cases r with
  | insert oid =>
    have hinquiries : w.inquiries (.insert oid) =
        if t.metadata.generatesIdentity then [.lastInsertId] else [] := by
      rw [inquiries, require_eq_ok.mp (show w.require oid = .ok t from ht), Option.any_some]
    rw [hinquiries]
    simp only [conclude, Action.post_bind, Action.post_get, Action.post_liftExcept,
      Action.post_pure, show w.require oid = .ok t from ht, Except.ok.injEq, forall_eq',
      reduceCtorEq, false_implies, implies_true, and_true]
    refine (post_receive_calls t.metadata oid taken).mono (fun _ _ hreceived => ?_) fun _ _ h =>
      hsent.trans_tries h
    have hall := hsent.trans hreceived
    exact ⟨fun _ _ => hall, fun _ _ => hall.tries⟩
  | update u =>
    simp only [conclude, Action.post_bind, Action.post_liftExcept, Action.post_pure, inquiries,
      List.append_nil]
    exact ⟨fun _ _ => ⟨fun _ _ => hsent, fun _ _ => hsent.tries⟩, fun _ _ => hsent.tries⟩
  | delete oid =>
    simpa only [conclude, Action.post_pure, inquiries, List.append_nil] using hsent

theorem post_send_touches (hr : ∀ oid, r = .insert oid → w.state oid = .new)
    (env : Environment σ) :
    (w.send r).Post (fun _ t => w.Touches r.oid env.heap t.heap)
      (fun _ t => w.Touches r.oid env.heap t.heap) env := by
  simp only [send, Action.post_bind, Action.post_get, Action.post_liftExcept, Action.post_discard]
  refine ⟨fun s hs => ?_, fun _ _ => .refl _ _⟩
  have same {h : Heap} (hh : h = env.heap) : w.Touches r.oid env.heap h := hh ▸ .refl _ _
  obtain ⟨t, ht⟩ := exists_require hs
  refine (Environment.post_onSession_heap _ env).mono (fun _ taken htaken => ?_) fun _ _ h => same h
  cases r with
  | insert oid =>
    have ht : w.tracked.get? oid = some t := require_eq_ok.mp ht
    have hs : t.state = .new := by rw [← state_of_get? ht, hr oid rfl]
    simp only [conclude, receive, Action.post_bind, Action.post_get, Action.post_liftExcept,
      Action.post_pure, Action.post_ite, require_eq_ok.mpr ht, Except.ok.injEq, forall_eq',
      reduceCtorEq, false_implies, implies_true, and_true]
    refine ⟨fun hg => ?_, fun _ => ⟨fun _ _ => same htaken, fun _ _ => same htaken⟩⟩
    refine (Environment.post_onSession_heap _ taken).mono (fun id told htold => ?_)
      fun _ _ h => same (h.trans htaken)
    simp only [Environment.writeIdentifier_eq, Action.post_bind, Action.post_get,
      Action.post_liftExcept, Action.post_modify, htold, htaken]
    refine ⟨fun h' hh' => ?_, fun _ _ => .refl _ _⟩
    have htouched : w.Touches oid env.heap h' :=
      ⟨Heap.object_identify hh', identified_of_identify ht hs hg hh'⟩
    exact ⟨fun _ _ => htouched, fun _ _ => htouched⟩
  | update u =>
    simp only [conclude, Action.post_bind, Action.post_liftExcept, Action.post_pure]
    exact ⟨fun _ _ => ⟨fun _ _ => same htaken, fun _ _ => same htaken⟩, fun _ _ => same htaken⟩
  | delete oid => exact same htaken

theorem state_of_mem_changedRows (hw : w.Consistent) (hc : w.changeSet h = .ok c)
    (hr : .insert oid ∈ changedRows c) : w.state oid = .new := by
  rw [← hw.mem_insertions, ← (changeSet_eq hc).1]
  simpa [changedRows] using hr

theorem post_write_calls (hw : w.Consistent) {env : Environment (Recorded σ)}
    (hc : w.changeSet env.heap = .ok c) :
    (w.write c).Post
      (fun _ t => Sends (w.script env.heap) env.session t.session ∧ w.Identified env.heap t.heap)
      (fun _ t => Tries (w.script env.heap) env.session t.session ∧ w.Identified env.heap t.heap)
      env := by
  rw [write_eq, Action.post_map, script, ← pending_eq hc]
  refine (post_mapM (J := fun before _ (t : Environment (Recorded σ)) =>
    Sends (before.flatMap (w.rowCalls env.heap)) env.session t.session ∧
      (∀ j, j ∉ before.map RowChange.oid → t.heap.object j = env.heap.object j) ∧
      w.Identified env.heap t.heap) ⟨.refl _, fun _ _ => rfl, .refl _ _⟩ ?_).mono
    (fun _ _ hJ => ⟨hJ.1, hJ.2.2⟩) fun _ _ => id
  rintro before r rest xss mid hrows ⟨hsent, hwaiting, hidentified⟩
  have hmem : r ∈ changedRows c := by simp [hrows]
  have hcalls : w.rowCalls mid.heap r = w.rowCalls env.heap r :=
    rowCalls_congr (hwaiting r.oid (oid_not_mem_before hw hc hrows))
  have hsend := (post_send_calls hw hc hmem mid).and (post_send_touches
    (fun oid hoid => state_of_mem_changedRows hw hc (hoid ▸ hmem)) mid)
  rw [hcalls] at hsend
  refine hsend.mono (fun _ t ht => ?_) fun _ t ht => ?_
  · obtain ⟨hsent', hothers, hidentified'⟩ := ht
    refine ⟨?_, fun j hj => ?_, hidentified.trans hidentified'⟩
    · simpa [List.flatMap_append] using hsent.trans hsent'
    · rw [List.map_append, List.mem_append, not_or] at hj
      rw [hothers j fun heq => hj.2 (by simp [heq]), hwaiting j hj.1]
  · obtain ⟨htried, -, hidentified'⟩ := ht
    refine ⟨(hsent.trans_tries htried).mono ?_, hidentified.trans hidentified'⟩
    rw [hrows, List.flatMap_append, List.flatMap_cons]
    exact (List.prefix_append_right_inj _).mpr (List.prefix_append _ _)

omit [Connection σ] in
theorem isWork_of_mem_script {call : Call} (h : call ∈ w.script h) (failure : Option Error) :
    CallRecord.isWork ⟨call, failure⟩ = true := by
  obtain ⟨r, -, hcall⟩ := List.mem_flatMap.mp h
  unfold rowCalls at hcall
  split at hcall
  · rcases List.mem_cons.mp hcall with rfl | hcall
    · rfl
    · rw [eq_of_mem_inquiries hcall]
      rfl
  · simp at hcall

omit [Connection σ] in
theorem script_eq_nil (hempty : (w.pending h).isEmpty = true) : w.script h = [] := by
  simp only [ChangeSet.isEmpty, Bool.and_eq_true, List.isEmpty_iff] at hempty
  simp [script, changedRows, hempty]

omit [Connection σ] in
theorem works_of_start {made : List CallRecord} (h : made.map CallRecord.call <+: w.script heap) :
    works made = made.map CallRecord.call := by
  rw [works, List.filter_eq_self.mpr fun c hc => ?_]
  exact isWork_of_mem_script (h.subset (List.mem_map_of_mem hc)) c.failure

omit [Connection σ] in
theorem works_of_script : works ((w.script heap).map fun c => ⟨c, none⟩) = w.script heap := by
  have hprefix : ((w.script heap).map fun c => (⟨c, none⟩ : CallRecord)).map CallRecord.call <+:
      w.script heap := by simp [Function.comp_def]
  rw [works_of_start hprefix]
  simp [Function.comp_def]

def enclosed (w : UnitOfWork) (h : Heap) : List CallRecord :=
  (Call.begin :: w.script h ++ [Call.commit]).map fun c => ⟨c, none⟩

def Flushed (w : UnitOfWork) (h : Heap) (s t : Session (Recorded σ)) : Prop :=
  ∃ made, t.connection.calls = s.connection.calls ++ made ∧ works made = w.script h ∧
    (s.depth = 0 → s.rollbackOnly = false →
      made = if (w.pending h).isEmpty then [] else w.enclosed h)

def Attempted (w : UnitOfWork) (h : Heap) (s t : Session (Recorded σ)) : Prop :=
  ∃ made, t.connection.calls = s.connection.calls ++ made ∧ works made <+: w.script h

omit [Connection σ] in
theorem flushed_of_sends {s started done t : Session (Recorded σ)}
    (hne : (w.pending heap).isEmpty = false) (hbegun : s.Stepped started .begin none)
    (hsent : Sends (w.script heap) started done) (hended : done.Stepped t .commit none) :
    w.Flushed heap s t := by
  obtain ⟨opening, hopening, hbegun⟩ := hbegun
  obtain ⟨closing, hclosing, hended⟩ := hended
  obtain ⟨⟨hdepth, honly⟩, hsent⟩ := hsent
  refine ⟨opening ++ (w.script heap).map (fun c => ⟨c, none⟩) ++ closing, ?_, ?_, fun hd hr => ?_⟩
  · simp [hclosing, hsent, hopening]
  · rw [works_append, works_append, works_of_step hbegun rfl, works_of_step hended rfl,
      works_of_script]
    simp
  · rw [hne, enclosed]
    cases hbegun with
    | work hwork => simp [Session.Request.isWork] at hwork
    | nested h => exact absurd hd h
    | begun _ hone hsame =>
      cases hended with
      | work hwork => simp [Session.Request.isWork] at hwork
      | released h h' => omega
      | committed => simp

omit [Connection σ] in
theorem attempted_of_tries {s started failed t : Session (Recorded σ)} {r : Session.Request}
    {e : Option Error} (hbegun : s.Stepped started .begin none)
    (htried : Tries (w.script heap) started failed) (hended : failed.Stepped t r e)
    (hr : r.isWork = false) : w.Attempted heap s t := by
  obtain ⟨opening, hopening, hbegun⟩ := hbegun
  obtain ⟨closing, hclosing, hended⟩ := hended
  obtain ⟨-, made, hmade, hprefix⟩ := htried
  refine ⟨opening ++ made ++ closing, by simp [hclosing, hmade, hopening], ?_⟩
  rw [works_append, works_append, works_of_step hbegun rfl, works_of_step hended hr,
    works_of_start hprefix, List.nil_append, List.append_nil]
  exact hprefix

/-- A flush that succeeds makes the calls of all rows, one that fails makes the first of them. -/
theorem post_commit_calls (hw : w.Consistent) (env : Environment (Recorded σ)) :
    w.commit.Post
      (fun _ t => w.Identified env.heap t.heap ∧ w.Flushed env.heap env.session t.session)
      (fun _ t => w.Identified env.heap t.heap ∧ w.Attempted env.heap env.session t.session)
      env := by
  simp only [commit, Action.post_bind, Action.post_get, Action.post_liftExcept, Action.post_ite,
    Action.post_pure]
  have still : w.Attempted env.heap env.session env.session := ⟨[], by simp, List.nil_prefix⟩
  refine ⟨fun c hc => ⟨fun hempty => ⟨.refl _ _, ?_⟩, fun hne => ?_⟩, fun _ _ => ⟨.refl _ _, still⟩⟩
  · rw [pending_eq hc] at hempty
    exact ⟨[], by simp, (script_eq_nil hempty).symm, fun _ _ => by rw [if_pos hempty]⟩
  have hne : (w.pending env.heap).isEmpty = false := by simpa [pending_eq hc] using hne
  refine (Environment.post_onSession (Session.post_step_begin env.session)).mono
    (fun _ inner hinner => ?_) fun e failed hfailed => ?_
  case refine_2 =>
    obtain ⟨hheap, calls, hcalls, hstep⟩ := hfailed
    refine ⟨hheap ▸ .refl _ _, calls, hcalls, ?_⟩
    rw [works_of_step hstep rfl]
    exact List.nil_prefix
  obtain ⟨hheap, hbegun⟩ := hinner
  have hwrite := post_write_calls hw (show w.changeSet inner.heap = .ok c by rw [hheap, hc])
  rw [hheap] at hwrite
  rw [Action.post_attempt]
  refine hwrite.mono (fun written done hdone => ?_) fun e failed hfailed => ?_
  · obtain ⟨hsent, hidentified⟩ := hdone
    simp only [Action.post_bind, Action.post_pure]
    refine (Environment.post_onSession (Session.post_step_commit done.session)).mono
      (fun _ t ht => ?_) fun _ t ht => ?_
    · exact ⟨ht.1 ▸ hidentified, flushed_of_sends hne hbegun hsent ht.2⟩
    · exact ⟨ht.1 ▸ hidentified, attempted_of_tries hbegun hsent.tries ht.2 rfl⟩
  · obtain ⟨htried, hidentified⟩ := hfailed
    simp only [Action.post_bind, Action.post_discard, Action.post_attempt, Action.post_throw]
    refine (Environment.post_onSession (Session.post_step_rollback failed.session)).mono
      (fun _ t ht => ?_) fun _ t ht => ?_
    all_goals exact ⟨ht.1 ▸ hidentified, attempted_of_tries hbegun htried ht.2 rfl⟩

end Sending

end UnitOfWork
end Persistence
