import Persistence.Proofs.Addresses
import Persistence.Proofs.Queues
import Persistence.Proofs.Retrying
import Persistence.Proofs.Settled

/-!
The script of a flush: what the connection receives, told by what is tracked, by what the instances
hold, and by the keys that their rows were last loaded or written under.
-/

namespace Persistence

open Schema (Metadata Snapshot Field)

/-- Column and value of each identifier field in declaration order. -/
def Schema.Metadata.place (m : Metadata) (key : IdentityKey) : List (String × Value) :=
  (m.fields.filter fun f => m.isIdentifier f.name).map fun f =>
    (f.column, (key.get? f.name).getD .null)

namespace Tracked

/-- The calls for a new instance: all columns are written, apart from a generated identifier, which
is asked for at once. -/
def insertion (t : Tracked) (x : Instance) : List Call :=
  let m := t.metadata
  let written := m.fields.filter fun f => !(m.generatesIdentity && m.isIdentifier f.name)
  .insert m.fullTableName (written.map fun f => (f.column, f.inserted x)) ::
    if m.generatesIdentity then [.lastInsertId] else []

/-- The call for a managed instance, if there is a field that differs from its snapshot. -/
def alteration (t : Tracked) (key : IdentityKey) (x : Instance) : List Call :=
  let m := t.metadata
  let changed := m.fields.filter fun f =>
    lookupEntry f.name t.snapshot ≠ some (x.read f.accessor.slot)
  if t.state = .managed ∧ changed ≠ [] then
    [.assign m.fullTableName (changed.map fun f => (f.column, x.read f.accessor.slot))
      (m.place key)]
  else []

def deletion (t : Tracked) (key : IdentityKey) : List Call :=
  [.delete t.metadata.fullTableName (t.metadata.place key)]

end Tracked

namespace UnitOfWork

/-- The calls for all rows, which are found under the given keys. -/
def changes (w : UnitOfWork) (h : Heap) (address : Oid → IdentityKey) : List Call :=
  (w.insertions.flatMap fun oid =>
    (w.tracked.get? oid).elim [] fun t => t.insertion (h.content oid)) ++
  (w.tracked.toList.flatMap fun (oid, t) => t.alteration (address oid) (h.content oid)) ++
  (w.deletions.flatMap fun oid =>
    (w.tracked.get? oid).elim [] fun t => t.deletion (address oid))

/-- Every instance is managed, and its fields are those of its snapshot. -/
def Idle (w : UnitOfWork) (h : Heap) : Prop := ∀ oid t, w.tracked.get? oid = some t →
  t.state = .managed ∧ h.values t.metadata oid = .ok t.snapshot

end UnitOfWork

namespace Schema.Metadata

theorem conditions_eq_place (m : Metadata) (key : IdentityKey) :
    key.conditions m = m.place key := by
  rw [IdentityKey.conditions, identifierFields_eq, place]

end Schema.Metadata

theorem IdentityKey.Full.place {m : Metadata} {key : IdentityKey} (hfull : key.Full)
    (hkey : key.Belongs m) : m.place key ≠ [] ∧ ∀ e ∈ m.place key, e.2 ≠ .null := by
  obtain ⟨hne, hvalues⟩ := hfull.exists_value hkey
  rw [m.identifiers_eq] at hne hvalues
  refine ⟨fun hnil => hne ?_, fun e he => ?_⟩
  · rw [List.map_eq_nil_iff.mp hnil, List.map_nil]
  · obtain ⟨f, hf, rfl⟩ := List.mem_map.mp he
    obtain ⟨v, hv, hget⟩ := hvalues f.name (List.mem_map_of_mem hf)
    simpa [hget] using hv

namespace UnitOfWork

variable {w : UnitOfWork} {h : Heap} {c : ChangeSet} {oid : Oid} {t : Tracked} {key : IdentityKey}

theorem rowCalls_insert (w : UnitOfWork) (h : Heap) (oid : Oid) : w.rowCalls h (.insert oid) =
    (w.tracked.get? oid).elim [] fun t => t.insertion (h.content oid) := by
  cases ht : w.tracked.get? oid with
  | none => simp [rowCalls, statement?, ht]
  | some t =>
    simp [rowCalls, statement?, inquiries, ht, Sql.Statement.call_insert, Tracked.insertion,
      Metadata.insertValues_snapshotOf]

theorem rowCalls_delete (ht : w.tracked.get? oid = some t) (hkey : t.key = some key)
    (hfull : key.Full) (hbelongs : key.Belongs t.metadata) :
    w.rowCalls h (.delete oid) = t.deletion key := by
  obtain ⟨hne, hnull⟩ := hfull.place hbelongs
  simp [rowCalls, statement?, inquiries, ht, hkey, t.metadata.conditions_eq_place,
    Sql.Statement.call_delete _ hne hnull, Tracked.deletion]

theorem changedFields_ne_nil_iff (t : Tracked) (x : Instance) :
    changedFields t.snapshot (t.metadata.snapshotOf x) ≠ [] ↔
      (t.metadata.fields.filter fun f =>
        lookupEntry f.name t.snapshot ≠ some (x.read f.accessor.slot)) ≠ [] := by
  rw [changedFields, Metadata.snapshotOf, List.filter_map, ne_eq, List.map_eq_nil_iff]
  rfl

theorem flatMap_rowCalls_changeOf (ht : w.tracked.get? oid = some t) (hkey : t.key = some key)
    (hfull : key.Full) (hbelongs : key.Belongs t.metadata) :
    (changeOf h (oid, t)).toList.flatMap (fun u => w.rowCalls h (.update u)) =
      t.alteration key (h.content oid) := by
  obtain ⟨hne, hnull⟩ := hfull.place hbelongs
  simp only [changeOf, Tracked.alteration, ← changedFields_ne_nil_iff]
  split
  · simp [rowCalls, statement?, inquiries, ht, hkey, t.metadata.conditions_eq_place,
      Sql.Statement.call_update _ _ hne hnull, assignments_changedFields]
  · rfl

theorem script_eq_changes (hw : w.Consistent) {address : Oid → IdentityKey}
    (haddress : ∀ oid t, w.tracked.get? oid = some t → t.state ≠ .new →
      t.key = some (address oid) ∧ (address oid).Full ∧ (address oid).Belongs t.metadata) :
    w.script h = w.changes h address := by
  have hupdates : (w.tracked.toList.filterMap (changeOf h)).flatMap
      (fun u => w.rowCalls h (.update u)) =
      w.tracked.toList.flatMap fun (oid, t) => t.alteration (address oid) (h.content oid) := by
    rw [List.filterMap_eq_flatMap_toList, List.flatMap_assoc]
    refine List.flatMap_congr fun ⟨oid, t⟩ he => ?_
    have ht := (w.tracked.get?_eq_some_iff oid t).mpr he
    by_cases hs : t.state = .new
    · simp [changeOf, Tracked.alteration, hs]
    · obtain ⟨hkey, hfull, hbelongs⟩ := haddress oid t ht hs
      exact flatMap_rowCalls_changeOf ht hkey hfull hbelongs
  have hdeletes : w.deletions.flatMap (fun oid => w.rowCalls h (.delete oid)) =
      w.deletions.flatMap fun oid =>
        (w.tracked.get? oid).elim [] fun t => t.deletion (address oid) := by
    refine List.flatMap_congr fun oid hoid => ?_
    have hremoved := (hw.mem_deletions oid).mp hoid
    obtain ⟨t, ht, hs⟩ := exists_of_state (show w.state oid ≠ .detached by simp [hremoved])
    obtain ⟨hkey, hfull, hbelongs⟩ := haddress oid t ht (by simp [hs, hremoved])
    rw [ht, rowCalls_delete ht hkey hfull hbelongs, Option.elim_some]
  rw [script, changedRows, pending, changes, List.flatMap_append, List.flatMap_append,
    List.flatMap_map, List.flatMap_map, List.flatMap_map, hupdates, hdeletes]
  simp only [rowCalls_insert]

theorem eq_of_changedFields_eq_nil {s s' : Snapshot} (hn : (s.map Prod.fst).Nodup)
    (hnames : s'.map Prod.fst = s.map Prod.fst) (h : changedFields s s' = []) : s' = s := by
  have hlength : s'.length = s.length := by simpa using congrArg List.length hnames
  refine List.ext_getElem hlength fun i hi hi' => ?_
  have hname : s'[i].1 = s[i].1 := by
    simpa [hi, hi'] using congrArg (fun names => names[i]?) hnames
  have hsame : lookupEntry s'[i].1 s = some s'[i].2 := by
    simpa using List.filter_eq_nil_iff.mp h s'[i] (List.getElem_mem hi)
  have hmem : (s[i].1, s[i].2) ∈ s := List.getElem_mem hi'
  rw [hname, (lookupEntry_eq_some_iff hn).mpr hmem] at hsame
  exact Prod.ext hname (Option.some.inj hsame).symm

theorem isEmpty_iff_idle (hw : w.Consistent) (hextracted : w.Extracted)
    (hc : w.changeSet h = .ok c) : c.isEmpty = true ↔ w.Idle h := by
  constructor
  · intro hempty oid t ht
    have hsettled := settled_of_isEmpty hc hempty
    have hs : t.state = .managed := by
      have hnew := hw.mem_insertions oid
      have hremoved := hw.mem_deletions oid
      rw [hsettled.insertions, state_of_get? ht] at hnew
      rw [hsettled.deletions, state_of_get? ht] at hremoved
      cases hst : t.state with
      | managed => rfl
      | new => simp [hst] at hnew
      | removed => simp [hst] at hremoved
      | detached => exact absurd hst (hw.not_detached oid t ht)
    obtain ⟨current, hcurrent, hsame⟩ := hsettled.unchanged oid t ht hs
    have hnames := hextracted oid t ht (by simp [hs])
    refine ⟨hs, hcurrent.trans (congrArg _ (eq_of_changedFields_eq_nil ?_ ?_ hsame))⟩
    · rw [hnames]
      exact t.metadata.fieldNames_nodup
    · rw [hnames, Heap.values_eq hcurrent, Metadata.snapshotOf, List.map_map]
      rfl
  · intro hidle
    have hsettled : w.Settled h := by
      have hmanaged (oid : Oid) (s : Lifecycle) (hs : s ≠ .managed) (hd : s ≠ .detached) :
          w.state oid ≠ s := by
        intro hst
        obtain ⟨t, ht, hstate⟩ := exists_of_state (hst ▸ hd)
        exact hs (hst ▸ hstate ▸ (hidle oid t ht).1)
      refine ⟨?_, ?_, fun oid t ht _ => ⟨_, (hidle oid t ht).2, changedFields_self (hidle oid t ht).2⟩⟩
      · exact List.eq_nil_iff_forall_not_mem.mpr fun oid hoid =>
          hmanaged oid .new (by simp) (by simp) ((hw.mem_insertions oid).mp hoid)
      · exact List.eq_nil_iff_forall_not_mem.mpr fun oid hoid =>
          hmanaged oid .removed (by simp) (by simp) ((hw.mem_deletions oid).mp hoid)
    rw [hsettled.changeSet] at hc
    rw [← Except.ok.inj hc]
    rfl

end UnitOfWork

namespace Manager

variable {σ : Type} [Connection σ] {m m' : Manager (Recorded σ)}

/-- Every row that is there goes by a key, which has a value for each identifier field: it is the
key that the row was last loaded or written under. -/
def Addressed (m : Manager (Recorded σ)) (address : Oid → IdentityKey) : Prop :=
  (∃ steps, History steps m) ∧ ∀ oid t, m.work.tracked.get? oid = some t → t.state ≠ .new →
    (∀ steps, History steps m → LastUnder steps oid (address oid)) ∧ t.metadata.identifiers ≠ [] ∧
      ∀ name ∈ t.metadata.identifiers, ∃ v, v ≠ .null ∧ (address oid).get? name = some v

theorem exists_address (h : Reachable anyOperation m) : ∃ address, m.Addressed address ∧
    ∀ oid t, m.work.tracked.get? oid = some t → t.state ≠ .new →
      t.key = some (address oid) ∧ (address oid).Full ∧ (address oid).Belongs t.metadata := by
  obtain ⟨steps, hsteps⟩ := h.exists_history
  have hkeys : ∀ oid t, m.work.tracked.get? oid = some t → t.state ≠ .new →
      t.key = some ((m.work.keyOf oid).getD ⟨"", []⟩) := by
    intro oid t ht hs
    obtain ⟨key, hkey⟩ := Option.ne_none_iff_exists'.mp
      fun hnone => hs ((h.consistent.key_eq_none_iff oid t ht).mp hnone)
    rw [UnitOfWork.keyOf_of_get? ht, hkey, Option.getD_some]
  have hlast : ∀ oid t, m.work.tracked.get? oid = some t → t.state ≠ .new → ∀ steps,
      History steps m → LastUnder steps oid ((m.work.keyOf oid).getD ⟨"", []⟩) :=
    fun oid t ht hs steps hsteps =>
      hsteps.grounded.last oid _ ((UnitOfWork.keyOf_of_get? ht).trans (hkeys oid t ht hs))
  refine ⟨fun oid => (m.work.keyOf oid).getD ⟨"", []⟩, ⟨⟨steps, hsteps⟩, fun oid t ht hs => ?_⟩,
    fun oid t ht hs => ?_⟩
  · exact ⟨hlast oid t ht hs, (hlast oid t ht hs steps hsteps).full.exists_value
      (h.keyed oid t _ ht (hkeys oid t ht hs))⟩
  · exact ⟨hkeys oid t ht hs, (hlast oid t ht hs steps hsteps).full,
      h.keyed oid t _ ht (hkeys oid t ht hs)⟩

/-- A flush that succeeds outside of transactions makes no call if there is nothing to write, and
otherwise the calls of its script between the begin and the commit of a transaction. The queues and
the tracked instances, whose order the script follows, are in the order of scheduling and tracking
along every history of the manager. -/
theorem flush_script (h : Reachable anyOperation m) (hdepth : m.session.depth = 0)
    (hrun : flush.run m = (.ok ⟨⟩, m')) :
    m.work.Consistent ∧ (∀ steps, History steps m → InOrder steps m.work) ∧
      ∃ address, m.Addressed address ∧
      (m.work.Idle m.heap → m'.session.connection.calls = m.session.connection.calls) ∧
      (¬ m.work.Idle m.heap → m'.session.connection.calls = m.session.connection.calls ++
        (Call.begin :: m.work.changes m.heap address ++ [Call.commit]).map fun c => ⟨c, none⟩) := by
  obtain ⟨steps, hsteps⟩ := reachable_iff_exists_history.mp h
  obtain ⟨address, haddressed, haddress⟩ := exists_address h
  obtain ⟨-, made, hmade, -, hall⟩ := (post_flush_calls h.consistent).of_run_ok hrun
  obtain ⟨c, hc, -⟩ := (post_flush_wrote h.consistent).of_run_ok hrun
  have hidle := UnitOfWork.isEmpty_iff_idle h.consistent hsteps.grounded.extracted hc
  rw [UnitOfWork.pending_eq hc] at hidle
  have hmade' := hall hdepth (h.balanced hdepth)
  refine ⟨h.consistent, fun _ hhistory => hhistory.inOrder, address, haddressed,
    fun hi => ?_, fun hi => ?_⟩
  · rw [hmade, hmade', if_pos (hidle.mpr hi), List.append_nil]
  · rw [hmade, hmade', if_neg fun hempty => hi (hidle.mp hempty), UnitOfWork.enclosed,
      UnitOfWork.script_eq_changes h.consistent haddress]

open Sample in
theorem flush_script_mixed : ∃ m' address, flush.run mixed = (.ok ⟨⟩, m') ∧
    mixed.Addressed address ∧ m'.session.connection.calls = mixed.session.connection.calls ++
      (Call.begin :: mixed.work.changes mixed.heap address ++ [Call.commit]).map (fun c => ⟨c, none⟩) ∧
    m'.session.connection.calls.drop 2 =
      [⟨.begin, none⟩, ⟨.update "INSERT INTO users (name) VALUES (?)" [.text "Ann"], none⟩,
        ⟨.lastInsertId, none⟩,
        ⟨.update "UPDATE users SET id = ?, name = ? WHERE id = ?"
          [.int 5, .text "Bea", .int 2], none⟩,
        ⟨.update "DELETE FROM users WHERE id = ?" [.int 3], none⟩, ⟨.commit, none⟩] := by
  have hdone : (flush.run mixed).1.isOk = true := by decide +kernel
  match hrun : flush.run mixed with
  | (.ok x, m') =>
    obtain ⟨-, -, address, haddressed, -, hcalls⟩ :=
      flush_script reachable_mixed (by decide +kernel) hrun
    have hm' : m' = (flush.run mixed).2 := by rw [hrun]
    refine ⟨m', address, rfl, haddressed, hcalls fun hidle => ?_, ?_⟩
    · have hnew : mixed.work.state ⟨0⟩ = .new := by decide +kernel
      obtain ⟨t, ht, hs⟩ := UnitOfWork.exists_of_state (show mixed.work.state ⟨0⟩ ≠ .detached by
        simp [hnew])
      simp [(hidle ⟨0⟩ t ht).1, hnew] at hs
    · rw [hm']
      decide +kernel
  | (.error e, m') => simp [hrun, Except.isOk, Except.toBool] at hdone

end Manager
end Persistence
