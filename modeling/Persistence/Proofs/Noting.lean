import Persistence.Proofs.Mirroring
import Persistence.Proofs.Snapshots

/-!
What a flush notes of the rows that it writes. Each written instance has one exchange, and its new
snapshot has the values of that exchange, and the former ones where nothing was exchanged.
-/

namespace Persistence

open Schema (Metadata Snapshot Field)
open UnitOfWork (RowChange changedRows require_eq_ok statement_insert_eq)
open Persistence.Action (post_of_forall)

theorem lookupEntry_of_agree {κ α : Type} [DecidableEq κ] {k : κ} {v : α} {es : List (κ × α)}
    (hmem : (k, v) ∈ es) (hagree : ∀ e ∈ es, e.1 = k → e.2 = v) : lookupEntry k es = some v := by
  induction es with
  | nil => simp at hmem
  | cons e es ih =>
    rw [lookupEntry]
    split
    · rename_i hk
      rw [hagree e List.mem_cons_self hk]
    · rename_i hk
      refine ih ((List.mem_cons.mp hmem).resolve_left ?_) fun e he =>
        hagree e (List.mem_cons_of_mem _ he)
      rintro rfl
      exact hk rfl

def Schema.Field.inserted (f : Field) (x : Instance) : Value :=
  if x.read f.accessor.slot = .null then f.default.getD .null else x.read f.accessor.slot

theorem Schema.Metadata.insertValues_snapshotOf (m : Metadata) (x : Instance) :
    m.insertValues (m.snapshotOf x) =
      (m.fields.filter fun f => !(m.generatesIdentity && m.isIdentifier f.name)).map fun f =>
        (f.column, f.inserted x) := by
  refine List.map_congr_left fun f hf => ?_
  simp only [IdentityKey.snapshotValue, lookupEntry_snapshotOf x (List.mem_filter.mp hf).1,
    Option.getD_some, Field.inserted]

theorem Schema.Metadata.Own.lookupEntry_filter {m : Metadata} {f : Field} (hown : m.Own f)
    (hf : f ∈ m.fields) (p : Field → Bool) (value : Field → Value) :
    lookupEntry f.column ((m.fields.filter p).map fun g => (g.column, value g)) =
      if p f then some (value f) else none := by
  split
  · rename_i hp
    refine lookupEntry_of_agree (List.mem_map.mpr ⟨f, List.mem_filter.mpr ⟨hf, hp⟩, rfl⟩) ?_
    intro e he hcolumn
    obtain ⟨g, hg, rfl⟩ := List.mem_map.mp he
    rw [hown.2 g (List.mem_filter.mp hg).1 hcolumn]
  · rename_i hp
    rw [lookupEntry_eq_none_iff, List.map_map]
    intro hmem
    obtain ⟨g, hg, hcolumn⟩ := List.mem_map.mp hmem
    obtain ⟨hg, hpg⟩ := List.mem_filter.mp hg
    rw [hown.2 g hg hcolumn] at hpg
    exact hp hpg

theorem Heap.read_identify {h h' : Heap} {m : Metadata} {oid : Oid} {id : String} {f : Field}
    (hf : f ∈ m.fields) (hids : m.identifiers = [f.name]) (hid : h.identify m oid id = .ok h') :
    ∃ v, f.type.coerce (.text id) = .ok v ∧
      (h'.content oid).read f.accessor.slot = (h.content oid).hold f.accessor.slot v ∧
      ∀ i, i ≠ f.accessor.slot → (h'.content oid).read i = (h.content oid).read i := by
  obtain ⟨y, hy, rfl⟩ := of_identify hid
  have hfield : m.field? f.name = some f := Metadata.field?_eq_some_iff.mpr ⟨hf, rfl⟩
  simp only [Metadata.setField, hids, List.headD_cons, hfield, bind, Except.bind] at hy
  split at hy
  · simp at hy
  · rename_i v hv
    rw [Accessor.set] at hy
    split at hy
    case isFalse => simp at hy
    obtain ⟨-, hread, hothers⟩ := Instance.of_write hy
    refine ⟨v, hv, ?_⟩
    by_cases hlt : oid.index < h.objects.length
    · rw [content_put y hlt]
      exact ⟨hread, hothers⟩
    · -- an instance that is not there has no slots, before and after
      have hgone (g : Heap) (hg : ¬ oid.index < g.objects.length) :
          (g.content oid).slots = [] := by
        refine List.eq_nil_iff_forall_not_mem.mpr fun s hs => hg ?_
        obtain ⟨i, hi⟩ := List.mem_iff_getElem?.mp hs
        exact index_lt hi
      have hbefore := hgone h hlt
      have hafter := hgone (h.put oid y) (by simpa [put] using hlt)
      simp [Instance.read, Instance.hold, Instance.storages, hbefore, hafter]

namespace UnitOfWork

def Tells (t : Tracked) (s : Snapshot) (x : Exchange) (f : Field) : Prop :=
  (∃ v, x.kept? f = some v ∧ (¬ x.Substitutes f → lookupEntry f.name s = some v)) ∨
    x.kept? f = none ∧ t.state ≠ .new ∧ lookupEntry f.name s = lookupEntry f.name t.snapshot

def Noted (w : UnitOfWork) (x : Written) (e : Oid × Exchange) : Prop :=
  e.1 = x.oid ∧ ∃ t, w.tracked.get? x.oid = some t ∧
    ∀ f ∈ t.metadata.fields, t.metadata.Own f → Tells t x.snapshot e.2 f

variable {w : UnitOfWork} {oid : Oid} {t : Tracked}

theorem tells_generated {m : Metadata} {h h' : Heap} {bound : List (String × Value)} {id : String}
    {s : Snapshot} {f : Field} (hf : f ∈ m.fields) (hids : m.identifiers = [f.name])
    (hid : h.identify m oid id = .ok h') (hs : h'.values m oid = .ok s)
    (hbound : lookupEntry f.column bound = none) :
    Tells t s (.inserted bound (some id) (h.content oid)) f := by
  obtain ⟨v, hv, hread, -⟩ := Heap.read_identify hf hids hid
  refine .inl ⟨(h.content oid).hold f.accessor.slot v, ?_, fun _ => ?_⟩
  · simp [Exchange.kept?, hbound, hv, Except.toOption]
  · rw [Heap.values_eq hs, Metadata.lookupEntry_snapshotOf _ hf, hread]

theorem tells_bound {m : Metadata} {h h' : Heap} {bound : List (String × Value)}
    {id : Option String} {s : Snapshot} {f : Field} (hf : f ∈ m.fields)
    (hsame : (h'.content oid).read f.accessor.slot = (h.content oid).read f.accessor.slot)
    (hs : h'.values m oid = .ok s)
    (hbound : lookupEntry f.column bound = some (f.inserted (h.content oid))) :
    Tells t s (.inserted bound id (h.content oid)) f := by
  refine .inl ⟨_, by rw [Exchange.kept?, hbound, Option.some_or], fun hx => ?_⟩
  rw [Heap.values_eq hs, Metadata.lookupEntry_snapshotOf _ hf, hsame]
  by_cases hnull : (h.content oid).read f.accessor.slot = .null
  · cases hd : f.default with
    | none => simp [Schema.Field.inserted, hnull, hd]
    | some d =>
      have hbound' : lookupEntry f.column bound = some d := by
        simpa [Schema.Field.inserted, hnull, hd] using hbound
      have hd' : d = .null := by
        by_contra hne
        exact hx ⟨hnull, d, hne, hd, hbound'⟩
      simp [Schema.Field.inserted, hnull, hd, hd']
  · rw [Schema.Field.inserted, if_neg hnull]

theorem tells_inserted {m : Metadata} {h h' : Heap} {id : Option String} {s : Snapshot} {f : Field}
    (hf : f ∈ m.fields) (hown : m.Own f)
    (hid : (m.generatesIdentity = true ∧ ∃ i, id = some i ∧ h.identify m oid i = .ok h') ∨
      m.generatesIdentity = false ∧ h' = h)
    (hs : h'.values m oid = .ok s) :
    Tells t s (.inserted (m.insertValues (m.snapshotOf (h.content oid))) id (h.content oid)) f := by
  have hbound := hown.lookupEntry_filter hf
    (fun g => !(m.generatesIdentity && m.isIdentifier g.name)) fun g => g.inserted (h.content oid)
  rw [← m.insertValues_snapshotOf] at hbound
  rcases hid with ⟨hg, i, rfl, hid⟩ | ⟨hg, rfl⟩
  · obtain ⟨g, hgf, hids⟩ := Metadata.identifiers_eq_of_generates hg
    by_cases hname : f.name = g.name
    · rw [← hname] at hids
      refine tells_generated hf hids hid hs ?_
      simpa [hg, Metadata.isIdentifier, hids] using hbound
    · obtain ⟨-, -, -, hothers⟩ := Heap.read_identify hgf hids hid
      -- the identifier goes to a slot of another field
      have hslot : f.accessor.slot ≠ g.accessor.slot := fun hslot =>
        hname (by rw [hown.1 g hgf hslot.symm])
      refine tells_bound hf (hothers _ hslot) hs (hbound.trans (if_pos ?_))
      simp [Metadata.isIdentifier, hids, hname]
  · refine tells_bound hf rfl hs (hbound.trans (if_pos ?_))
    simp [hg]

theorem tells_updated {x : Instance} {u : PendingUpdate} {f : Field} (hf : f ∈ t.metadata.fields)
    (hown : t.metadata.Own f) (hs : t.state ≠ .new)
    (hcurrent : u.current = t.metadata.snapshotOf x)
    (hchanges : u.changes = changedFields t.snapshot u.current) :
    Tells t u.current (.updated (t.metadata.assignments u.changes)) f := by
  have hbound := hown.lookupEntry_filter hf
    (fun f => decide (lookupEntry f.name t.snapshot ≠ some (x.read f.accessor.slot)))
    fun f => x.read f.accessor.slot
  have hvalue : lookupEntry f.name u.current = some (x.read f.accessor.slot) := by
    rw [hcurrent, Metadata.lookupEntry_snapshotOf x hf]
  rw [← assignments_changedFields, ← hcurrent, ← hchanges] at hbound
  split at hbound
  · exact .inl ⟨_, hbound, fun _ => hvalue⟩
  · rename_i hsame
    simp only [decide_eq_true_eq, Decidable.not_not] at hsame
    exact .inr ⟨hbound, hs, hvalue.trans hsame.symm⟩

section Rows

variable {σ : Type} [Connection σ] {env : Environment σ} {r : RowChange} {c : ChangeSet}

theorem post_receive_told (m : Metadata) (oid : Oid) (env : Environment σ) :
    (receive m oid).Post
      (fun _ env' => (m.generatesIdentity = true ∧ ∃ i,
          ((Environment.onSession Session.lastInsertId).run env).1 = .ok i ∧
            env.heap.identify m oid i = .ok env'.heap) ∨
        m.generatesIdentity = false ∧ env'.heap = env.heap)
      (fun _ _ => True) env := by
  rw [receive, Action.post_ite]
  refine ⟨fun hg => ?_, fun hg => .inr ⟨by simpa using hg, rfl⟩⟩
  rw [Action.post_bind, Action.post_iff]
  refine ⟨fun id told htold => ?_, fun _ _ _ => trivial⟩
  simp only [Environment.writeIdentifier_eq, Action.post_bind, Action.post_get,
    Action.post_liftExcept, Action.post_modify, implies_true, and_true]
  intro h' hh'
  rw [(Environment.post_onSession_heap _ env).of_run_ok htold] at hh'
  exact .inl ⟨hg, id, by rw [htold], hh'⟩

theorem exchange?_insert {s : Sql.Statement} {n : Nat} {taken : Environment σ}
    (ht : w.tracked.get? oid = some t) (hs : w.statement env.heap (.insert oid) = .ok s)
    (htaken : (Environment.onSession (Session.execute s)).run env = (.ok n, taken)) :
    w.exchange? env (.insert oid) = some (oid, .inserted
      (t.metadata.insertValues (t.metadata.snapshotOf (env.heap.content oid)))
      (if t.metadata.generatesIdentity then
        ((Environment.onSession Session.lastInsertId).run taken).1.toOption else none)
      (env.heap.content oid)) := by
  obtain ⟨values, hv⟩ : ∃ values, env.heap.values t.metadata oid = .ok values := by
    cases hv : env.heap.values t.metadata oid with
    | ok values => exact ⟨values, rfl⟩
    | error e => simp [statement, require_eq_ok.mpr ht, hv, bind, Except.bind] at hs
  obtain rfl := Heap.values_eq hv
  obtain rfl := statement_insert_eq ht hs
  have htold : (Environment.toldFor t.metadata (t.metadata.insertValues
      (t.metadata.snapshotOf (env.heap.content oid)))).run env =
      (Environment.onSession Session.lastInsertId).run taken := by
    rw [Environment.toldFor, Action.run_bind_of_ok htaken]
  simp [exchange?, ht, hv, htold, Except.toOption]

theorem post_send_noted (hr : ∀ u, r = .update u → ∃ t x, w.tracked.get? u.oid = some t ∧
      t.state = .managed ∧ u.current = t.metadata.snapshotOf x ∧
      u.changes = changedFields t.snapshot u.current) :
    (w.send r).Post (fun xs _ => List.Forall₂ w.Noted xs (w.exchange? env r).toList)
      (fun _ _ => True) env := by
  simp only [send, Action.post_bind, Action.post_get, Action.post_liftExcept, Action.post_discard,
    implies_true, and_true]
  intro s hs
  rw [Action.post_iff]
  refine ⟨fun n taken htaken => ?_, fun _ _ _ => trivial⟩
  cases r with
  | insert oid =>
    simp only [conclude, Action.post_bind, Action.post_get, Action.post_liftExcept,
      Action.post_pure, implies_true, and_true]
    intro t ht
    refine (post_receive_told t.metadata oid taken).mono (fun _ received hreceived => ?_)
      fun _ _ _ => trivial
    intro x hx
    obtain ⟨rfl, hv, -, -⟩ := settle_eq_ok_iff.mp hx
    have ht := require_eq_ok.mp ht
    rw [exchange?_insert ht hs htaken]
    refine .cons ⟨rfl, t, ht, fun f hf hown => ?_⟩ .nil
    rw [(Environment.post_onSession_heap _ env).of_run_ok htaken] at hreceived
    refine tells_inserted hf hown (hreceived.imp ?_ ?_) hv
    · rintro ⟨hg, i, hi, hid⟩
      exact ⟨hg, i, by simp [hg, hi, Except.toOption], hid⟩
    · exact id
  | update u =>
    obtain ⟨t, x, ht, hstate, hcurrent, hchanges⟩ := hr u rfl
    simp only [conclude, Action.post_bind, Action.post_liftExcept, Action.post_pure, implies_true,
      and_true]
    intro _ _ key _
    have he : w.exchange? env (.update u) =
        some (u.oid, .updated (t.metadata.assignments u.changes)) := by
      simp [exchange?, ht]
    rw [he]
    refine .cons ⟨rfl, t, ht, fun f hf hown => ?_⟩ .nil
    exact tells_updated hf hown (by simp [hstate]) hcurrent hchanges
  | delete oid =>
    simp only [conclude, Action.post_pure]
    exact .nil

theorem post_mapM_noted {rows : List RowChange} (hr : ∀ u, .update u ∈ rows → ∃ t x,
      w.tracked.get? u.oid = some t ∧ t.state = .managed ∧ u.current = t.metadata.snapshotOf x ∧
        u.changes = changedFields t.snapshot u.current) (env : Environment σ) :
    (rows.mapM w.send).Post
      (fun xss _ => List.Forall₂ w.Noted xss.flatten (w.exchanges rows env))
      (fun _ _ => True) env := by
  induction rows generalizing env with
  | nil => exact .nil
  | cons r rows ih =>
    rw [List.mapM_cons, Action.post_bind, Action.post_iff]
    refine ⟨fun xs sent hsent => ?_, fun _ _ _ => trivial⟩
    have hhead := (post_send_noted fun u hu => hr u (hu ▸ List.mem_cons_self)).of_run_ok hsent
    rw [Action.post_bind]
    refine (ih (fun u hu => hr u (List.mem_cons_of_mem r hu)) sent).mono (fun xss _ hrest => ?_)
      fun _ _ => id
    rw [Action.post_pure, List.flatten_cons, exchanges, hsent]
    exact List.rel_append hhead hrest

end Rows

section Notes

variable {written : List Written} {account new : List (Oid × Exchange)}

theorem map_fst_of_noted (h : List.Forall₂ w.Noted written new) :
    new.map Prod.fst = written.map Written.oid := by
  induction h with
  | nil => rfl
  | cons hx _ ih => rw [List.map_cons, List.map_cons, hx.1, ih]

theorem exists_noted (h : List.Forall₂ w.Noted written new) {x : Written} (hx : x ∈ written) :
    ∃ e, (x.oid, e) ∈ new ∧ w.Noted x (x.oid, e) := by
  induction h with
  | nil => simp at hx
  | @cons y e written new hy _ ih =>
    rcases List.mem_cons.mp hx with rfl | hx
    · obtain ⟨oid, e⟩ := e
      obtain rfl : oid = x.oid := hy.1
      exact ⟨e, List.mem_cons_self, hy⟩
    · obtain ⟨e', he', hnoted⟩ := ih hx
      exact ⟨e', List.mem_cons_of_mem _ he', hnoted⟩

/-- What is written is accounted for by what is noted of it, and the rest as before. -/
theorem Explained.apply (h : w.Explained account) (hw : w.Consistent) (hwrote : w.Wrote written)
    (hnoted : List.Forall₂ w.Noted written new) :
    (w.apply written w.deletions).Explained (account ++ new) := by
  intro oid t ht _ f hf hown
  have hoids := map_fst_of_noted hnoted
  obtain ⟨x, hx, rfl, t₀, ht₀, rfl⟩ | ⟨hnot, ht, hs⟩ := hw.tracked_after_apply hwrote ht
  · obtain ⟨e, he, -, t₁, ht₁, htells⟩ := exists_noted hnoted hx
    rw [ht₀] at ht₁
    obtain rfl := Option.some.inj ht₁
    have hlatest : latest (Exchange.about? f) x.oid new = e.about? f :=
      latest_of_mem (hoids ▸ hwrote.nodup) he
    rcases htells f hf hown with ⟨v, hv, hvalue⟩ | ⟨hnone, hs, hsame⟩
    · exact accounted_of_latest hlatest hv hvalue
    · rw [about?_eq_none hnone] at hlatest
      have hkept := (h x.oid t₀ ht₀ hs f hf hown).append hlatest
      rwa [Accounted, ← hsame] at hkept
  · refine (h oid t ht (by simp [hs]) f hf hown).append (latest_eq_none fun e he heq => hnot ?_)
    rw [← hoids, ← heq]
    exact List.mem_map_of_mem he

theorem Commits.explained {σ : Type} [Connection σ] {w' : UnitOfWork} {env env' : Environment σ}
    (hcommits : w.Commits env w' env') (h : w.Explained account) (hw : w.Consistent) :
    w'.Explained (account ++ w.committed env) := by
  cases hcommits with
  | @unchanged c hc hempty =>
    have hrows : changedRows c = [] := by
      simpa [ChangeSet.isEmpty, changedRows, and_assoc] using hempty
    have hnone : w.committed env = [] := by
      rw [committed, hc]
      split
      · rename_i heq _
        rw [← Except.ok.inj heq, hrows]
        rfl
      · rfl
    rwa [hnone, List.append_nil]
  | @written c inner done env' written hc _ hinner hwritten _ =>
    have hsome : w.committed env = w.exchanges (changedRows c) inner := by
      rw [committed, hc, hinner]
    obtain ⟨hoids, hkeys⟩ := (post_write c inner).of_run_ok hwritten
    have hnoted : (w.write c).Post
        (fun written _ => List.Forall₂ w.Noted written (w.exchanges (changedRows c) inner))
        (fun _ _ => True) inner := by
      rw [write_eq, Action.post_map]
      refine post_mapM_noted (fun u hu => ?_) inner
      have hu : u ∈ c.updates := by simpa [changedRows] using hu
      obtain ⟨t, ht, hs, hv, hchanges, -⟩ := pending_of_mem_updates hc hu
      exact ⟨t, _, ht, hs, Heap.values_eq hv, hchanges⟩
    rw [hsome]
    exact h.apply hw (UnitOfWork.wrote hw hc hoids hkeys) (hnoted.of_run_ok hwritten)

end Notes

end UnitOfWork
end Persistence
