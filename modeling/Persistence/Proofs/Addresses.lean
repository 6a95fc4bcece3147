import Persistence.Proofs.Accounts

/-!
The keys that rows go by. The row of an instance is loaded and written under a key, and what is
tracked records the last such key, together with a snapshot of all fields of its class.
-/

namespace Persistence

open Schema (Metadata Snapshot Field)

def Tracked.Pends (t : Tracked) (x : Instance) : Prop :=
  t.state = .new ∨
    t.state = .managed ∧ changedFields t.snapshot (t.metadata.snapshotOf x) ≠ []

namespace UnitOfWork

variable {w w' : UnitOfWork} {h : Heap} {c : ChangeSet} {oid : Oid}

theorem mem_writes_iff (hw : w.Consistent) (hc : w.changeSet h = .ok c) :
    oid ∈ c.inserts ++ c.updates.map PendingUpdate.oid ↔
      ∃ t, w.tracked.get? oid = some t ∧ t.Pends (h.content oid) := by
  rw [List.mem_append, (changeSet_eq hc).1, hw.mem_insertions]
  constructor
  · rintro (hs | hu)
    · obtain ⟨t, ht, hst⟩ := exists_of_state (hs ▸ by simp : w.state oid ≠ .detached)
      exact ⟨t, ht, .inl (hst.trans hs)⟩
    · obtain ⟨u, hmem, rfl⟩ := List.mem_map.mp hu
      obtain ⟨t, ht, hs, hv, hchanges, hne⟩ := pending_of_mem_updates hc hmem
      rw [hchanges, Heap.values_eq hv] at hne
      exact ⟨t, ht, .inr ⟨hs, hne⟩⟩
  · rintro ⟨t, ht, hs | ⟨hs, hne⟩⟩
    · exact .inl ((state_of_get? ht).trans hs)
    · by_contra hnot
      obtain ⟨current, hv, hsame⟩ :=
        unchanged_of_not_mem_updates hc ht hs (not_or.mp hnot).2
      rw [Heap.values_eq hv] at hsame
      exact hne hsame

def Extracted (w : UnitOfWork) : Prop := ∀ oid t, w.tracked.get? oid = some t → t.state ≠ .new →
  t.snapshot.map Prod.fst = t.metadata.fields.map Field.name

theorem extracted_empty : empty.Extracted := fun _ _ ht => by simp [empty] at ht

theorem Extracted.of_retains (hw : w.Extracted) (hretains : w.Retains w') : w'.Extracted := by
  intro oid t' ht' hs'
  obtain ⟨t, ht, hs, hm, hsnapshot, -⟩ := hretains oid t' ht' hs'
  rw [← hm, ← hsnapshot]
  exact hw oid t ht hs

theorem Extracted.track (hw : w.Extracted) {m : Metadata} {key : IdentityKey} {s : Snapshot}
    {x : Instance} (hs : m.extract x = .ok s) : (w.track oid m key s).Extracted := by
  intro j t ht hnew
  rw [get?_tracked_track] at ht
  split at ht
  · rw [← Option.some.inj ht, Metadata.extract_eq hs, Metadata.snapshotOf, List.map_map]
    rfl
  · exact hw j t ht hnew

theorem Extracted.apply (hw : w.Extracted) (hc : w.Consistent) {written : List Written}
    (hwrote : w.Wrote written) (hholds : ∀ x ∈ written, w.Holds h x) :
    (w.apply written w.deletions).Extracted := by
  intro oid t ht _
  obtain ⟨x, hx, rfl, t₀, ht₀, rfl⟩ | ⟨-, ht, hs⟩ := hc.tracked_after_apply hwrote ht
  · obtain ⟨t₁, ht₁, hv⟩ := hholds x hx
    obtain rfl := Option.some.inj (ht₀.symm.trans ht₁)
    change x.snapshot.map Prod.fst = t₀.metadata.fields.map Field.name
    rw [Heap.values_eq hv, Metadata.snapshotOf, List.map_map]
    rfl
  · exact hw oid t ht (by simp [hs])

end UnitOfWork

namespace Manager

variable {σ : Type} [Connection σ] {m t : Manager σ} {steps : List (Operation × Manager σ)}
  {oid j : Oid} {key k : IdentityKey}

/-- An operation loads or writes the row of an instance under a key. -/
inductive Addresses (m : Manager σ) : Operation → Oid → IdentityKey → Prop
  /-- The row has been selected by the key of the identifier. -/
  | found {type : EntityType} {id : Identifier} {oid : Oid} {md : Metadata} {key : IdentityKey}
      {described t : Manager σ} : (Manager.find type id).run m = (.ok (some oid), t) →
      (metadata type).run m = (.ok md, described) → IdentityKey.ofIdentifier md id = .ok key →
      m.work.find? key = none → Addresses m (.find type id) oid key
  /-- The row has been selected by the key that the instance carries. -/
  | refreshed {oid : Oid} {key : IdentityKey} {t : Manager σ} :
      (Manager.refresh oid).run m = (.ok ⟨⟩, t) → m.Carries oid key →
      Addresses m (.refresh oid) oid key
  /-- The row has been inserted or updated, and has the key of the values it was written with. -/
  | written {oid : Oid} {td : Tracked} {s : Snapshot} {key : IdentityKey} {t : Manager σ} :
      Manager.flush.run m = (.ok ⟨⟩, t) → m.work.tracked.get? oid = some td →
      td.Pends (m.heap.content oid) → t.heap.values td.metadata oid = .ok s →
      IdentityKey.ofSnapshot td.metadata s = .ok key → Addresses m .flush oid key

/-- The key under which the row of an instance was last loaded or written. -/
def LastUnder (steps : List (Operation × Manager σ)) (oid : Oid) (key : IdentityKey) : Prop :=
  ∃ before op m after, steps = before ++ (op, m) :: after ∧ Addresses m op oid key ∧
    ∀ e ∈ after, ∀ k, ¬ Addresses e.2 e.1 oid k

theorem Addresses.full {op : Operation} (h : Addresses m op oid key) : key.Full := by
  cases h with
  | found _ _ hkey => exact IdentityKey.full_of_ofIdentifier hkey
  | refreshed _ hcarries =>
    obtain ⟨_, _, _, _, _, _, _, hkey⟩ := hcarries
    exact IdentityKey.full_of_ofSnapshot hkey
  | written _ _ _ _ hkey => exact IdentityKey.full_of_ofSnapshot hkey

theorem LastUnder.full (h : LastUnder steps oid key) : key.Full := by
  obtain ⟨_, _, _, _, -, haddresses, -⟩ := h
  exact haddresses.full

theorem lastUnder_concat {op : Operation} (h : Addresses m op oid key) :
    LastUnder (steps ++ [(op, m)]) oid key := ⟨steps, op, m, [], rfl, h, by simp⟩

theorem LastUnder.concat {op : Operation} (h : LastUnder steps oid key)
    (hop : ∀ k, ¬ Addresses m op oid k) : LastUnder (steps ++ [(op, m)]) oid key := by
  obtain ⟨before, op', m', after, rfl, haddresses, hafter⟩ := h
  refine ⟨before, op', m', after ++ [(op, m)], by simp, haddresses, fun e he => ?_⟩
  rcases List.mem_append.mp he with he | he
  · exact hafter e he
  · rw [List.mem_singleton.mp he]
    exact hop

structure Grounded (steps : List (Operation × Manager σ)) (w : UnitOfWork) : Prop where
  consistent : w.Consistent
  extracted : w.Extracted
  last : ∀ oid key, w.keyOf oid = some key → LastUnder steps oid key

namespace Grounded

variable {w w' : UnitOfWork} {op : Operation}

theorem retains (h : Grounded steps w) (hc : w'.Consistent) (hretains : w.Retains w') :
    Grounded steps w' where
  consistent := hc
  extracted := h.extracted.of_retains hretains
  last := by
    intro oid key hkey
    obtain ⟨t', ht', hkey'⟩ := UnitOfWork.exists_of_keyOf hkey
    have hs' : t'.state ≠ .new := fun hs => by simp [(hc.key_eq_none_iff oid t' ht').mpr hs] at hkey'
    obtain ⟨t, ht, -, -, -, hsame⟩ := hretains oid t' ht' hs'
    exact h.last oid key (by rw [UnitOfWork.keyOf_of_get? ht, hsame, hkey'])

theorem concat (h : Grounded steps w)
    (hop : ∀ oid key, w.keyOf oid = some key → ∀ k, ¬ Addresses m op oid k) :
    Grounded (steps ++ [(op, m)]) w where
  consistent := h.consistent
  extracted := h.extracted
  last oid key hkey := (h.last oid key hkey).concat (hop oid key hkey)

theorem track (h : Grounded steps w) {md : Metadata} {s : Snapshot} {x : Instance}
    (hs : md.extract x = .ok s) (hop : Addresses m op oid key)
    (hothers : ∀ j k, Addresses m op j k → j = oid) :
    Grounded (steps ++ [(op, m)]) (w.track oid md key s) where
  consistent := h.consistent.track md key s
  extracted := h.extracted.track hs
  last := by
    intro j k hk
    rw [UnitOfWork.keyOf_track] at hk
    split at hk
    · rename_i hj
      rw [← hj, ← Option.some.inj hk]
      exact lastUnder_concat hop
    · rename_i hj
      exact (h.last j k hk).concat fun k' hk' => hj (hothers j k' hk').symm

end Grounded

theorem not_addresses_of_quiet {op : Operation} (hop : op.Quiet) : ¬ Addresses m op oid k := by
  rintro (_ | _ | _) <;> exact hop

theorem Grounded.quiet {op : Operation} (h : Grounded steps m.work) (hop : op.Quiet) :
    Grounded (steps ++ [(op, m)]) (op.after m).work := by
  have heffect := (effect op m).1
  refine (h.retains (heffect.consistent h.consistent) (heffect.retains hop)).concat ?_
  exact fun _ _ _ _ => not_addresses_of_quiet hop

theorem grounded_find (type : EntityType) (id : Identifier) (h : Grounded steps m.work) :
    Grounded (steps ++ [(.find type id, m)]) ((Operation.find type id).after m).work := by
  rw [← Operation.state_ask]
  refine Action.post_iff_run (P := fun t : Manager σ => Grounded _ t.work) |>.mp ?_
  have hfind := Action.post_iff.mp (post_find_found type id m)
  refine Action.post_iff.mpr ⟨fun o t ht => ?_, fun e t ht => ?_⟩
  case refine_2 =>
    rw [(hfind.2 e t ht).2.1]
    refine h.concat fun oid key _ k hk => ?_
    obtain ⟨hrun, -, -, -⟩ := hk
    cases hrun.symm.trans ht
  cases hfind.1 o t ht with
  | tracked hmd hkey hfound =>
    rw [(post_metadata type m).of_run_ok hmd]
    refine h.concat fun oid key _ k hk => ?_
    obtain ⟨-, hmd', hkey', hfree⟩ := hk
    cases hmd.symm.trans hmd'
    cases hkey.symm.trans hkey'
    simp [hfound] at hfree
  | absent hmd _ _ hread =>
    rw [((post_loadRow _ _ _).of_run_ok hread).1, (post_metadata type m).of_run_ok hmd]
    refine h.concat fun oid key _ k hk => ?_
    obtain ⟨hrun, -, -, -⟩ := hk
    cases hrun.symm.trans ht
  | loaded hmd hkey hfree _ _ hs =>
    refine h.track hs (.found ht hmd hkey hfree) fun j k hk => ?_
    obtain ⟨hrun, -, -, -⟩ := hk
    cases hrun.symm.trans ht
    rfl

theorem grounded_refresh (oid : Oid) (h : Grounded steps m.work) :
    Grounded (steps ++ [(.refresh oid, m)]) ((Operation.refresh oid).after m).work := by
  refine Action.post_iff_run (P := fun t : Manager σ => Grounded _ t.work) |>.mp ?_
  have hrefresh := Action.post_iff.mp (post_refresh_refreshed oid m)
  have hdetached := h.retains (h.consistent.detach oid) (UnitOfWork.retains_detach oid)
  refine Action.post_iff.mpr ⟨fun _ t ht => ?_, fun e t ht => ?_⟩
  · obtain ⟨hmd, hx, hids, hkey, -, -, -, hs⟩ := hrefresh.1 _ t ht
    refine hdetached.track hs (.refreshed ht ⟨_, _, _, _, hmd, hx, hids, hkey⟩) fun j k hk => ?_
    cases hk
    rfl
  · have hnone : ∀ j k, ¬ Addresses m (.refresh oid) j k := by
      rintro j k ⟨⟩
      rename_i hrun _
      cases hrun.symm.trans ht
    rcases (hrefresh.2 e t ht).2 with hw | hw
    · rw [hw]
      exact h.concat fun j _ _ k => hnone j k
    · rw [hw]
      exact hdetached.concat fun j _ _ k => hnone j k

theorem post_flush_wrote (hw : m.work.Consistent) :
    flush.Post
      (fun _ t => ∃ c, m.work.changeSet m.heap = .ok c ∧
        (c.isEmpty = true ∧ t.work = m.work ∨ c.isEmpty = false ∧ ∃ written,
          m.work.WroteAll c written m.heap t.heap ∧
            t.work = m.work.apply written m.work.deletions))
      (fun _ t => t.work = m.work) m := by
  rw [post_flush_iff]
  refine (UnitOfWork.post_commit m.toEnvironment).mono (fun w t ht => ?_) fun _ _ _ => rfl
  obtain ⟨c, hc, ⟨hempty, rfl, -⟩ | hwrote⟩ := ht.wrote hw
  · exact ⟨c, hc, .inl ⟨hempty, rfl⟩⟩
  · exact ⟨c, hc, .inr hwrote⟩

theorem grounded_flush (h : Grounded steps m.work) :
    Grounded (steps ++ [(.flush, m)]) (Operation.flush.after m).work := by
  refine Action.post_iff_run (P := fun t : Manager σ => Grounded _ t.work) |>.mp ?_
  have hflush := Action.post_iff.mp (post_flush_wrote h.consistent)
  refine Action.post_iff.mpr ⟨fun _ t ht => ?_, fun e t ht => ?_⟩
  case refine_2 =>
    rw [hflush.2 e t ht]
    refine h.concat fun oid key _ k hk => ?_
    obtain _ | _ | ⟨hrun⟩ := hk
    cases hrun.symm.trans ht
  obtain ⟨c, hc, ⟨hempty, hw⟩ | ⟨-, written, hall, hw⟩⟩ := hflush.1 _ t ht
  · rw [hw]
    refine h.concat fun oid key _ k hk => ?_
    obtain _ | _ | ⟨-, htd, hpends⟩ := hk
    have hmem := (UnitOfWork.mem_writes_iff h.consistent hc).mpr ⟨_, htd, hpends⟩
    simp only [ChangeSet.isEmpty, Bool.and_eq_true, List.isEmpty_iff] at hempty
    simp [hempty] at hmem
  rw [hw]
  refine ⟨h.consistent.apply hall.wrote _,
    h.extracted.apply h.consistent hall.wrote hall.holds, fun oid key hkey => ?_⟩
  obtain ⟨t', ht', hkey⟩ := UnitOfWork.exists_of_keyOf hkey
  obtain ⟨x, hx, rfl, td, htd, rfl⟩ | ⟨hnot, htd, -⟩ :=
    h.consistent.tracked_after_apply hall.wrote ht'
  · have hmem : x.oid ∈ c.inserts ++ c.updates.map PendingUpdate.oid :=
      hall.oids ▸ List.mem_map_of_mem hx
    obtain ⟨td', htd', hpends⟩ := (UnitOfWork.mem_writes_iff h.consistent hc).mp hmem
    obtain ⟨td'', htd'', hvalues⟩ := hall.holds x hx
    obtain rfl := Option.some.inj (htd.symm.trans htd')
    obtain rfl := Option.some.inj (htd.symm.trans htd'')
    rw [← Option.some.inj hkey]
    exact lastUnder_concat (.written ht htd hpends hvalues (hall.wrote.keyed x hx td htd))
  · refine (h.last oid key (by rw [UnitOfWork.keyOf_of_get? htd, hkey])).concat fun k hk => hnot ?_
    obtain _ | _ | ⟨-, htd', hpends⟩ := hk
    rw [hall.oids]
    exact (UnitOfWork.mem_writes_iff h.consistent hc).mpr ⟨_, htd', hpends⟩

theorem Grounded.step (h : Grounded steps m.work) (op : Operation) :
    Grounded (steps ++ [(op, m)]) (op.after m).work := by
  cases op with
  | find type id => exact grounded_find type id h
  | refresh oid => exact grounded_refresh oid h
  | flush => exact grounded_flush h
  | edit | persist | remove | detach | clear | describe | query | createQuery | clearMetadata
    | clearQueries => exact h.quiet trivial

theorem History.grounded (h : History steps m) : Grounded steps m.work :=
  h.keeps (fun _ op _ hm => hm.step op)
    ⟨UnitOfWork.consistent_empty, UnitOfWork.extracted_empty, fun _ _ hkey => by
      simp [UnitOfWork.keyOf, UnitOfWork.empty] at hkey⟩

end Manager
end Persistence
