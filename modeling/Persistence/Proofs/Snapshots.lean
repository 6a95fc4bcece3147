import Persistence.Proofs.Exchange

/-!
Snapshots and what was exchanged. In every state the snapshot of an instance has for each field what
the last exchange about that field has left it with.
-/

namespace Persistence

open Schema (Metadata Snapshot Field)
open UnitOfWork (RowChange changedRows)

/-- A field shares neither its slot nor its column with another one of the class. -/
def Schema.Metadata.Own (m : Metadata) (f : Field) : Prop :=
  f.OwnSlot m.fields ∧ ∀ g ∈ m.fields, g.column = f.column → g = f

section Latest

variable {α : Type} {kind : Exchange → Option α} {oid : Oid} {account : List (Oid × Exchange)}
  {f : Field} {x : Exchange}

theorem latest_eq_none (h : ∀ e ∈ account, e.1 ≠ oid) : latest kind oid account = none := by
  simp only [latest, List.findSome?_eq_none_iff, List.mem_reverse]
  intro e he
  rw [if_neg (h e he)]

theorem latest_singleton (x : Exchange) : latest kind oid [(oid, x)] = kind x := by
  simp [latest]

theorem latest_of_mem (hn : (account.map Prod.fst).Nodup) (h : (oid, x) ∈ account) :
    latest kind oid account = kind x := by
  obtain ⟨before, after, rfl⟩ := List.append_of_mem h
  rw [List.map_append, List.map_cons, List.nodup_append, List.nodup_cons] at hn
  obtain ⟨-, ⟨hafter, -⟩, hbefore⟩ := hn
  have hnone : latest kind oid before = none := latest_eq_none fun e he heq =>
    hbefore e.1 (List.mem_map_of_mem he) oid (by simp) heq
  have hnone' : latest kind oid after = none := latest_eq_none fun e he heq =>
    hafter (List.mem_map.mpr ⟨e, he, heq⟩)
  rw [← List.singleton_append, latest_append, latest_append, hnone, hnone', latest_singleton,
    Option.none_or, Option.or_none]

theorem about?_of_kept {v : Value} (h : x.kept? f = some v) : x.about? f = some x := by
  rw [Exchange.about?, h]
  rfl

theorem about?_eq_none (h : x.kept? f = none) : x.about? f = none := by
  rw [Exchange.about?, h]
  rfl

end Latest

def Accounted (account : List (Oid × Exchange)) (oid : Oid) (f : Field) (s : Snapshot) : Prop :=
  ∃ x, latest (Exchange.about? f) oid account = some x ∧
    (¬ x.Substitutes f → lookupEntry f.name s = x.kept? f)

def UnitOfWork.Explained (w : UnitOfWork) (account : List (Oid × Exchange)) : Prop :=
  ∀ oid t, w.tracked.get? oid = some t → t.state ≠ .new →
    ∀ f ∈ t.metadata.fields, t.metadata.Own f → Accounted account oid f t.snapshot

variable {account new : List (Oid × Exchange)} {oid : Oid} {f : Field}

theorem Accounted.append {s : Snapshot} (h : Accounted account oid f s)
    (hnew : latest (Exchange.about? f) oid new = none) : Accounted (account ++ new) oid f s := by
  obtain ⟨x, hx, hs⟩ := h
  exact ⟨x, by rw [latest_append, hnew, Option.none_or, hx], hs⟩

theorem accounted_of_latest {s : Snapshot} {x : Exchange} {v : Value}
    (hx : latest (Exchange.about? f) oid new = x.about? f) (hv : x.kept? f = some v)
    (hs : ¬ x.Substitutes f → lookupEntry f.name s = some v) :
    Accounted (account ++ new) oid f s := by
  refine ⟨x, ?_, fun hx => by rw [hv, hs hx]⟩
  rw [latest_append, hx, about?_of_kept hv, Option.some_or]

namespace UnitOfWork

variable {w w' : UnitOfWork}

theorem Explained.of_retains (h : w.Explained account) (hw : w.Retains w') :
    w'.Explained account := by
  intro oid t' ht' hs' f hf hown
  obtain ⟨t, ht, hs, hm, hsnapshot, -⟩ := hw oid t' ht' hs'
  rw [← hm] at hf hown
  rw [← hsnapshot]
  exact h oid t ht hs f hf hown

theorem Explained.detach (h : w.Explained account) (oid : Oid) :
    (w.detach oid).Explained account := h.of_retains (retains_detach oid)

theorem explained_empty : empty.Explained account := fun oid t ht => by simp [empty] at ht

theorem Explained.track (h : w.Explained account) {m : Metadata} {key : IdentityKey}
    {s : Snapshot} {x : Exchange}
    (hs : ∀ f ∈ m.fields, m.Own f → ∃ v, x.kept? f = some v ∧ lookupEntry f.name s = some v) :
    (w.track oid m key s).Explained (account ++ [(oid, x)]) := by
  intro j t ht hnew f hf hown
  rw [get?_tracked_track] at ht
  split at ht
  · rename_i hj
    subst hj
    rw [← Option.some.inj ht] at hf hown ⊢
    obtain ⟨v, hv, hlookup⟩ := hs f hf hown
    exact accounted_of_latest (latest_singleton x) hv fun _ => hlookup
  · rename_i hj
    refine (h j t ht hnew f hf hown).append (latest_eq_none fun e he => ?_)
    rw [List.mem_singleton.mp he]
    exact hj

end UnitOfWork

namespace Manager

variable {σ α : Type} [Connection σ]

theorem run_rowUnder_of_some {md : Metadata} {key : IdentityKey} {m : Manager σ} {oid : Oid}
    (h : m.work.find? key = some oid) : (rowUnder md key).run m = (.ok none, m) := by
  rw [rowUnder, Action.run_get_bind, h]
  rfl

theorem run_rowUnder_of_none {md : Metadata} {key : IdentityKey} {m : Manager σ}
    (h : m.work.find? key = none) : (rowUnder md key).run m = (loadRow md key).run m := by
  rw [rowUnder, Action.run_get_bind, h]

theorem post_find_row (type : EntityType) (id : Identifier) (m : Manager σ) :
    (find type id).Post
      (fun o t => (t.work = m.work ∧ (o = none ∨ ((rowOf type id).run m).1 = .ok none)) ∨
        ∃ oid md key s row, o = some oid ∧ ((rowOf type id).run m).1 = .ok (some row) ∧
          t.work = m.work.track oid md key s ∧
          ∀ f ∈ md.fields, f.OwnSlot md.fields →
            lookupEntry f.name s = some (f.given row (m.heap.fresh type)))
      (fun _ t => t.work = m.work) m := by
  refine (post_find_found type id m).mono (fun _ t ht => ?_) fun _ _ ht => ht.2.1
  have hrow {md : Metadata} {key : IdentityKey} {described : Manager σ}
      (hmd : (metadata type).run m = (.ok md, described))
      (hkey : IdentityKey.ofIdentifier md id = .ok key) :
      (rowOf type id).run m = (rowUnder md key).run described := by
    rw [rowOf, Action.run_bind_of_ok hmd, hkey]
    rfl
  have hwork {md : Metadata} {described : Manager σ}
      (hmd : (metadata type).run m = (.ok md, described)) : described.work = m.work := by
    rw [(post_metadata type m).of_run_ok hmd]
  cases ht with
  | tracked hmd hkey hfound =>
    refine .inl ⟨hwork hmd, .inr ?_⟩
    rw [hrow hmd hkey, run_rowUnder_of_some (by rw [hwork hmd, hfound])]
  | absent hmd _ _ hread =>
    have hkept := ((post_loadRow _ _ _).of_run_ok hread).1
    exact .inl ⟨by rw [hkept, ← hwork hmd], .inl rfl⟩
  | @loaded md key _ _ row x s hmd hkey hfree hread hhydrate hs =>
    refine .inr ⟨_, md, key, s, row, rfl, ?_, rfl, fun f hf hown => ?_⟩
    · rw [hrow hmd hkey, run_rowUnder_of_none (by rw [hwork hmd, hfree]), hread]
    · rw [Metadata.extract_eq hs, Metadata.lookupEntry_snapshotOf x hf,
        read_of_hydrate hhydrate hf hown]

theorem run_rowAgain {oid : Oid} {m described : Manager σ} {md : Metadata} {x : Instance}
    {ids : Snapshot} {key : IdentityKey}
    (hmd : (metadata (m.heap.typeOf oid)).run m = (.ok md, described))
    (hx : described.heap.toRead oid = .ok x) (hids : md.identifierValues x = .ok ids)
    (hkey : IdentityKey.ofSnapshot md ids = .ok key) :
    (rowAgain oid).run m = (loadRow md key).run described := by
  rw [rowAgain, Action.run_get_bind, Action.run_bind_of_ok hmd, Action.run_get_bind]
  simp only [hx, hids, hkey, Action.liftM_ok, pure_bind]

theorem post_refresh_row (oid : Oid) (m : Manager σ) :
    (refresh oid).Post
      (fun _ t => ∃ md key s row, ((rowAgain oid).run m).1 = .ok (some row) ∧
        t.work = (m.work.detach oid).track oid md key s ∧
        ∀ f ∈ md.fields, f.OwnSlot md.fields →
          lookupEntry f.name s = some ((m.heap.content oid).hold f.accessor.slot
            (f.given row (m.heap.fresh (m.heap.typeOf oid)))))
      (fun _ t => t.work = m.work ∨ t.work = m.work.detach oid) m := by
  refine (post_refresh_refreshed oid m).mono (fun _ t ht => ?_) fun _ _ ht => ht.2
  obtain @⟨md, key, described, _, _, s, row, x, _, _, hmd, hx, hids, hkey, hread, hhydrate, hcopy,
    hs⟩ := ht
  have hdescribed : described.heap.toRead oid = .ok x := by
    rw [(post_metadata _ m).of_run_ok hmd]
    exact hx
  refine ⟨md, key, s, row, ?_, rfl, fun f hf hown => ?_⟩
  · rw [run_rowAgain hmd hdescribed hids hkey, hread]
  · rw [Metadata.extract_eq hs, Metadata.lookupEntry_snapshotOf _ hf,
      read_of_reload hhydrate hcopy hf hown]

end Manager
end Persistence
