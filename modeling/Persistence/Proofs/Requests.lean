import Persistence.Manager.BoundQuery
import Persistence.Proofs.Keys
import Persistence.Proofs.Loading
import Persistence.Proofs.Transactions

/-!
What finding and refreshing an instance come to. `Found` and `Refreshed` say all that is done by a
request that succeeds, with the metadata, the key and the row that it goes by; whatever else is to
be known of these requests is read off them.
-/

namespace Persistence.Manager

open Schema (Metadata Snapshot)
open Persistence.Action (post_of_forall)

variable {σ : Type} {m : Manager σ}

theorem post_metadata (type : EntityType) (m : Manager σ) :
    (metadata type).Post (fun _ t => t = { m with registry := t.registry })
      (fun _ t => t = { m with registry := t.registry }) m := by
  simp only [metadata, onRegistry, Action.post_bind, Action.post_get, Action.post_ite,
    Action.post_onPart, Action.post_throw, implies_true, and_true]
  exact fun _ => post_of_forall _ (fun _ _ => trivial) fun _ _ => trivial

def Carries (m : Manager σ) (oid : Oid) (key : IdentityKey) : Prop :=
  ∃ md described x ids, (metadata (m.heap.typeOf oid)).run m = (.ok md, described) ∧
    m.heap.toRead oid = .ok x ∧ md.identifierValues x = .ok ids ∧
    IdentityKey.ofSnapshot md ids = .ok key

theorem Carries.unique {oid : Oid} {key key' : IdentityKey} (h : m.Carries oid key)
    (h' : m.Carries oid key') : key = key' := by
  obtain ⟨md, t, x, ids, hmd, hx, hids, hkey⟩ := h
  obtain ⟨md', t', x', ids', hmd', hx', hids', hkey'⟩ := h'
  obtain rfl : md = md' := Except.ok.inj (Prod.mk.inj (hmd.symm.trans hmd')).1
  obtain rfl : x = x' := Except.ok.inj (hx.symm.trans hx')
  obtain rfl : ids = ids' := Except.ok.inj (hids.symm.trans hids')
  exact Except.ok.inj (hkey.symm.trans hkey')

variable [Connection σ]

theorem post_loadRow (md : Metadata) (key : IdentityKey) (m : Manager σ) :
    (loadRow md key).Post
      (fun _ t => t = { m with session := t.session } ∧ m.session.SameNesting t.session)
      (fun _ t => t = { m with session := t.session } ∧ m.session.SameNesting t.session) m := by
  simp only [loadRow, onSession, inEnvironment, Environment.onSession, Session.select,
    Action.post_bind, Action.post_onPart, Action.post_pure]
  exact (Session.post_query_sameNesting ..).mono (fun _ _ h => ⟨trivial, h⟩) fun _ _ h => ⟨trivial, h⟩

inductive Found (m : Manager σ) (type : EntityType) (id : Identifier) :
    Option Oid → Manager σ → Prop
  | tracked {md : Metadata} {key : IdentityKey} {oid : Oid} {t : Manager σ} :
      (metadata type).run m = (.ok md, t) → IdentityKey.ofIdentifier md id = .ok key →
      m.work.find? key = some oid → m.heap.typeOf oid = type → Found m type id (some oid) t
  | absent {md : Metadata} {key : IdentityKey} {described t : Manager σ} :
      (metadata type).run m = (.ok md, described) → IdentityKey.ofIdentifier md id = .ok key →
      m.work.find? key = none → (loadRow md key).run described = (.ok none, t) →
      Found m type id none t
  | loaded {md : Metadata} {key : IdentityKey} {described read : Manager σ} {row : Row}
      {x : Instance} {s : Snapshot} :
      (metadata type).run m = (.ok md, described) → IdentityKey.ofIdentifier md id = .ok key →
      m.work.find? key = none → (loadRow md key).run described = (.ok (some row), read) →
      (md.hydrate row).run (m.heap.fresh type) = (.ok ⟨⟩, x) → md.extract x = .ok s →
      Found m type id (some ⟨m.heap.objects.length⟩)
        { read with
          heap := (m.heap.allocate x).2
          work := m.work.track ⟨m.heap.objects.length⟩ md key s }

theorem post_find_found (type : EntityType) (id : Identifier) (m : Manager σ) :
    (find type id).Post (Found m type id)
      (fun _ t => m.session.SameNesting t.session ∧ t.work = m.work ∧
        (t.heap = m.heap ∨ ∃ x, t.heap = (m.heap.allocate x).2)) m := by
  simp only [find, allocate, ofType, updateWork, Action.post_bind, Action.post_liftExcept,
    Action.post_get]
  have hnone : m.session.SameNesting m.session := ⟨rfl, rfl⟩
  rw [Action.post_iff]
  refine ⟨fun md described hmd => ?_, fun e t ht => ?_⟩
  case refine_2 =>
    rw [(post_metadata type m).of_run_error ht]
    exact ⟨hnone, rfl, .inl rfl⟩
  have h := (post_metadata type m).of_run_ok hmd
  have hheap : described.heap = m.heap := by rw [h]
  have hwork : described.work = m.work := by rw [h]
  have hsession : described.session = m.session := by rw [h]
  rw [hwork, hsession, hheap]
  refine ⟨fun key hkey => ?_, fun _ _ => ⟨hnone, rfl, .inl rfl⟩⟩
  split
  · rename_i oid hfound
    simp only [Action.post_map, Action.post_bind, Action.post_get, Action.post_ite,
      Action.post_pure, Action.post_throw, hheap, hwork, hsession]
    exact ⟨fun htype => .tracked hmd hkey hfound htype, fun _ => ⟨hnone, trivial, .inl trivial⟩⟩
  · rename_i hfree
    rw [Action.post_bind, Action.post_iff]
    refine ⟨fun row read hread => ?_, fun e read hread => ?_⟩
    case refine_2 =>
      obtain ⟨heq, hnesting⟩ := (post_loadRow md key described).of_run_error hread
      rw [heq]
      exact ⟨hsession ▸ hnesting, hwork, .inl hheap⟩
    obtain ⟨heq, hnesting⟩ := (post_loadRow md key described).of_run_ok hread
    have hheap' : read.heap = m.heap := by rw [heq, ← hheap]
    have hwork' : read.work = m.work := by rw [heq, ← hwork]
    rw [hsession] at hnesting
    split
    · exact .absent hmd hkey hfree hread
    · rename_i row
      rw [Action.post_bind, Action.post_get]
      split
      rename_i outcome x hhydrate
      simp only [Action.post_bind, Action.post_get, Action.post_set, Action.post_pure,
        Action.post_liftExcept, Action.post_modify, hheap', hwork']
      have hmissed : ∃ y, (m.heap.allocate x).2 = (m.heap.allocate y).2 := ⟨x, rfl⟩
      refine ⟨fun _ houtcome => ⟨fun s hs => ?_, fun _ _ => ⟨hnesting, trivial, .inr hmissed⟩⟩,
        fun _ _ => ⟨hnesting, trivial, .inr hmissed⟩⟩
      rw [houtcome, hheap'] at hhydrate
      exact .loaded hmd hkey hfree hread hhydrate hs

inductive Refreshed (m : Manager σ) (oid : Oid) : Manager σ → Prop
  | mk {md : Metadata} {key : IdentityKey} {described read : Manager σ} {ids s : Snapshot}
      {row : Row} {x y loaded : Instance} :
      (metadata (m.heap.typeOf oid)).run m = (.ok md, described) → m.heap.toRead oid = .ok x →
      md.identifierValues x = .ok ids → IdentityKey.ofSnapshot md ids = .ok key →
      (loadRow md key).run described = (.ok (some row), read) →
      (md.hydrate row).run (m.heap.fresh (m.heap.typeOf oid)) = (.ok ⟨⟩, loaded) →
      (copyFields loaded md.fields).run (m.heap.content oid) = (.ok ⟨⟩, y) → md.extract y = .ok s →
      Refreshed m oid
        { read with
          heap := m.heap.put oid y
          work := (m.work.detach oid).track oid md key s }

/-- What a request to refresh an instance asks for: the row of the key that the instance carries. -/
structure Asked (m : Manager σ) (oid : Oid) (md : Metadata) (key : IdentityKey)
    (described : Manager σ) : Prop where
  describes : (metadata (m.heap.typeOf oid)).run m = (.ok md, described)
  carries : ∃ x ids, m.heap.toRead oid = .ok x ∧ md.identifierValues x = .ok ids ∧
    IdentityKey.ofSnapshot md ids = .ok key

/-- Where a request that fails to refresh an instance has stopped. -/
inductive Unrefreshed (m : Manager σ) (oid : Oid) : Error → Manager σ → Prop
  | undescribed {e : Error} {t : Manager σ} :
      (metadata (m.heap.typeOf oid)).run m = (.error e, t) → Unrefreshed m oid e t
  | unread {md : Metadata} {described : Manager σ} {e : Error} :
      (metadata (m.heap.typeOf oid)).run m = (.ok md, described) →
      m.heap.toRead oid = .error e → Unrefreshed m oid e described
  | unidentified {md : Metadata} {described : Manager σ} {x : Instance} {e : Error} :
      (metadata (m.heap.typeOf oid)).run m = (.ok md, described) → m.heap.toRead oid = .ok x →
      md.identifierValues x = .error e → Unrefreshed m oid e described
  | unkeyed {md : Metadata} {described : Manager σ} {ids : Snapshot} {cause : Error} :
      (metadata (m.heap.typeOf oid)).run m = (.ok md, described) →
      IdentityKey.ofSnapshot md ids = .error cause →
      Unrefreshed m oid (cause.context (.state (.cannotRefresh (m.heap.typeOf oid).className)))
        described
  | unselected {md : Metadata} {key : IdentityKey} {described t : Manager σ} {e : Error} :
      Asked m oid md key described → (loadRow md key).run described = (.error e, t) →
      Unrefreshed m oid e t
  | gone {md : Metadata} {key : IdentityKey} {described read : Manager σ} :
      Asked m oid md key described → (loadRow md key).run described = (.ok none, read) →
      Unrefreshed m oid ⟨.entityNotFound (m.heap.typeOf oid).className key.identifier, []⟩
        { read with work := m.work.detach oid }
  | unhydrated {md : Metadata} {key : IdentityKey} {described read : Manager σ} {row : Row}
      {e : Error} {loaded : Instance} :
      Asked m oid md key described → (loadRow md key).run described = (.ok (some row), read) →
      (md.hydrate row).run (m.heap.fresh (m.heap.typeOf oid)) = (.error e, loaded) →
      Unrefreshed m oid e read
  | borrowed {md : Metadata} {key : IdentityKey} {described read : Manager σ} {row : Row}
      {e : Error} :
      Asked m oid md key described → (loadRow md key).run described = (.ok (some row), read) →
      m.heap.toChange oid = .error e → Unrefreshed m oid e read
  | uncopied {md : Metadata} {key : IdentityKey} {described read : Manager σ} {row : Row}
      {e : Error} {loaded y : Instance} :
      Asked m oid md key described → (loadRow md key).run described = (.ok (some row), read) →
      (md.hydrate row).run (m.heap.fresh (m.heap.typeOf oid)) = (.ok ⟨⟩, loaded) →
      (copyFields loaded md.fields).run (m.heap.content oid) = (.error e, y) →
      Unrefreshed m oid e { read with heap := m.heap.put oid y }
  | unextracted {md : Metadata} {key : IdentityKey} {described read : Manager σ} {row : Row}
      {e : Error} {loaded y : Instance} :
      Asked m oid md key described → (loadRow md key).run described = (.ok (some row), read) →
      (md.hydrate row).run (m.heap.fresh (m.heap.typeOf oid)) = (.ok ⟨⟩, loaded) →
      (copyFields loaded md.fields).run (m.heap.content oid) = (.ok ⟨⟩, y) →
      md.extract y = .error e → Unrefreshed m oid e { read with heap := m.heap.put oid y }

theorem post_refresh_stopped (oid : Oid) (m : Manager σ) :
    (refresh oid).Post (fun _ t => Refreshed m oid t) (Unrefreshed m oid) m := by
  simp only [refresh, changeHeap, detach, updateWork, Action.post_bind, Action.post_get]
  rw [Action.post_iff]
  refine ⟨fun md described hmd => ?_, fun e t ht => .undescribed ht⟩
  have h := (post_metadata _ m).of_run_ok hmd
  have hheap : described.heap = m.heap := by rw [h]
  have hwork : described.work = m.work := by rw [h]
  simp only [Action.post_liftExcept, hheap]
  refine ⟨fun x hx => ⟨fun ids hids => ?_, fun _ he => .unidentified hmd hx he⟩,
    fun _ he => .unread hmd he⟩
  split
  case h_2 => exact .unkeyed hmd ‹_›
  rename_i key hkey
  have hasked : Asked m oid md key described := ⟨hmd, x, ids, hx, hids, hkey⟩
  simp only [Action.post_bind, Action.post_pure]
  rw [Action.post_iff]
  refine ⟨fun row read hread => ?_, fun e read hread => .unselected hasked hread⟩
  obtain ⟨heq, -⟩ := (post_loadRow md key described).of_run_ok hread
  have hheap' : read.heap = m.heap := by rw [heq, ← hheap]
  have hwork' : read.work = m.work := by rw [heq, ← hwork]
  split
  · simp only [Action.post_bind, Action.post_modify, Action.post_throw, hwork']
    exact .gone hasked hread
  · rename_i row
    rw [Action.post_bind, Action.post_get]
    split
    rename_i outcome loaded hhydrate
    rw [hheap'] at hhydrate
    simp only [Action.post_bind, Action.post_liftExcept, Action.post_get]
    refine ⟨fun _ houtcome => ?_, fun e he => .unhydrated hasked hread (he ▸ hhydrate)⟩
    rw [houtcome] at hhydrate
    simp only [hheap']
    refine ⟨fun x' hx' => ?_, fun e he => .borrowed hasked hread he⟩
    split
    rename_i outcome' y hcopy
    rw [Heap.eq_of_toChange hx'] at hcopy
    simp only [Action.post_bind, Action.post_liftExcept, Action.post_modify, hheap']
    refine ⟨fun _ houtcome' => ?_, fun e he => .uncopied hasked hread hhydrate (he ▸ hcopy)⟩
    rw [houtcome'] at hcopy
    refine ⟨fun s hs => ?_, fun e he => .unextracted hasked hread hhydrate hcopy he⟩
    simp only [hwork']
    exact .mk hmd hx hids hkey hread hhydrate hcopy hs

theorem Asked.post_loadRow {oid : Oid} {md : Metadata} {key : IdentityKey} {described t : Manager σ}
    {row : Except Error (Option Row)} (h : Asked m oid md key described)
    (hrun : (loadRow md key).run described = (row, t)) :
    t.heap = m.heap ∧ t.work = m.work ∧ m.session.SameNesting t.session := by
  have hmd := (post_metadata _ m).of_run_ok h.describes
  have hread := Action.post_iff_run.mp (Manager.post_loadRow md key described)
  rw [hrun] at hread
  obtain ⟨heq, hnesting⟩ := hread
  replace heq : t = { described with session := t.session } := heq
  rw [hmd] at heq hnesting
  exact ⟨by rw [heq], by rw [heq], hnesting⟩

theorem post_refresh_tried (oid : Oid) (m : Manager σ) :
    (refresh oid).Post (fun _ t => Refreshed m oid t)
      (fun _ t => m.session.SameNesting t.session ∧
        (t.work = m.work ∨ t.work = m.work.detach oid) ∧
        (t.heap = m.heap ∨ ∃ loaded fs e y,
          (copyFields loaded fs).run (m.heap.content oid) = (e, y) ∧ t.heap = m.heap.put oid y)) m := by
  refine (post_refresh_stopped oid m).mono (fun _ _ => id) fun e t ht => ?_
  have described {md : Metadata} {t : Manager σ}
      (ht : (metadata (m.heap.typeOf oid)).run m = (.ok md, t)) :
      m.session.SameNesting t.session ∧ t.work = m.work ∧ t.heap = m.heap := by
    rw [(post_metadata _ m).of_run_ok ht]
    exact ⟨⟨rfl, rfl⟩, rfl, rfl⟩
  cases ht with
  | undescribed ht =>
    rw [(post_metadata _ m).of_run_error ht]
    exact ⟨⟨rfl, rfl⟩, .inl rfl, .inl rfl⟩
  | unread hmd | unidentified hmd | unkeyed hmd =>
    obtain ⟨hnesting, hwork, hheap⟩ := described hmd
    exact ⟨hnesting, .inl hwork, .inl hheap⟩
  | unselected h hread | unhydrated h hread | borrowed h hread =>
    obtain ⟨hheap, hwork, hnesting⟩ := h.post_loadRow hread
    exact ⟨hnesting, .inl hwork, .inl hheap⟩
  | gone h hread =>
    obtain ⟨hheap, -, hnesting⟩ := h.post_loadRow hread
    exact ⟨hnesting, .inr rfl, .inl hheap⟩
  | uncopied h hread _ hcopy | unextracted h hread _ hcopy =>
    obtain ⟨-, hwork, hnesting⟩ := h.post_loadRow hread
    exact ⟨hnesting, .inl hwork, .inr ⟨_, _, _, _, hcopy, rfl⟩⟩

theorem post_refresh_refreshed (oid : Oid) (m : Manager σ) :
    (refresh oid).Post (fun _ t => Refreshed m oid t)
      (fun _ t => m.session.SameNesting t.session ∧
        (t.work = m.work ∨ t.work = m.work.detach oid)) m :=
  (post_refresh_tried oid m).mono (fun _ _ => id) fun _ _ h => ⟨h.1, h.2.1⟩

end Persistence.Manager
