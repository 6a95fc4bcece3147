import Persistence.Manager.Reference
import Persistence.Manager.Repository
import Persistence.Proofs.Steadiness

/-!
Inquiries: calls of repositories and queries whose results nobody tracks, and calls that prepare or
forget such. They leave the instances and what is tracked as they were, and the answers of the
registry, too.
-/

namespace Persistence.Manager

open Persistence.Action (Within)
open Schema (Metadata Registry)
open Sql (Aggregate Direction)

variable {σ α : Type}

section Checks

variable {R : Manager σ → Manager σ → Prop} [Std.Refl R] [Trans R R R]

theorem within_ofType (type : EntityType) (oid : Oid) : (ofType type oid : ManagerM σ Oid).Within R :=
  Within.get.bind fun _ => Within.ite (Within.pure _) (Within.throw _)

theorem within_hydrateAll (type : EntityType) (md : Metadata) (rows : List Row) :
    (hydrateAll type md rows : ManagerM σ (List Instance)).Within R := by
  induction rows with
  | nil => exact Within.pure _
  | cons row rest ih =>
    exact Within.get.bind fun _ => (Within.liftExcept _).bind fun _ => ih.bind fun _ => Within.pure _

end Checks

structure Undisturbed (m t : Manager σ) : Prop where
  heap : t.heap = m.heap
  work : t.work = m.work
  registry : m.registry.Agrees t.registry

instance : Std.Refl (Undisturbed (σ := σ)) := ⟨fun m => ⟨rfl, rfl, Std.Refl.refl m.registry⟩⟩

instance : Trans (Undisturbed (σ := σ)) Undisturbed Undisturbed :=
  ⟨fun h h' => ⟨h'.heap.trans h.heap, h'.work.trans h.work,
    Trans.trans (r := Registry.Agrees) h.registry h'.registry⟩⟩

namespace Undisturbed

theorem onSession (a : SessionM σ α) : (Manager.onSession a).Within Undisturbed :=
  fun m => ⟨rfl, rfl, Std.Refl.refl m.registry⟩

theorem onRegistry {a : Schema.RegistryM α} (ha : a.Within Registry.Agrees) :
    (Manager.onRegistry a : ManagerM σ α).Within Undisturbed :=
  ha.onPart fun _ _ h => ⟨rfl, rfl, h⟩

theorem metadata (type : EntityType) : (Manager.metadata type : ManagerM σ Metadata).Within Undisturbed :=
  Within.get.bind fun _ =>
    Within.ite (onRegistry (Registry.within_describe _)) (Within.throw _)

theorem reference (type : EntityType) (id : Identifier) :
    (Manager.reference type id : ManagerM σ Reference).Within Undisturbed := by
  refine (metadata type).bind fun _ => (Within.liftExcept _).bind fun _ => Within.get.bind fun _ => ?_
  split
  · exact (within_ofType _ _).map _
  · exact Within.pure _

variable [Connection σ]

theorem createQuery (source : String) :
    (Manager.createQuery source : ManagerM σ BoundQuery).Within Undisturbed := by
  intro m
  have hrest : (Manager.createQuery source).Post (fun _ t => t.heap = m.heap ∧ t.work = m.work)
      (fun _ t => t.heap = m.heap ∧ t.work = m.work) m := by
    simp only [Manager.createQuery, Manager.onRegistry, Action.post_bind, Action.post_get,
      Action.post_set, Action.post_liftExcept, Action.post_onPart, Action.post_pure]
    refine ⟨fun _ _ => ?_, fun _ _ => ⟨trivial, trivial⟩⟩
    exact Action.post_of_forall _ (fun _ _ => ⟨trivial, trivial⟩) fun _ _ => ⟨trivial, trivial⟩
  obtain ⟨hheap, hwork⟩ := Action.post_iff_run
    (P := fun t : Manager σ => t.heap = m.heap ∧ t.work = m.work) |>.mp hrest
  exact ⟨hheap, hwork, steady_sameAnswers.createQuery source m⟩

theorem findBy (type : EntityType) (criteria : Criteria) (order : List (String × Direction))
    (limit offset : Option Nat) : (Repository.findBy type criteria order limit offset :
      ManagerM σ (List Instance)).Within Undisturbed :=
  (metadata type).bind fun _ => (Within.liftExcept _).bind fun _ => (Within.liftExcept _).bind
    fun _ => (onSession _).bind fun _ => within_hydrateAll _ _ _

theorem count (type : EntityType) (criteria : Criteria) :
    (Repository.count type criteria : ManagerM σ Nat).Within Undisturbed := by
  refine (metadata type).bind fun _ => (Within.liftExcept _).bind fun _ =>
    (onSession _).bind fun _ => ?_
  dsimp only
  split
  · exact Within.pure _
  · exact Within.throw _

theorem rows (q : BoundQuery) : (q.rows : ManagerM σ (List Row)).Within Undisturbed :=
  (Within.liftExcept _).bind fun _ => (onSession _).explain _

theorem results (q : BoundQuery) (type : EntityType) :
    (q.results type : ManagerM σ (List Instance)).Within Undisturbed :=
  (metadata type).bind fun _ => Within.ite (Within.throw _)
    ((rows q).bind fun _ => within_hydrateAll _ _ _)

end Undisturbed

inductive Inquiry
  | describe (type : EntityType)
  | reference (type : EntityType) (id : Identifier)
  | findBy (type : EntityType) (criteria : Criteria) (order : List (String × Direction))
      (limit offset : Option Nat)
  | findAll (type : EntityType)
  | findOneBy (type : EntityType) (criteria : Criteria)
  | count (type : EntityType) (criteria : Criteria)
  | exists? (type : EntityType) (criteria : Criteria)
  | aggregate (type : EntityType) (a : Aggregate) (field : String) (criteria : Criteria)
  | paginate (type : EntityType) (number size : Nat) (criteria : Criteria)
      (order : List (String × Direction))
  | runQuery (type : EntityType) (source : String) (values : List (String × Value))
  | createQuery (source : String)
  | results (q : BoundQuery) (type : EntityType)
  | singleResult (q : BoundQuery) (type : EntityType)
  | scalar (q : BoundQuery)
  | query (sql : String) (parameters : List Value)
  | clearMetadata
  | clearQueries

variable [Connection σ]

def Inquiry.run : Inquiry → ManagerM σ Unit
  | describe type => discard (metadata type)
  | reference type id => discard (Manager.reference type id)
  | findBy type criteria order limit offset =>
    discard (Repository.findBy type criteria order limit offset)
  | findAll type => discard (Repository.findAll type)
  | findOneBy type criteria => discard (Repository.findOneBy type criteria)
  | count type criteria => discard (Repository.count type criteria)
  | exists? type criteria => discard (Repository.exists? type criteria)
  | aggregate type a field criteria => discard (Repository.aggregate type a field criteria)
  | paginate type number size criteria order =>
    discard (Repository.paginate type number size criteria order)
  | runQuery type source values => discard (Repository.runQuery type source values)
  | createQuery source => discard (Manager.createQuery source)
  | results q type => discard (q.results type)
  | singleResult q type => discard (q.singleResult type)
  | scalar q => discard q.scalar
  | query sql parameters => discard (onSession (Session.query sql parameters))
  | clearMetadata => Manager.clearMetadata
  | clearQueries => Manager.clearQueries

theorem Inquiry.within_run (i : Inquiry) : (i.run : ManagerM σ Unit).Within Undisturbed := by
  cases i with
  | describe type => exact (Undisturbed.metadata type).discard
  | reference type id => exact (Undisturbed.reference type id).discard
  | findBy type criteria order limit offset => exact (Undisturbed.findBy _ _ _ _ _).discard
  | findAll type => exact (Undisturbed.findBy _ _ _ _ _).discard
  | findOneBy type criteria =>
    exact ((Undisturbed.findBy _ _ _ _ _).bind fun _ => Within.pure _).discard
  | count type criteria => exact (Undisturbed.count type criteria).discard
  | exists? type criteria =>
    exact ((Undisturbed.metadata type).bind fun _ => (Within.liftExcept _).bind fun _ =>
      (Within.liftExcept _).bind fun _ => (Undisturbed.onSession _).bind fun _ =>
        Within.pure _).discard
  | aggregate type a field criteria =>
    exact ((Undisturbed.metadata type).bind fun _ => (Within.liftExcept _).bind fun _ =>
      (Within.liftExcept _).bind fun _ => (Undisturbed.onSession _).bind fun _ =>
        Within.pure _).discard
  | paginate type number size criteria order =>
    refine (Within.ite (Within.throw _) (Within.ite (Within.throw _) ?_)).discard
    exact (Undisturbed.findBy _ _ _ _ _).bind fun _ => (Undisturbed.count _ _).bind fun _ =>
      Within.pure _
  | runQuery type source values =>
    exact (Within.ite (Within.throw _)
      ((Undisturbed.createQuery _).bind fun _ => Undisturbed.results _ _)).discard
  | createQuery source => exact (Undisturbed.createQuery source).discard
  | results q type => exact (Undisturbed.results q type).discard
  | singleResult q type =>
    exact ((Undisturbed.results q type).bind fun _ =>
      Within.ite (Within.throw _) (Within.pure _)).discard
  | scalar q =>
    refine ((Undisturbed.rows q).bind fun rows => ?_).discard
    split
    · exact Within.pure _
    · exact Within.pure _
    · exact Within.throw _
  | query sql parameters => exact (Undisturbed.onSession _).discard
  | clearMetadata => exact fun m => ⟨rfl, rfl, rfl, fun _ => Registry.sound_of_memo_eq rfl⟩
  | clearQueries => exact fun m => ⟨rfl, rfl, Std.Refl.refl _⟩

end Persistence.Manager
