import Persistence.Proofs.Calls
import Persistence.Proofs.Carrying
import Persistence.Proofs.Inquiries
import Persistence.Proofs.Working

/-!
Plans of look-ups. A look-up plans one select with the metadata of its type. Whatever it comes to,
it has made no other call.
-/

namespace Persistence.Manager

open Persistence.Action (Within)
open Schema (Metadata)
open Sql (Aggregate Direction Filter Select Statement)

variable {σ α : Type}

def SameSession (m t : Manager σ) : Prop := t.session = m.session

instance : Std.Refl (SameSession (σ := σ)) := ⟨fun _ => rfl⟩

instance : Trans (SameSession (σ := σ)) SameSession SameSession := ⟨fun h h' => Eq.trans h' h⟩

namespace SameSession

theorem metadata (type : EntityType) :
    (Manager.metadata type : ManagerM σ Metadata).Within SameSession :=
  Within.get.bind fun _ => Within.ite (fun _ => rfl) (Within.throw _)

theorem allocate (x : Instance) : (Manager.allocate x : ManagerM σ Oid).Within SameSession :=
  fun _ => rfl

end SameSession

def ask (q : Select) : Call := .query (Statement.select q).sql (Statement.select q).parameters

def Makes (script : List Call) (m t : Manager (Recorded σ)) : Prop :=
  ∃ made, t.session.connection.calls = m.session.connection.calls ++ made ∧ works made <+: script

variable {m t u : Manager (Recorded σ)} {script : List Call}

theorem SameSession.makes (h : SameSession m t) : Makes script m t :=
  ⟨[], by rw [h, List.append_nil], List.nil_prefix⟩

theorem Makes.same (h : Makes script m t) (hsame : SameSession t u) : Makes script m u := by
  rwa [Makes, hsame]

theorem Makes.post (h : Makes script m t) {a : ManagerM (Recorded σ) α} (ha : a.Within SameSession) :
    a.Post (fun _ => Makes script m) (fun _ => Makes script m) t :=
  (Within.iff_post.mp ha t).mono (fun _ _ => h.same) fun _ _ => h.same

abbrev Frame := Metadata → Except Error Select

abbrev Conditions := Metadata → Except Error Filter

def planned (m : Manager (Recorded σ)) (type : EntityType) (frame : Frame)
    (conditions : Conditions) : List Call :=
  match m.registry.view type.className with
  | .error _ => []
  | .ok md =>
    match frame md, conditions md with
    | .ok q, .ok f => [ask { q with filter := f }]
    | _, _ => []

def KeepsTo (type : EntityType) (frame : Frame) (conditions : Conditions)
    (a : ManagerM (Recorded σ) α) : Prop :=
  ∀ m, Makes (planned m type frame conditions) m (a.run m).2

namespace Frame

def rows : Frame := fun md => .ok { table := md.fullTableName, projection := .columns md.columns }

def window (order : List (String × Direction)) (limit offset : Option Nat) : Frame := fun md => do
  let order ← Repository.ordering md order
  return { table := md.fullTableName, projection := .columns md.columns, order := order,
           limit := limit, offset := offset }

theorem window_eq {md : Metadata} {order columns : List (String × Direction)}
    (h : Repository.ordering md order = .ok columns) (limit offset : Option Nat) :
    window order limit offset md = .ok
      { table := md.fullTableName, projection := .columns md.columns, order := columns,
        limit := limit, offset := offset } := by
  rw [window, h]
  rfl

def count : Frame := fun md => .ok { table := md.fullTableName, projection := .count }

def identifiers : Frame := fun md => do
  md.requireIdentifiers
  return { table := md.fullTableName
           projection := .columns (md.identifierFields.map Schema.Field.column), limit := some 1 }

def aggregate (a : Aggregate) (field : String) : Frame := fun md => do
  let target ← Repository.aggregateTarget md a field
  return { table := md.fullTableName, projection := .aggregate a target }

end Frame

namespace Conditions

def ofIdentifier (id : Identifier) : Conditions := fun md => do
  let key ← IdentityKey.ofIdentifier md id
  return key.conditions md

def ofCriteria (criteria : Criteria) : Conditions := fun md => Repository.filter md criteria

end Conditions

variable {type : EntityType} {frame : Frame} {conditions : Conditions}

theorem planned_eq {md : Metadata} {q s : Select} {f : Filter}
    (hview : m.registry.view type.className = .ok md) (hq : frame md = .ok q)
    (hf : conditions md = .ok f) (hs : s = { q with filter := f }) :
    planned m type frame conditions = [ask s] := by
  simp only [planned, hview, hq, hf, hs]

theorem KeepsTo.bind {β : Type} {a : ManagerM (Recorded σ) β} {f : β → ManagerM (Recorded σ) α}
    (ha : KeepsTo type frame conditions a) (hf : ∀ x, (f x).Within SameSession) :
    KeepsTo type frame conditions (a >>= f) := by
  intro m
  refine Action.post_iff_run.mp ?_
  rw [Action.post_bind]
  exact (Action.post_iff_run.mpr (ha m)).mono (fun x _ ht => ht.post (hf x)) fun _ _ => id

theorem keepsTo_of_described {f : Metadata → ManagerM (Recorded σ) α}
    (hf : ∀ m t md, m.registry.view type.className = .ok md → SameSession m t →
      (f md).Post (fun _ => Makes (planned m type frame conditions) m)
        (fun _ => Makes (planned m type frame conditions) m) t) :
    KeepsTo type frame conditions (metadata type >>= f) := by
  intro m
  refine Action.post_iff_run.mp ?_
  have hsame := Action.post_iff.mp (Within.iff_post.mp (SameSession.metadata type) m)
  rw [Action.post_bind]
  refine Action.post_iff.mpr ⟨fun md t ht => ?_, fun e t ht => (hsame.2 e t ht).makes⟩
  exact hf m t md (view_of_metadata ht) (hsame.1 md t ht)

theorem post_lift {β : Type} {x : Except Error β} {f : β → ManagerM (Recorded σ) α}
    (h : SameSession m t) (hf : ∀ y, x = .ok y →
      (f y).Post (fun _ => Makes script m) (fun _ => Makes script m) t) :
    ((liftM x : ManagerM (Recorded σ) β) >>= f).Post (fun _ => Makes script m)
      (fun _ => Makes script m) t := by
  rw [Action.post_bind, Action.post_liftExcept]
  exact ⟨hf, fun _ _ => h.makes⟩

variable [Connection σ]

theorem post_select (q : Select) (h : SameSession m t) :
    (Repository.select q).Post (fun _ => Makes [ask q] m) (fun _ => Makes [ask q] m) t := by
  have hcalls : t.session.connection.calls = m.session.connection.calls := by rw [h]
  rw [Repository.select, post_onSession, Session.select, Session.post_query]
  refine (Recorded.post_calls (ask q) _ t.session.connection).mono (fun _ c hc => ?_) fun e c hc => ?_
  · exact ⟨[⟨ask q, none⟩], hcalls ▸ hc, List.prefix_refl _⟩
  · exact ⟨[⟨ask q, some e⟩], hcalls ▸ hc, List.prefix_refl _⟩

/-- A select that is planned is sent, and nothing after it. -/
theorem post_planned {md : Metadata} {q s : Select} {f : Filter}
    {k : List Row → ManagerM (Recorded σ) α} (hview : m.registry.view type.className = .ok md)
    (hq : frame md = .ok q) (hf : conditions md = .ok f) (hs : s = { q with filter := f })
    (h : SameSession m t) (hk : ∀ rows, (k rows).Within SameSession) :
    (Repository.select s >>= k).Post
      (fun _ => Makes (planned m type frame conditions) m)
      (fun _ => Makes (planned m type frame conditions) m) t := by
  rw [planned_eq hview hq hf hs, Action.post_bind]
  exact (post_select _ h).mono (fun rows _ hu => hu.post (hk rows)) fun _ _ => id

theorem keepsTo_findBy (criteria : Criteria) (order : List (String × Direction))
    (limit offset : Option Nat) : KeepsTo type (.window order limit offset) (.ofCriteria criteria)
      (Repository.findBy (σ := Recorded σ) type criteria order limit offset) := by
  rw [Repository.findBy]
  refine keepsTo_of_described fun m t md hview h => ?_
  refine post_lift h fun f hf => post_lift h fun o ho => ?_
  have hq := Frame.window_eq ho limit offset
  exact post_planned hview hq hf rfl h fun rows => within_hydrateAll type md rows

theorem keepsTo_findOneBy (criteria : Criteria) :
    KeepsTo type (.window [] (some 1) none) (.ofCriteria criteria)
      (Repository.findOneBy (σ := Recorded σ) type criteria) := by
  rw [Repository.findOneBy]
  exact (keepsTo_findBy criteria [] (some 1) none).bind fun _ => Within.pure _

theorem keepsTo_count (criteria : Criteria) : KeepsTo type .count (.ofCriteria criteria)
    (Repository.count (σ := Recorded σ) type criteria) := by
  rw [Repository.count]
  refine keepsTo_of_described fun m t md hview h => post_lift h fun f hf => ?_
  refine post_planned hview rfl hf rfl h fun rows => ?_
  dsimp only
  split
  · exact Within.pure _
  · exact Within.throw _

theorem keepsTo_exists (criteria : Criteria) : KeepsTo type .identifiers (.ofCriteria criteria)
    (Repository.exists? (σ := Recorded σ) type criteria) := by
  rw [Repository.exists?]
  refine keepsTo_of_described fun m t md hview h => ?_
  refine post_lift h fun _ hidentifiers => post_lift h fun f hf => ?_
  have hq : Frame.identifiers md = .ok
      { table := md.fullTableName
        projection := .columns (md.identifierFields.map Schema.Field.column), limit := some 1 } := by
    rw [Frame.identifiers, hidentifiers]
    rfl
  exact post_planned hview hq hf rfl h fun rows => Within.pure _

theorem keepsTo_aggregate (a : Aggregate) (field : String) (criteria : Criteria) :
    KeepsTo type (.aggregate a field) (.ofCriteria criteria)
      (Repository.aggregate (σ := Recorded σ) type a field criteria) := by
  rw [Repository.aggregate]
  refine keepsTo_of_described fun m t md hview h => ?_
  refine post_lift h fun target htarget => post_lift h fun f hf => ?_
  have hq : Frame.aggregate a field md = .ok
      { table := md.fullTableName, projection := .aggregate a target } := by
    rw [Frame.aggregate, htarget]
    rfl
  exact post_planned hview hq hf rfl h fun rows => Within.pure _

theorem keepsTo_find (id : Identifier) : KeepsTo type .rows (.ofIdentifier id)
    (find (σ := Recorded σ) type id) := by
  rw [find]
  refine keepsTo_of_described fun m t md hview h => post_lift h fun key hkey => ?_
  rw [Action.post_bind, Action.post_get]
  have hf : Conditions.ofIdentifier id md = .ok (key.conditions md) := by
    rw [Conditions.ofIdentifier, hkey]
    rfl
  split
  · exact h.makes.post ((within_ofType type _).map _)
  · rw [loadRow, bind_assoc]
    refine post_planned hview rfl hf rfl h fun rows => ?_
    rw [pure_bind]
    cases rows.head? with
    | none => exact Within.pure _
    | some row =>
      refine Within.get.bind fun _ => (SameSession.allocate _).bind fun _ => ?_
      exact (Within.liftExcept _).bind fun _ => (Within.liftExcept _).bind fun _ =>
        Within.bind (fun _ => rfl) fun _ => Within.pure _

end Persistence.Manager
