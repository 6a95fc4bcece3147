import Persistence.Manager.Repository
import Persistence.Proofs.Histories

/-!
Answers of the registry. What a registry keeps of a class is what the mapping gives, so describing
classes, reading queries and compiling them change no answer. What is tracked is described by the
answers of the registry, too.
-/

namespace Persistence

open Persistence.Action (Within)
open Schema (Metadata RegistryM)

namespace Schema.Registry

/-- What is kept of a class is what its mapping gives. -/
def Sound (r : Registry) : Prop := ∀ className m, r.memo.get? className = some m →
  r.build className = .ok m

/-- From one registry to the other the mappings are the same, and what is kept is as good. -/
structure Agrees (r t : Registry) : Prop where
  mappings : t.mappings = r.mappings
  sound : r.Sound → t.Sound

instance : Std.Refl Agrees := ⟨fun _ => ⟨rfl, id⟩⟩

instance : Trans Agrees Agrees Agrees :=
  ⟨fun h h' => ⟨h'.mappings.trans h.mappings, fun hr => h'.sound (h.sound hr)⟩⟩

variable {r t : Registry} {className : String} {m : Metadata}

theorem build_congr (h : t.mappings = r.mappings) : t.build = r.build := by
  funext c
  rw [build, build, h, show t.isRegistered = r.isRegistered by
    funext d
    rw [isRegistered, isRegistered, h]]

theorem Sound.view_eq (hr : r.Sound) (c : String) : r.view c =
    if Text.isBlankText c then .error (.validation .emptyClassName) else r.build c := by
  unfold view
  split
  · rfl
  · cases hm : r.memo.get? c with
    | none => rfl
    | some m => exact (hr c m hm).symm

theorem Agrees.view_eq (h : r.Agrees t) (hr : r.Sound) : t.view = r.view := by
  funext c
  rw [(h.sound hr).view_eq, hr.view_eq, build_congr h.mappings]

theorem isRegistered_of_view (hr : r.Sound) (h : r.view className = .ok m) :
    r.isRegistered className = true := by
  rw [hr.view_eq] at h
  split at h
  · simp at h
  · rw [build] at h
    rw [isRegistered, OrderedMap.contains]
    split at h
    · simp at h
    · rename_i hmapping
      rw [hmapping, Option.isSome_some]

theorem className_of_view (hr : r.Sound) (h : r.view className = .ok m) : m.className = className := by
  rw [hr.view_eq] at h
  split at h
  · simp at h
  · rw [build] at h
    split at h
    · simp at h
    · rw [Mapping.build] at h
      split at h
      · rw [← Except.ok.inj h]
        rfl
      · simp at h

theorem sound_of_memo_eq (h : r.memo = .empty) : r.Sound := fun c m hm => by simp [h] at hm

theorem within_describe (className : String) : (describe className).Within Agrees := by
  intro r
  change r.Agrees (describe className r).2
  unfold describe
  split
  · rename_i m hm
    refine ⟨by unfold remember; split <;> rfl, fun hr c md hc => ?_⟩
    rw [build_remember]
    unfold remember at hc
    split at hc
    · rw [OrderedMap.get?_insert] at hc
      split at hc
      · rename_i hclass
        rw [hr.view_eq] at hm
        split at hm
        · simp at hm
        · rw [← hclass, hm, Option.some.inj hc]
      · exact hr c md hc
    · exact hr c md hc
  · exact Std.Refl.refl r

theorem within_associationJoin (source association sourceAlias targetAlias : String) :
    (associationJoin source association sourceAlias targetAlias).Within Agrees := by
  refine (within_describe source).bind fun m => ?_
  split
  · exact Within.throw _
  · exact (within_describe _).bind fun _ => Within.liftExcept _

end Schema.Registry

namespace ObjectQuery

open Schema.Registry (Agrees within_describe within_associationJoin)

theorem within_resolve (aliases : OrderedMap String String) (ts : Tokens)
    (target : String ⊕ AssociationRef) : (resolve aliases ts target).Within Agrees := by
  unfold resolve
  split
  · exact Within.pure _
  · split
    · exact Within.throw _
    · refine (within_describe _).bind fun m => ?_
      split
      · exact Within.pure _
      · exact Within.throw _

theorem within_readJoins (aliases : OrderedMap String String) (ts : Tokens) :
    (readJoins aliases ts).Within Agrees := by
  fun_induction readJoins aliases ts with
  | case1 => exact Within.throw _
  | case2 => exact Within.pure _
  | case3 => exact Within.throw _
  | case4 aliases ts kind start hk head afterHead hh ih =>
    refine (within_resolve _ _ _).bind fun className => ?_
    split
    · exact Within.throw _
    · split
      · exact Within.throw _
      · exact (ih _ _ _ ‹_›).bind fun _ => Within.pure _

theorem within_parse (source : String) : (parse source).Within Agrees := by
  unfold parse
  refine Within.ite (Within.throw _) ((Within.liftExcept _).bind fun ts => ?_)
  refine (Within.liftExcept _).bind fun _ => (Within.liftExcept _).bind fun ⟨_, _⟩ => ?_
  refine (Within.liftExcept _).bind fun _ => (Within.liftExcept _).bind fun ⟨_, _⟩ => ?_
  refine (within_readJoins _ _).bind fun ⟨_, _, _⟩ => ?_
  refine (Within.liftExcept _).bind fun ⟨_, _⟩ => (Within.liftExcept _).bind fun ⟨_, rest⟩ => ?_
  cases rest with
  | nil => exact Within.pure _
  | cons => exact Within.throw _

theorem within_describeJoins (joins : List Join) : (describeJoins joins).Within Agrees := by
  induction joins with
  | nil => exact Within.pure _
  | cons j rest ih =>
    exact (within_describe _).bind fun _ => ih.bind fun _ => Within.pure _

theorem within_compileJoin (q : ObjectQuery) (scope : Scope) (m : Metadata) (j : Join) :
    (compileJoin q scope m j).Within Agrees := by
  unfold compileJoin
  split
  · split
    · exact Within.throw _
    · exact (within_associationJoin _ _ _ _).bind fun _ =>
        (Within.liftExcept _).bind fun _ => Within.pure _
  · split
    · exact Within.throw _
    · exact (Within.liftExcept _).bind fun _ => Within.pure _

theorem within_compileJoins (q : ObjectQuery) (full scope : Scope) (joins : List (Join × Metadata)) :
    (compileJoins q full scope joins).Within Agrees := by
  induction joins generalizing scope with
  | nil => exact Within.pure _
  | cons j rest ih =>
    exact (within_compileJoin _ _ _ _).bind fun _ => (ih _).bind fun _ => Within.pure _

theorem within_compile (q : ObjectQuery) : (compile q).Within Agrees := by
  refine (within_describe _).bind fun root => (within_describeJoins _).bind fun described => ?_
  dsimp only
  split
  all_goals
    refine Within.bind ?_ fun _ => (within_compileJoins _ _ _ _).bind fun _ =>
      (Within.liftExcept _).bind fun _ => (Within.liftExcept _).bind fun _ => Within.pure _
  · exact Within.pure _
  · exact Within.liftExcept _

theorem within_cacheParse (source : String) (c : Cache) (r : Schema.Registry) :
    r.Agrees (c.parse source r).2.2 := by
  unfold Cache.parse
  dsimp only
  split
  · exact Std.Refl.refl r
  · have h := within_parse (Text.trim source) r
    split
    · rename_i hrun
      rwa [hrun] at h
    · rename_i hrun
      rwa [hrun] at h

end ObjectQuery

namespace Manager

open Schema (Registry)

variable {σ : Type} {m t : Manager σ} {type : EntityType} {md : Metadata} {r r' : Registry}

theorem view_of_metadata (h : (metadata type).run m = (.ok md, t)) :
    m.registry.view type.className = .ok md := by
  have hpost : (metadata type).Post (fun md _ => m.registry.view type.className = .ok md)
      (fun _ _ => True) m := by
    simp only [metadata, onRegistry, Action.post_bind, Action.post_get, Action.post_ite,
      Action.post_onPart, Action.post_throw, implies_true, and_true]
    intro _
    rw [Action.post_iff]
    refine ⟨fun md r hr => ?_, fun _ _ _ => trivial⟩
    rw [← Registry.describe_fst]
    exact (Prod.mk.inj hr).1
  exact hpost.of_run_ok h

theorem run_metadata (hr : m.registry.Sound) (h : m.registry.view type.className = .ok md) :
    (metadata type).run m =
      (.ok md, { m with registry := m.registry.remember type.className md }) := by
  refine Action.Post.run_eq ?_
  simp only [metadata, onRegistry, Action.post_bind, Action.post_get,
    Registry.isRegistered_of_view hr h, if_true, Action.post_onPart]
  refine (Action.post_of_run_ok (x := md) (t := m.registry.remember type.className md) ?_).mpr
    ⟨rfl, rfl⟩
  change Registry.describe type.className m.registry = _
  rw [Registry.describe, h]

section Steady

variable [Connection σ] {α : Type} {R : Manager σ → Manager σ → Prop}

structure Steady (R : Manager σ → Manager σ → Prop) : Prop where
  of_session_eq {m t : Manager σ} : t.session = m.session → m.registry.Agrees t.registry → R m t
  query (sql : String) (parameters : List Value) :
    (onSession (Session.query sql parameters)).Within R

namespace Steady

theorem updateWork (h : Steady R) (f : UnitOfWork → UnitOfWork) : (updateWork f).Within R :=
  fun m => h.of_session_eq rfl (Std.Refl.refl m.registry)

theorem changeHeap (h : Steady R) (f : Heap → Heap) : (changeHeap f).Within R :=
  fun m => h.of_session_eq rfl (Std.Refl.refl m.registry)

theorem allocate (h : Steady R) (x : Instance) : (allocate x).Within R :=
  fun m => h.of_session_eq rfl (Std.Refl.refl m.registry)

theorem onRegistry (h : Steady R) {a : RegistryM α} (ha : a.Within Registry.Agrees) :
    (onRegistry a).Within R :=
  ha.onPart fun _ _ hr => h.of_session_eq rfl hr

variable [Trans R R R]

theorem createQuery (h : Steady R) (source : String) : (createQuery source).Within R := by
  intro m
  let read := m.cache.parse source m.registry
  have hread : R m { m with cache := read.2.1, registry := read.2.2 } :=
    h.of_session_eq rfl (ObjectQuery.within_cacheParse source m.cache m.registry)
  refine Action.post_iff_run (P := R m) |>.mp ?_
  simp only [Manager.createQuery, Action.post_bind, Action.post_get, Action.post_set,
    Action.post_liftExcept, Action.post_pure]
  refine ⟨fun shared _ => ?_, fun _ _ => hread⟩
  have hcompile := Within.iff_post.mp (h.onRegistry (ObjectQuery.within_compile shared.query))
  exact (hcompile _).mono (fun _ _ ht => Trans.trans hread ht) fun _ _ ht => Trans.trans hread ht

variable [Std.Refl R]

theorem metadata (h : Steady R) (type : EntityType) : (metadata type).Within R :=
  Within.get.bind fun _ =>
    Within.ite (h.onRegistry (Registry.within_describe _)) (Within.throw _)

theorem loadRow (h : Steady R) (md : Metadata) (key : IdentityKey) : (loadRow md key).Within R :=
  (h.query _ _).bind fun _ => Within.pure _

theorem find (h : Steady R) (type : EntityType) (id : Identifier) : (find type id).Within R := by
  refine (h.metadata type).bind fun md => (Within.liftExcept _).bind fun key =>
    Within.get.bind fun m => ?_
  split
  · exact (Within.get.bind fun _ => Within.ite (Within.pure _) (Within.throw _)).map _
  · refine (h.loadRow md key).bind fun row => ?_
    split
    · exact Within.pure _
    · exact Within.get.bind fun m => (h.allocate _).bind fun oid =>
        (Within.liftExcept _).bind fun _ => (Within.liftExcept _).bind fun _ =>
          (h.updateWork _).bind fun _ => Within.pure _

theorem refresh (h : Steady R) (oid : Oid) : (refresh oid).Within R := by
  refine Within.get.bind fun m => (h.metadata _).bind fun md => Within.get.bind fun _ =>
    (Within.liftExcept _).bind fun x => (Within.liftExcept _).bind fun ids => ?_
  dsimp only
  split
  case h_2 => exact Within.throw _
  refine (Within.pure _).bind fun key => (h.loadRow md key).bind fun row => ?_
  split
  · exact (h.updateWork _).bind fun _ => Within.throw _
  · refine Within.get.bind fun m => (Within.liftExcept _).bind fun _ => Within.get.bind fun m =>
      (Within.liftExcept _).bind fun _ => (h.changeHeap _).bind fun _ => ?_
    exact (Within.liftExcept _).bind fun _ => (Within.liftExcept _).bind fun snapshot =>
      (h.updateWork _).bind fun _ => h.updateWork _

theorem ask (h : Steady R) {op : Operation} (hop : op ≠ .flush) : op.ask.Within R := by
  cases op with
  | edit heap => exact h.changeHeap _
  | find type id => exact h.find type id
  | persist oid =>
    exact Within.get.bind fun _ => (h.metadata _).bind fun _ =>
      (Within.liftExcept _).bind fun _ => h.updateWork _
  | remove oid =>
    exact Within.get.bind fun _ => (h.metadata _).discard.bind fun _ => Within.get.bind fun _ =>
      (Within.liftExcept _).bind fun _ => h.updateWork _
  | refresh oid => exact h.refresh oid
  | detach oid => exact h.updateWork _
  | clear => exact h.updateWork _
  | flush => exact absurd rfl hop
  | describe type => exact h.metadata type
  | query sql parameters => exact h.query sql parameters
  | createQuery source => exact h.createQuery source
  | clearMetadata =>
    exact fun m => h.of_session_eq rfl ⟨rfl, fun _ => Registry.sound_of_memo_eq rfl⟩
  | clearQueries => exact fun m => h.of_session_eq rfl (Std.Refl.refl m.registry)

end Steady

def SameAnswers (m t : Manager σ) : Prop := m.registry.Agrees t.registry

instance : Std.Refl (SameAnswers (σ := σ)) := ⟨fun m => Std.Refl.refl m.registry⟩

instance : Trans (SameAnswers (σ := σ)) SameAnswers SameAnswers :=
  ⟨fun h h' => Trans.trans (r := Registry.Agrees) h h'⟩

theorem steady_sameAnswers : Steady (SameAnswers (σ := σ)) where
  of_session_eq _ h := h
  query _ _ m := Std.Refl.refl m.registry

theorem within_flush : (flush : ManagerM σ Unit).Within SameAnswers :=
  Within.get.bind fun _ => Within.bind (fun m => Std.Refl.refl m.registry) fun _ =>
    steady_sameAnswers.updateWork _

theorem Operation.within_run (op : Operation) : (op.run : ManagerM σ Unit).Within SameAnswers := by
  by_cases hop : op = .flush
  · exact hop ▸ within_flush
  · rw [Operation.run_eq]
    exact (steady_sameAnswers.ask hop).discard

end Steady

structure Described (r : Registry) (m : Manager σ) : Prop where
  agrees : r.Agrees m.registry
  tracked : m.work.Each fun md _ => r.view md.className = .ok md

theorem memo_registerAll {earlier : List EntityType} {rs : List Registration}
    (h : registerAll earlier r rs = .ok r') (hr : r.memo = .empty) : r'.memo = .empty := by
  induction rs generalizing earlier r with
  | nil => exact Except.ok.inj h ▸ hr
  | cons x rest ih =>
    rw [registerAll] at h
    split at h
    · split at h
      · exact ih h hr
      · simp at h
    · refine ih h ?_
      rw [Registry.register, hr]
      rfl

theorem registerAll_of_build {o : Options} {heap : Heap} {connection : σ}
    (h : build o heap connection = .ok m) :
    registerAll [] (Registry.empty.setMemoizing o.keepMetadata) o.registrations = .ok m.registry := by
  unfold build at h
  cases hr : registerAll [] (Registry.empty.setMemoizing o.keepMetadata) o.registrations with
  | error e => simp [hr, bind, Except.bind] at h
  | ok registry =>
    simp only [hr, bind, Except.bind, pure, Except.pure] at h
    rw [← Except.ok.inj h]

theorem memo_build {o : Options} {heap : Heap} {connection : σ}
    (h : build o heap connection = .ok m) : m.registry.memo = .empty := by
  refine memo_registerAll (registerAll_of_build h) ?_
  rw [Registry.setMemoizing]
  split <;> rfl

theorem Described.view_of_metadata (h : Described r m) (hr : r.Sound)
    (hmd : (metadata type).run m = (.ok md, t)) : r.view md.className = .ok md := by
  have hview := Manager.view_of_metadata hmd
  rw [h.agrees.view_eq hr] at hview
  rwa [Registry.className_of_view hr hview]

variable [Connection σ]

theorem Effect.every {op : Operation} {w : UnitOfWork} {P : Oid → Metadata → Prop}
    (h : Effect m op w) (hc : m.work.Consistent) (hm : m.work.Every fun oid md _ => P oid md)
    (hop : ∀ type id oid, op ≠ .find type id ∧ op ≠ .persist oid ∧ op ≠ .refresh oid) :
    w.Every fun oid md _ => P oid md := by
  cases h with
  | unchanged => exact hm
  | @found type id => exact absurd rfl (hop type id ⟨0⟩).1
  | @persisted oid => exact absurd rfl (hop ⟨"", 0⟩ (.scalar .null) oid).2.1
  | @refreshed oid => exact absurd rfl (hop ⟨"", 0⟩ (.scalar .null) oid).2.2
  | removed hw => exact hm.remove hw
  | lost | detached => exact hm.detach _
  | cleared => exact UnitOfWork.every_empty _
  | flushed _ hw => exact hm.apply hc (hw.wrote hc) fun x _ t ht => hm x.oid t ht

theorem Described.tracked_after (h : Described r m) (hr : r.Sound) (hc : m.work.Consistent)
    (op : Operation) : (op.after m).work.Each fun md _ => r.view md.className = .ok md := by
  cases op with
  | find type id =>
    rw [← Operation.state_ask]
    refine Action.post_iff_run
      (P := fun t : Manager σ => t.work.Each fun md _ => r.view md.className = .ok md) |>.mp ?_
    refine (post_find_found type id m).mono (fun _ t ht => ?_) fun _ t ht => ht.2.1 ▸ h.tracked
    cases ht with
    | tracked hmd =>
      rw [(post_metadata type m).of_run_ok hmd]
      exact h.tracked
    | absent hmd _ _ hread =>
      rw [((post_loadRow _ _ _).of_run_ok hread).1, (post_metadata type m).of_run_ok hmd]
      exact h.tracked
    | loaded hmd => exact h.tracked.track (h.view_of_metadata hr hmd) _
  | persist oid =>
    refine Action.post_iff_run
      (P := fun t : Manager σ => t.work.Each fun md _ => r.view md.className = .ok md) |>.mp ?_
    refine (post_persist oid m).mono (fun _ t ht => ?_) fun _ t ht => ht ▸ h.tracked
    obtain ⟨md, described, hmd, ht⟩ := ht
    rw [ht]
    exact h.tracked.persist (h.view_of_metadata hr hmd) oid
  | refresh oid =>
    refine Action.post_iff_run
      (P := fun t : Manager σ => t.work.Each fun md _ => r.view md.className = .ok md) |>.mp ?_
    refine (post_refresh_refreshed oid m).mono (fun _ t ht => ?_) fun _ t ht => ?_
    · obtain ⟨hmd⟩ := ht
      exact (h.tracked.detach oid).track (h.view_of_metadata hr hmd) _
    · exact ht.2.elim (fun hw => hw ▸ h.tracked) fun hw => hw ▸ h.tracked.detach oid
  | edit | remove | detach | clear | flush | describe | query | createQuery | clearMetadata
    | clearQueries =>
    refine (UnitOfWork.each_iff_every _).mpr ((effect _ m).1.every hc ?_ fun _ _ _ => by simp)
    exact (UnitOfWork.each_iff_every _).mp h.tracked

theorem kept_described (hr : r.Sound) (allowed : Operation → Manager σ → Prop) :
    Kept allowed fun m => m.work.Consistent ∧ Described r m where
  operation op m _ hm := ⟨(effect op m).1.consistent hm.1,
    Trans.trans (r := Registry.Agrees) hm.2.agrees (op.within_run m),
    hm.2.tracked_after hr hm.1 op⟩
  begin _ hm := ⟨hm.1, hm.2.agrees, hm.2.tracked⟩
  commit _ hm := ⟨hm.1, hm.2.agrees, hm.2.tracked⟩
  rollback _ hm := ⟨hm.1, hm.2.agrees, hm.2.tracked⟩
  restore _ _ hsaved hm := ⟨hsaved.1, hm.2.agrees, hsaved.2.tracked⟩

/-- In every state the registry is sound, and what is tracked goes by its answers. -/
theorem Reachable.described {allowed : Operation → Manager σ → Prop} (h : Reachable allowed m) :
    m.registry.Sound ∧ m.work.Each fun md _ => m.registry.view md.className = .ok md := by
  obtain ⟨r, hr, -, hd⟩ : ∃ r : Registry, r.Sound ∧ m.work.Consistent ∧ Described r m := by
    induction h with
    | @built o heap connection m hbuild =>
      refine ⟨m.registry, Registry.sound_of_memo_eq ?_, ?_, Std.Refl.refl _, ?_⟩
      · exact memo_build hbuild
      · rw [(build_start hbuild).1]
        exact UnitOfWork.consistent_empty
      · rw [(build_start hbuild).1]
        exact UnitOfWork.each_empty _
    | run _ hruns ih =>
      obtain ⟨r, hr, hm⟩ := ih
      exact ⟨r, hr, (kept_described hr _).runs hruns hm⟩
    | entered _ hinner ih =>
      obtain ⟨r, hr, hm⟩ := ih
      have hP := (kept_described hr allowed).begin _ hm
      rw [hinner] at hP
      exact ⟨r, hr, hP⟩
  refine ⟨hd.agrees.sound hr, ?_⟩
  rw [hd.agrees.view_eq hr]
  exact hd.tracked

end Manager
end Persistence
