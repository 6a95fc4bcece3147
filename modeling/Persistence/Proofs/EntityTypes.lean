import Persistence.Proofs.Carrying
import Persistence.Proofs.Settled

/-!
The types of instances, and errors that tell of a wrong one. An accessor works on instances of one
type. What a flush reads and writes leaves all instances of the type that they are, so it meets no
instance of another type, as long as all that is tracked is of the type of its accessors.
-/

namespace Persistence

open Persistence.Action (post_of_forall post_mapM)
open Schema (Metadata Snapshot Field FieldType)

theorem Schema.Metadata.type_setField {m : Metadata} {x y : Instance} {name : String} {v : Value}
    (h : m.setField x name v = .ok y) : y.type = x.type := by
  unfold setField at h
  split at h
  · simp at h
  · rename_i f _
    cases hv : f.type.coerce v with
    | error e => simp [hv, bind, Except.bind] at h
    | ok w =>
      simp only [hv, bind, Except.bind] at h
      exact Accessor.type_set h

namespace Heap

variable {h h' : Heap} {oid : Oid} {x : Instance} {type : EntityType}

def types (h : Heap) : List EntityType := h.objects.map fun o => o.content.type

theorem typeOf_eq (h : Heap) (oid : Oid) : h.typeOf oid = (h.types[oid.index]?).getD ⟨"", 0⟩ := by
  rw [typeOf, content, object, types, List.getD_eq_getElem?_getD, List.getElem?_map]
  cases h.objects[oid.index]? <;> rfl

theorem typeOf_of_types (ht : h.types[oid.index]? = some type) : h.typeOf oid = type := by
  rw [typeOf_eq, ht, Option.getD_some]

theorem typeOf_congr (ht : h'.types = h.types) (oid : Oid) : h'.typeOf oid = h.typeOf oid := by
  rw [typeOf_eq, typeOf_eq, ht]

theorem types_allocate (h : Heap) (x : Instance) : (h.allocate x).2.types = h.types ++ [x.type] := by
  simp [types, allocate]

theorem types_prefix_allocate (h : Heap) (x : Instance) : h.types <+: (h.allocate x).2.types := by
  rw [types_allocate]
  exact List.prefix_append _ _

theorem types_put (hx : x.type = h.typeOf oid) : (h.put oid x).types = h.types := by
  refine List.ext_getElem? fun i => ?_
  rw [types, put, types, List.getElem?_map, List.getElem?_map, List.getElem?_modify]
  cases ho : h.objects[i]? with
  | none => rfl
  | some o =>
    by_cases hi : oid.index = i
    · subst hi
      simp [hx, typeOf, content, object, List.getD_eq_getElem?_getD, ho]
    · simp [hi]

theorem types_identify {m : Metadata} {id : String} (hid : h.identify m oid id = .ok h') :
    h'.types = h.types := by
  obtain ⟨y, hy, rfl⟩ := of_identify hid
  exact types_put (Metadata.type_setField hy)

end Heap

/-- The error goes back to an accessor that met an instance of another type. -/
def Error.IsForeign (e : Error) : Prop := e.root = .mapping .foreignInstance

namespace Error

instance (e : Error) : Decidable e.IsForeign := inferInstanceAs (Decidable (_ = _))

@[simp] theorem isForeign_context (e : Error) (p : Problem) :
    (e.context p).IsForeign ↔ e.IsForeign := by
  rw [IsForeign, root_context, IsForeign]

@[simp] theorem isForeign_mk (p : Problem) : IsForeign ⟨p, []⟩ ↔ p = .mapping .foreignInstance :=
  Iff.rfl

@[simp] theorem isForeign_mapping (f : MappingFault) :
    (mapping f).IsForeign ↔ f = .foreignInstance := by
  simp [mapping]

@[simp] theorem not_isForeign_validation (f : ValidationFault) : ¬ (validation f).IsForeign := by
  simp [validation]

@[simp] theorem not_isForeign_state (f : StateFault) : ¬ (state f).IsForeign := by simp [state]

@[simp] theorem not_isForeign_transaction (f : TransactionFault) : ¬ (transaction f).IsForeign := by
  simp [transaction]

@[simp] theorem not_isForeign_conversion (v : Value) (target : String) :
    ¬ (conversion v target).IsForeign := by simp [conversion]

@[simp] theorem not_isForeign_number (f : NumberFault) : ¬ (number f).IsForeign := by simp [number]

end Error

def Native {α : Type} (a : Except Error α) : Prop := ∀ e, a = .error e → ¬ e.IsForeign

namespace Native

variable {α β : Type} {a : Except Error α} {f : α → Except Error β} {e : Error}

@[simp] theorem ok (x : α) : Native (.ok x) := fun _ h => by cases h

@[simp] theorem error_iff : Native (.error e : Except Error α) ↔ ¬ e.IsForeign :=
  ⟨fun h => h e rfl, fun h _ he => Except.error.inj he ▸ h⟩

theorem bind (ha : Native a) (hf : ∀ x, a = .ok x → Native (f x)) : Native (a >>= f) := by
  cases a with
  | error e => exact error_iff.mpr (ha e rfl)
  | ok x => exact hf x rfl

end Native

theorem Storage.native_convert (s : Storage) (v : Value) : Native (s.convert v) := by
  unfold convert Base.convert
  split
  · exact .ok _
  · split
    case h_2 => split <;> simp
    all_goals simp

theorem Schema.FieldType.native_coerce (type : FieldType) (v : Value) : Native (type.coerce v) := by
  unfold coerce
  split
  · exact .ok _
  · cases type <;> dsimp only
    all_goals
      first
        | unfold coerceInteger
        | unfold coerceDouble
        | unfold coerceBoolean
        | unfold coerceBlob
        | unfold coerceText
      split <;> (try split) <;> simp

theorem Instance.native_write (x : Instance) (i : Nat) (v : Value) : Native (x.write i v) := by
  unfold write
  split
  · rename_i s _
    unfold Slot.write
    split
    · exact .ok _
    · rename_i e he
      exact Native.error_iff.mpr (s.storage.native_convert v e he)
  · exact .ok _

namespace IdentityKey

theorem native_coerceField (m : Metadata) (name : String) (v : Value) :
    Native (coerceField m name v) := by
  unfold coerceField
  split
  · simp
  · split
    · simp
    · rename_i f _
      split
      · exact .ok _
      · rename_i e he
        simpa using f.type.native_coerce v e he

theorem native_ofSnapshot (m : Metadata) (s : Snapshot) : Native (ofSnapshot m s) := by
  have hcollect (names : List String) :
      Native (collect m (fun name => .ok (snapshotValue s name)) names) := by
    induction names with
    | nil => exact .ok _
    | cons name rest ih =>
      exact (native_coerceField m name _).bind fun _ _ => ih.bind fun _ _ => .ok _
  refine Native.bind ?_ fun _ _ => (hcollect m.identifiers).bind fun _ _ => .ok _
  unfold Metadata.requireIdentifiers
  split <;> simp

end IdentityKey

theorem Tracked.native_rowKey (t : Tracked) : Native t.rowKey := by
  unfold rowKey
  split
  · exact .ok _
  · exact IdentityKey.native_ofSnapshot _ _

/-- The accessors of a class are for instances of a type. -/
def Schema.Metadata.For (m : Metadata) (type : EntityType) : Prop :=
  ∀ f ∈ m.fields, f.accessor.owner = type

theorem Schema.native_readFields {x : Instance} {fs : List Field}
    (h : ∀ f ∈ fs, f.accessor.owner = x.type) : Native (readFields x fs) := by
  induction fs with
  | nil => exact .ok _
  | cons f rest ih =>
    obtain ⟨hf, hrest⟩ := List.forall_mem_cons.mp h
    have hget : f.accessor.get x = .ok (x.read f.accessor.slot) := by
      rw [Accessor.get, if_pos hf.symm]
    rw [readFields, hget]
    exact (Native.ok _).bind fun _ _ => (ih hrest).bind fun _ _ => .ok _

namespace Heap

variable {h : Heap} {m : Metadata} {oid : Oid}

theorem native_values (hm : m.For (h.typeOf oid)) : Native (h.values m oid) := by
  refine Native.bind ?_ fun x hx => Schema.native_readFields ?_
  · unfold toRead
    split <;> simp
  · unfold toRead at hx
    split at hx
    · simp at hx
    · rw [← Except.ok.inj hx]
      exact hm

theorem for_of_values {s : Snapshot} (hs : h.values m oid = .ok s) : m.For (h.typeOf oid) := by
  unfold values toRead at hs
  split at hs
  · simp [bind, Except.bind] at hs
  · exact owner_of_readFields hs

theorem native_identify (hm : m.For (h.typeOf oid)) (id : String) : Native (h.identify m oid id) := by
  refine Native.bind ?_ fun x hx => Native.bind ?_ fun _ _ => .ok _
  · unfold toChange
    split <;> simp
  · rw [eq_of_toChange hx, Metadata.setField]
    split
    · simp
    · rename_i f hf
      refine (f.type.native_coerce _).bind fun v _ => ?_
      have howner : (h.content oid).type = f.accessor.owner :=
        (hm f (Metadata.field?_eq_some_iff.mp hf).1).symm
      rw [Accessor.set, if_pos howner]
      exact Instance.native_write (h.content oid) _ v

end Heap

/-- A call that a flush makes fails on the connection with an error. -/
inductive Connection.Fails (σ : Type) [Connection σ] (e : Error) : Prop
  | begin {c c' : σ} : Connection.begin.run c = (.error e, c') → Fails σ e
  | update {sql : String} {parameters : List Value} {c c' : σ} :
      (Connection.update sql parameters).run c = (.error e, c') → Fails σ e
  | lastInsertId {c c' : σ} : Connection.lastInsertId.run c = (.error e, c') → Fails σ e
  | commit {c c' : σ} : Connection.commit.run c = (.error e, c') → Fails σ e

def Blameless (σ : Type) [Connection σ] (e : Error) : Prop :=
  e.IsForeign → ∃ cause, Connection.Fails σ cause ∧ cause.IsForeign

section Flush

variable {σ : Type} [Connection σ]

theorem Connection.Fails.blameless {e : Error} (h : Fails σ e) : Blameless σ e :=
  fun he => ⟨e, h, he⟩

theorem Blameless.context {e : Error} (h : Blameless σ e) (p : Problem) :
    Blameless σ (e.context p) := fun he => h ((e.isForeign_context p).mp he)

theorem Native.blameless {α : Type} {a : Except Error α} {e : Error} (ha : Native a)
    (he : a = .error e) : Blameless σ e := fun hforeign => absurd hforeign (ha e he)

namespace Session

theorem post_begin_blameless (s : Session σ) :
    begin.Post (fun _ _ => True) (fun e _ => Blameless σ e) s := by
  rw [post_begin]
  refine ⟨fun _ => Action.post_iff.mpr ⟨fun _ _ _ => trivial, fun e c hc => ?_⟩, fun _ => trivial⟩
  exact (Connection.Fails.begin hc).blameless.context _

theorem post_commit_blameless (s : Session σ) :
    commit.Post (fun _ _ => True) (fun e _ => Blameless σ e) s := by
  have native (f : TransactionFault) : Blameless σ (.transaction f) :=
    fun h => absurd h (Error.not_isForeign_transaction f)
  simp only [commit, rollbackQuietly, onConnection, Action.post_bind, Action.post_get]
  split
  · exact native _
  · simp only [Action.post_bind, Action.post_set, Action.post_ite, Action.post_discard,
      Action.post_attempt, Action.post_onPart, Action.post_throw, Action.post_pure]
    refine ⟨fun _ => post_of_forall _ (fun _ _ => native _) fun _ _ => native _, fun _ => ?_⟩
    refine Action.post_iff.mpr ⟨fun _ _ _ => trivial, fun e c hc => ?_⟩
    have hblameless := (Connection.Fails.commit hc).blameless.context (.transaction .commitFailed)
    exact post_of_forall _ (fun _ _ => hblameless) fun _ _ => hblameless
  · exact trivial

theorem post_execute_blameless (x : Sql.Statement) (s : Session σ) :
    (execute x).Post (fun _ _ => True) (fun e _ => Blameless σ e) s := by
  rw [execute, post_update]
  exact Action.post_iff.mpr ⟨fun _ _ _ => trivial, fun e c hc => (Connection.Fails.update hc).blameless⟩

theorem post_lastInsertId_blameless (s : Session σ) :
    lastInsertId.Post (fun _ _ => True) (fun e _ => Blameless σ e) s := by
  rw [lastInsertId, onConnection, Action.post_onPart]
  exact Action.post_iff.mpr
    ⟨fun _ _ _ => trivial, fun e c hc => (Connection.Fails.lastInsertId hc).blameless⟩

end Session

namespace UnitOfWork

variable {w : UnitOfWork} {h h' : Heap}

def Fits (w : UnitOfWork) (h : Heap) : Prop := w.Every fun oid md _ => md.For (h.typeOf oid)

theorem Fits.congr (hw : w.Fits h) (ht : h'.types = h.types) : w.Fits h' := by
  intro oid t htracked
  have hm : t.metadata.For (h.typeOf oid) := hw oid t htracked
  rwa [← Heap.typeOf_congr ht] at hm

theorem native_pendingUpdates {es : List (Oid × Tracked)}
    (hes : ∀ e ∈ es, e.2.metadata.For (h.typeOf e.1)) : Native (pendingUpdates h es) := by
  induction es with
  | nil => exact .ok _
  | cons e rest ih =>
    obtain ⟨oid, t⟩ := e
    obtain ⟨he, hrest⟩ := List.forall_mem_cons.mp hes
    rw [pendingUpdates]
    split
    · rw [← bind_assoc]
      exact (Heap.native_values he).bind fun _ _ => (ih hrest).bind fun _ _ => .ok _
    · exact ih hrest

theorem Fits.native_changeSet (hw : w.Fits h) : Native (w.changeSet h) := by
  refine Native.bind (native_pendingUpdates fun e he => ?_) fun _ _ => .ok _
  exact hw e.1 e.2 ((w.tracked.get?_eq_some_iff e.1 e.2).mpr he)

theorem native_require (oid : Oid) : Native (w.require oid) := by
  unfold require
  split <;> simp

theorem Fits.native_statement (hw : w.Fits h) (r : RowChange) : Native (w.statement h r) := by
  cases r with
  | insert oid =>
    refine (native_require oid).bind fun t ht => ?_
    exact (Heap.native_values (hw oid t (require_eq_ok.mp ht))).bind fun _ _ => .ok _
  | update u =>
    exact (native_require u.oid).bind fun t _ => t.native_rowKey.bind fun _ _ => .ok _
  | delete oid => exact (native_require oid).bind fun t _ => t.native_rowKey.bind fun _ _ => .ok _

theorem native_settle {m : Metadata} {oid : Oid} (hm : m.For (h.typeOf oid)) :
    Native (w.settle m oid h) := by
  refine (Heap.native_values hm).bind fun s _ => ?_
  refine (IdentityKey.native_ofSnapshot m s).bind fun key _ => ?_
  split
  · split
    · exact .ok _
    · simp
  · exact .ok _

def KeepsTypes {α : Type} (w : UnitOfWork) (a : Action (Environment σ) α) (env : Environment σ) :
    Prop :=
  a.Post (fun _ t => t.heap.types = env.heap.types)
    (fun e t => t.heap.types = env.heap.types ∧ (w.Fits env.heap → Blameless σ e)) env

section KeepsTypes

variable {α β : Type} {env : Environment σ}

theorem KeepsTypes.since {a : Action (Environment σ) α} {t : Environment σ} (ha : w.KeepsTypes a t)
    (ht : t.heap.types = env.heap.types) :
    a.Post (fun _ u => u.heap.types = env.heap.types)
      (fun e u => u.heap.types = env.heap.types ∧ (w.Fits env.heap → Blameless σ e)) t :=
  Action.Post.mono ha (fun _ _ hu => hu.trans ht) fun _ _ hu =>
    ⟨hu.1.trans ht, fun hw => hu.2 (hw.congr ht)⟩

theorem KeepsTypes.bind {a : Action (Environment σ) α} {f : α → Action (Environment σ) β}
    (ha : w.KeepsTypes a env)
    (hf : ∀ x t, t.heap.types = env.heap.types → w.KeepsTypes (f x) t) :
    w.KeepsTypes (a >>= f) env := by
  rw [KeepsTypes, Action.post_bind]
  exact Action.Post.mono ha (fun x t ht => (hf x t ht).since ht) fun _ _ => id

theorem KeepsTypes.discard {a : Action (Environment σ) α} (ha : w.KeepsTypes a env) :
    w.KeepsTypes (discard a) env := (Action.post_discard a).mpr ha

theorem keepsTypes_pure (x : α) : w.KeepsTypes (pure x) env := rfl

theorem keepsTypes_liftExcept {x : Except Error α} {f : α → Action (Environment σ) β}
    (hx : w.Fits env.heap → Native x) (hf : ∀ y, x = .ok y → w.KeepsTypes (f y) env) :
    w.KeepsTypes (liftM x >>= f) env := by
  cases x with
  | error e => exact ⟨rfl, fun hw => (hx hw).blameless rfl⟩
  | ok y => exact hf y rfl

theorem keepsTypes_onSession {a : SessionM σ α}
    (ha : ∀ s, a.Post (fun _ _ => True) (fun e _ => Blameless σ e) s) :
    w.KeepsTypes (Environment.onSession a) env :=
  (Environment.post_onSession (ha env.session)).mono (fun _ _ ht => by rw [ht.1])
    fun _ _ ht => ⟨by rw [ht.1], fun _ => ht.2⟩

theorem keepsTypes_receive {oid : Oid} {t : Tracked} (ht : w.tracked.get? oid = some t) :
    w.KeepsTypes (receive t.metadata oid) env := by
  unfold receive
  split
  · refine (keepsTypes_onSession Session.post_lastInsertId_blameless).bind fun id told _ => ?_
    simp only [KeepsTypes, Environment.writeIdentifier_eq, Action.post_bind, Action.post_get,
      Action.post_liftExcept, Action.post_modify]
    refine ⟨fun _ hid => Heap.types_identify hid, fun e he => ⟨trivial, fun hw => ?_⟩⟩
    exact (Heap.native_identify (hw oid t ht) id).blameless he
  · exact keepsTypes_pure _

theorem keepsTypes_send (r : RowChange) (env : Environment σ) : w.KeepsTypes (w.send r) env := by
  change w.KeepsTypes (liftM (w.statement env.heap r) >>= fun s =>
    discard (Environment.onSession (Session.execute s)) >>= fun _ => w.conclude r) env
  refine keepsTypes_liftExcept (fun hw => hw.native_statement r) fun s _ => ?_
  have hsent : w.KeepsTypes (Environment.onSession (Session.execute s)) env :=
    keepsTypes_onSession (Session.post_execute_blameless s)
  refine hsent.discard.bind fun _ taken _ => ?_
  cases r with
  | insert oid =>
    refine keepsTypes_liftExcept (fun _ => native_require oid) fun t ht => ?_
    have htracked := require_eq_ok.mp ht
    refine (keepsTypes_receive htracked).bind fun _ received _ => ?_
    change w.KeepsTypes (liftM (w.settle t.metadata oid received.heap) >>= fun x => _) received
    exact keepsTypes_liftExcept (fun hw => native_settle (hw oid t htracked)) fun _ _ =>
      keepsTypes_pure _
  | update u =>
    refine keepsTypes_liftExcept (fun _ => native_require u.oid) fun t _ => ?_
    exact keepsTypes_liftExcept (fun _ => IdentityKey.native_ofSnapshot _ _) fun _ _ =>
      keepsTypes_pure _
  | delete oid => exact keepsTypes_pure _

theorem keepsTypes_write (c : ChangeSet) (env : Environment σ) :
    w.KeepsTypes (w.write c) env := by
  rw [write_eq, KeepsTypes, Action.post_map]
  refine post_mapM (J := fun _ _ (t : Environment σ) => t.heap.types = env.heap.types) rfl ?_
  exact fun _ r _ _ t _ ht => (keepsTypes_send r t).since ht

theorem keepsTypes_commit (env : Environment σ) : w.KeepsTypes w.commit env := by
  change w.KeepsTypes (liftM (w.changeSet env.heap) >>= fun c => _) env
  refine keepsTypes_liftExcept (fun hw => hw.native_changeSet) fun c _ => ?_
  split
  · exact keepsTypes_pure _
  refine (keepsTypes_onSession Session.post_begin_blameless).bind fun _ begun _ => ?_
  rw [KeepsTypes, Action.post_bind, Action.post_attempt]
  refine (keepsTypes_write c begun).mono (fun written done hdone => ?_) fun e failed hfailed => ?_
  · exact ((keepsTypes_onSession Session.post_commit_blameless).bind fun _ _ _ =>
      keepsTypes_pure _).since hdone
  · simp only [Action.post_bind, Action.post_discard, Action.post_attempt, Action.post_throw]
    have hback := Environment.post_onSession_heap Session.rollback failed
    -- the same holds whether the rollback itself succeeds or fails
    refine hback.mono (fun _ t ht => ?_) fun _ t ht => ?_
    all_goals
      rw [ht]
      exact ⟨hfailed.1, fun hw => (hfailed.2 hw).context _⟩

end KeepsTypes
end UnitOfWork

namespace Manager

/-- A flush leaves all instances of the types that they are. If all that is tracked is of the type
that its accessors are for, then the error that it fails with tells of no wrong type. -/
theorem post_flush_types (m : Manager σ) :
    flush.Post (fun _ t => t.heap.types = m.heap.types)
      (fun e t => t.heap.types = m.heap.types ∧ (m.work.Fits m.heap → Blameless σ e)) m := by
  rw [post_flush_iff]
  refine (UnitOfWork.keepsTypes_commit m.toEnvironment).mono (fun _ _ => id) fun e t ht => ?_
  exact ⟨ht.1, fun hw => (ht.2 hw).context _⟩

end Manager
end Flush
end Persistence
