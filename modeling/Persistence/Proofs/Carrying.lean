import Persistence.Proofs.Requests

/-!
Rows that carry the keys they are selected by. An instance that such a row has been loaded onto has
the identifier it was asked for, provided that its identifier fields are stored as they are typed.
-/

namespace Persistence

open Persistence.Action (Within)
open Schema (Metadata Snapshot Field)

/-- A row has values for the identifier columns that are coerced to those of the key. -/
def Row.Carries (row : Row) (m : Metadata) (key : IdentityKey) : Prop :=
  ∀ f ∈ m.identifierFields, ∃ u v, row.get? f.column = some u ∧ f.type.coerce u = .ok v ∧
    key.get? f.name = some v

def IdentityKey.select (key : IdentityKey) (m : Metadata) : Sql.Statement :=
  .select { table := m.fullTableName, projection := .columns m.columns, filter := key.conditions m }

/-- In whatever state, the connection answers a select by the key with rows that carry it. -/
def RowsCarry (σ : Type) [Connection σ] (m : Metadata) (key : IdentityKey) : Prop := ∀ c : σ,
  (Connection.query (key.select m).sql (key.select m).parameters : Action σ (List Row)).Post
    (fun rows _ => ∀ row ∈ rows, row.Carries m key) (fun _ _ => True) c

/-- In new instances the slot of each identifier field of the class is one for values of its type. -/
def Heap.StoresIdentifiers (h : Heap) (m : Metadata) : Prop :=
  ∀ f ∈ m.identifierFields, (h.fresh f.accessor.owner).Suits f

def SameType (x y : Instance) : Prop := y.type = x.type

instance : Std.Refl SameType := ⟨fun _ => rfl⟩

instance : Trans SameType SameType SameType := ⟨fun h h' => Eq.trans h' h⟩

theorem Instance.type_write {x y : Instance} {i : Nat} {v : Value} (h : x.write i v = .ok y) :
    y.type = x.type := by
  unfold write at h
  split at h
  · rename_i s _
    cases hs : s.write v with
    | error e => simp [hs, Except.map] at h
    | ok t =>
      simp only [hs, Except.map, Except.ok.injEq] at h
      rw [← h]
  · rw [← Except.ok.inj h]

theorem Accessor.type_set {a : Accessor} {x y : Instance} {v : Value} (h : a.set x v = .ok y) :
    y.type = x.type := by
  rw [set] at h
  split at h
  · exact Instance.type_write h
  · simp at h

theorem within_hydrate (m : Metadata) (row : Row) : (m.hydrate row).Within SameType := by
  refine Within.forM (fun f => Within.iff_post.mpr fun x => ?_) m.fields
  unfold Field.hydrate
  split
  · exact rfl
  · split
    · exact rfl
    · rename_i v _ _
      rw [Action.post_bind, Action.post_get]
      cases hy : f.type.coerce v >>= fun v => f.accessor.set x v with
      | error e => exact rfl
      | ok y =>
        change y.type = x.type
        cases hv : f.type.coerce v with
        | error e => simp [hv, bind, Except.bind] at hy
        | ok w =>
          simp only [hv, bind, Except.bind] at hy
          exact Accessor.type_set hy

theorem within_copyFields (source : Instance) (fs : List Field) :
    (Manager.copyFields source fs).Within SameType := by
  refine Within.forM (fun f => Within.iff_post.mpr fun x => ?_) fs
  simp only [Action.post_bind, Action.post_liftExcept, Action.post_get, Action.post_set]
  exact ⟨fun v _ => ⟨fun y hy => Accessor.type_set hy, fun _ _ => rfl⟩, fun _ _ => rfl⟩

theorem type_of_hydrate {m : Metadata} {row : Row} {x y : Instance} {e : Except Error Unit}
    (h : (m.hydrate row).run x = (e, y)) : y.type = x.type := by
  have hwithin := within_hydrate m row x
  rwa [h] at hwithin

theorem type_of_copyFields {source x y : Instance} {fs : List Field} {e : Except Error Unit}
    (h : (Manager.copyFields source fs).run x = (e, y)) : y.type = x.type := by
  have hwithin := within_copyFields source fs x
  rwa [h] at hwithin

theorem owner_of_readFields {x : Instance} {fs : List Field} {s : Snapshot}
    (h : Schema.readFields x fs = .ok s) : ∀ f ∈ fs, f.accessor.owner = x.type := by
  induction fs generalizing s with
  | nil => simp
  | cons f rest ih =>
    rw [Schema.readFields, Accessor.get] at h
    split at h
    · rename_i htype
      cases hrest : Schema.readFields x rest with
      | error e => simp [hrest, bind, Except.bind] at h
      | ok values => exact List.forall_mem_cons.mpr ⟨htype.symm, ih hrest⟩
    · simp [bind, Except.bind] at h

/-- What a row has given to an instance makes no key but the one that the row carries. -/
theorem key_of_hydrate {m : Metadata} {key k : IdentityKey} {row : Row} {x : Instance} {h : Heap}
    {type : EntityType} {s : Snapshot} (hkey : key.Belongs m) (hfull : key.Full)
    (hrow : row.Carries m key) (hstores : h.StoresIdentifiers m) (happart : m.IdentifiersApart)
    (hx : (m.hydrate row).run (h.fresh type) = (.ok ⟨⟩, x)) (hs : m.extract x = .ok s)
    (hk : IdentityKey.ofSnapshot m (m.snapshotOf x) = .ok k) : k = key := by
  refine hkey.eq_of_ofSnapshot (fun f hf => ?_) hk
  obtain ⟨hmem, hname⟩ := Metadata.mem_identifierFields.mp hf
  obtain ⟨u, v, hu, hv, hget⟩ := hrow f hf
  have hsuits := hstores f hf
  have hne : v ≠ .null := by
    obtain ⟨v', hv', hget'⟩ := (hfull.exists_value hkey).2 f.name hname
    rw [hget] at hget'
    rwa [Option.some.inj hget']
  have hu' : u ≠ .null := by
    rintro rfl
    exact hne (Except.ok.inj hv).symm
  have howner : f.accessor.owner = type := by
    rw [owner_of_readFields hs f hmem, type_of_hydrate hx]
    rfl
  have hread : x.read f.accessor.slot = v := by
    have hsupplied : f.supplied row = some v := by
      simp [Field.supplied, hu, hu', hv, Except.toOption]
    rw [howner] at hsuits
    rw [read_of_hydrate hx hmem (happart f hf), Field.given, Field.after, hsupplied]
    exact hsuits.hold_eq hv
  rw [IdentityKey.snapshotValue, Metadata.lookupEntry_snapshotOf x hmem, hread, hget]
  exact ⟨Schema.FieldType.coerce_of_kind (Schema.FieldType.kind_eq_of_coerce hv hu'), rfl⟩

theorem Heap.index_lt_of_ofSnapshot {h : Heap} {oid : Oid} {m : Metadata} {key : IdentityKey}
    (hk : IdentityKey.ofSnapshot m (m.snapshotOf (h.content oid)) = .ok key) :
    oid.index < h.objects.length := by
  refine Nat.lt_of_not_le fun hle => ?_
  have hread (i : Nat) : (h.content oid).read i = .null := by
    simp [Instance.read, content, object, List.getD_eq_getElem?_getD, List.getElem?_eq_none hle,
      default]
  obtain ⟨hr, es, hc, -⟩ := IdentityKey.ofSnapshot_eq_ok hk
  have hne : m.identifiers ≠ [] := fun hnil => by simp [Metadata.requireIdentifiers, hnil] at hr
  obtain ⟨name, hname⟩ := List.exists_mem_of_ne_nil _ hne
  obtain ⟨f, hf, rfl⟩ := Metadata.exists_identifierField hname
  have hv := (IdentityKey.collect_eq hc).1 f.name hname
  simp [IdentityKey.snapshotValue, Metadata.lookupEntry_snapshotOf _ (Metadata.mem_identifierFields.mp hf).1,
    hread, IdentityKey.coerceField, Value.isBlank, bind, Except.bind] at hv

end Persistence
