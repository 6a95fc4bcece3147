import Persistence.Proofs.RoundTrip
import Persistence.Schema.Join

/-!
How associations are joined: by one equality of columns, or through a join table under an alias made
of the aliases of both sides.
-/

namespace Persistence.Schema

namespace Association

variable {a : Association} {source sourceAlias targetAlias : String} {target : Metadata}
  {j : AssociationJoin}

def StoredBy (a : Association) (target : Metadata) (b : Association) : Prop :=
  b = a ∨ b ∈ target.associations

def Equates (e : ColumnEquality) (c : JoinColumn) (sourceAlias targetAlias : String) : Prop :=
  e = ⟨⟨sourceAlias, c.name⟩, ⟨targetAlias, c.referenced⟩⟩ ∨
    e = ⟨⟨targetAlias, c.name⟩, ⟨sourceAlias, c.referenced⟩⟩

inductive JoinsBy (a : Association) (target : Metadata) (sourceAlias targetAlias : String) :
    AssociationJoin → Prop
  | direct {b : Association} {c : JoinColumn} {e : ColumnEquality} : a.kind ≠ .manyToMany →
      a.StoredBy target b → b.joinColumn = some c → Equates e c sourceAlias targetAlias →
      JoinsBy a target sourceAlias targetAlias (directJoin target targetAlias e)
  | through {b : Association} {t : JoinTable} {toSource toTarget : List JoinColumn} :
      a.kind = .manyToMany → a.StoredBy target b → b.joinTable = some t →
      (∀ c ∈ toSource ++ toTarget, c ∈ t.joinColumns ++ t.inverseColumns) →
      JoinsBy a target sourceAlias targetAlias ⟨target.className,
        [⟨t.fullName, linkAlias sourceAlias targetAlias,
          toSource.map fun c => ⟨⟨linkAlias sourceAlias targetAlias, c.name⟩, ⟨sourceAlias, c.referenced⟩⟩⟩],
        ⟨target.fullTableName, targetAlias,
          toTarget.map fun c => ⟨⟨targetAlias, c.referenced⟩, ⟨linkAlias sourceAlias targetAlias, c.name⟩⟩⟩⟩

theorem storedBy_inverse {mappedBy : String} {b : Association}
    (h : a.inverse source target mappedBy = .ok b) : a.StoredBy target b := by
  unfold inverse at h
  split at h
  · rename_i b' hb
    obtain rfl := Except.ok.inj h
    exact .inr (List.mem_of_find?_eq_some hb)
  · simp at h

theorem storedBy_linkColumns {t : JoinTable} {toSource toTarget : List JoinColumn}
    (h : a.linkColumns source target = .ok (t, toSource, toTarget)) : ∃ b, a.StoredBy target b ∧
      b.joinTable = some t ∧ ∀ c ∈ toSource ++ toTarget, c ∈ t.joinColumns ++ t.inverseColumns := by
  unfold linkColumns at h
  split at h
  · split at h
    · rename_i t' ht
      simp only [Except.ok.injEq, Prod.mk.injEq] at h
      obtain ⟨rfl, rfl, rfl⟩ := h
      exact ⟨a, .inl rfl, ht, fun _ hc => hc⟩
    · simp at h
  · obtain ⟨b, hb, h⟩ := ObjectQuery.bind_eq_ok h
    split at h
    · rename_i t' ht
      simp only [Except.ok.injEq, Prod.mk.injEq] at h
      obtain ⟨rfl, rfl, rfl⟩ := h
      refine ⟨b, storedBy_inverse hb, ht, fun c hc => ?_⟩
      rwa [List.mem_append, or_comm, ← List.mem_append]
    · simp at h

theorem joinsBy_of_inverse {mappedBy : String} (hkind : a.kind ≠ .manyToMany)
    (h : (do
      let b ← a.inverse source target mappedBy
      match b.joinColumn with
      | some c =>
        .ok (directJoin target targetAlias ⟨⟨targetAlias, c.name⟩, ⟨sourceAlias, c.referenced⟩⟩)
      | none => .error (.mapping (.inverseWithoutColumn source a.name target.className mappedBy))) = .ok j) :
    a.JoinsBy target sourceAlias targetAlias j := by
  obtain ⟨b, hb, h⟩ := ObjectQuery.bind_eq_ok h
  split at h
  · rename_i c hc
    obtain rfl := Except.ok.inj h
    exact .direct hkind (storedBy_inverse hb) hc (.inr rfl)
  · simp at h

theorem joinsBy_of_join (h : a.join source target sourceAlias targetAlias = .ok j) :
    a.JoinsBy target sourceAlias targetAlias j := by
  unfold join at h
  split at h
  · rename_i c hkind hc
    obtain rfl := Except.ok.inj h
    exact .direct (by simp [hkind]) (.inl rfl) hc (.inl rfl)
  · rename_i c hkind hc
    obtain rfl := Except.ok.inj h
    exact .direct (by simp [hkind]) (.inl rfl) hc (.inl rfl)
  · rename_i hkind _ _
    exact joinsBy_of_inverse (by simp [hkind]) h
  · rename_i hkind _ _
    exact joinsBy_of_inverse (by simp [hkind]) h
  · rename_i hkind
    obtain ⟨⟨t, toSource, toTarget⟩, ht, h⟩ := ObjectQuery.bind_eq_ok h
    obtain rfl := Except.ok.inj h
    obtain ⟨b, hb, hbt, hcolumns⟩ := storedBy_linkColumns ht
    exact .through hkind hb hbt hcolumns
  · simp at h

end Association
end Persistence.Schema
