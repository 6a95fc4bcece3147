import Persistence.Proofs.Keys
import Persistence.Proofs.Places

/-!
Rows that mirror values. A record mirrors a snapshot if the column of every field holds the value
of the field. Inserts and updates write such records, and the key of the values leads to them.
-/

namespace Persistence

open Schema (Metadata Snapshot Field)
open IdentityKey (snapshotValue)

/-- The columns of a class hold the values of its fields. -/
def Record.Mirrors (r : Record) (m : Metadata) (s : Snapshot) : Prop :=
  ∀ f ∈ m.fields, lookupEntry f.name s = some (r f.column)

variable {m : Metadata} {r : Record} {s current : Snapshot} {x : Instance} {key : IdentityKey}

namespace Record.Mirrors

theorem snapshotValue_eq (h : r.Mirrors m s) {f : Field} (hf : f ∈ m.fields) :
    snapshotValue s f.name = r f.column := by
  rw [snapshotValue, h f hf]
  rfl

theorem of_unchanged (h : r.Mirrors m s) (hs : changedFields s (m.snapshotOf x) = []) :
    r.Mirrors m (m.snapshotOf x) := by
  intro f hf
  rw [Metadata.lookupEntry_snapshotOf x hf]
  have hmem : (f.name, x.read f.accessor.slot) ∈ m.snapshotOf x := List.mem_map.mpr ⟨f, hf, rfl⟩
  have hsame := List.filter_eq_nil_iff.mp hs _ hmem
  simp only [h f hf, decide_eq_true_eq, Decidable.not_not] at hsame
  exact hsame.symm

end Record.Mirrors

theorem mirrors_snapshotOf_iff :
    r.Mirrors m (m.snapshotOf x) ↔ ∀ f ∈ m.fields, r f.column = x.read f.accessor.slot := by
  refine forall₂_congr fun f hf => ?_
  rw [Metadata.lookupEntry_snapshotOf x hf, Option.some.injEq, eq_comm]

theorem Instance.Fits.meets (hfit : x.Fits m) (hr : r.Mirrors m (m.snapshotOf x))
    (hkey : IdentityKey.ofSnapshot m (m.snapshotOf x) = .ok key) :
    r.Meets (key.conditions m) := by
  have hvalue (f : Field) (hf : f ∈ m.fields) :
      snapshotValue (m.snapshotOf x) f.name = x.read f.accessor.slot := by
    rw [snapshotValue, Metadata.lookupEntry_snapshotOf x hf]
    rfl
  rw [IdentityKey.conditions_of_ofSnapshot (fun f hf => by
    have hf := (Metadata.mem_identifierFields.mp hf).1
    rw [hvalue f hf]
    exact hfit.coerce_read hf) hkey]
  intro e he
  obtain ⟨f, hf, rfl⟩ := List.mem_map.mp he
  exact (hr.snapshotValue_eq (Metadata.mem_identifierFields.mp hf).1).symm

theorem assignments_changedFields (s : Snapshot) (x : Instance) :
    m.assignments (changedFields s (m.snapshotOf x)) =
      (m.fields.filter fun f => lookupEntry f.name s ≠ some (x.read f.accessor.slot)).map
        fun f => (f.column, x.read f.accessor.slot) := by
  rw [Schema.Metadata.assignments, changedFields, Metadata.snapshotOf, List.filter_map,
    List.filterMap_map, ← List.filterMap_eq_map]
  refine List.filterMap_congr fun f hf => ?_
  have hcolumn : m.column? f.name = some f.column := by
    rw [Metadata.column?, Metadata.field?_eq_some_iff.mpr ⟨(List.mem_filter.mp hf).1, rfl⟩]
    rfl
  simp [hcolumn]

theorem assignments_sublist (s : Snapshot) (x : Instance) :
    ((m.assignments (changedFields s (m.snapshotOf x))).map Prod.fst).Sublist m.columns := by
  rw [assignments_changedFields, List.map_map]
  exact List.filter_sublist.map Field.column

theorem assignments_ne_nil (h : changedFields s (m.snapshotOf x) ≠ []) :
    m.assignments (changedFields s (m.snapshotOf x)) ≠ [] := by
  rw [changedFields, Metadata.snapshotOf, List.filter_map, ne_eq, List.map_eq_nil_iff] at h
  rw [assignments_changedFields, ne_eq, List.map_eq_nil_iff]
  exact h

theorem mirrors_assign (hcolumns : m.columns.Nodup) (hr : r.Mirrors m s) :
    (r.assign (m.assignments (changedFields s (m.snapshotOf x)))).Mirrors m (m.snapshotOf x) := by
  rw [mirrors_snapshotOf_iff]
  intro f hf
  rw [assignments_changedFields, Record.assign, lookupEntry_map_filter _ _ hcolumns hf]
  split
  · rfl
  · rename_i hsame
    simp only [hr f hf, decide_eq_true_eq, Decidable.not_not] at hsame
    exact Option.some.inj hsame

theorem eq_of_meets_insertValues
    (hdefault : ∀ f ∈ m.fields, f.default.isSome → x.read f.accessor.slot ≠ .null)
    (hr : r.Meets (m.insertValues (m.snapshotOf x))) {f : Field} (hf : f ∈ m.fields)
    (hwritten : ¬ (m.generatesIdentity = true ∧ f.name ∈ m.identifiers)) :
    r f.column = x.read f.accessor.slot := by
  have hvalue : snapshotValue (m.snapshotOf x) f.name = x.read f.accessor.slot := by
    rw [snapshotValue, Metadata.lookupEntry_snapshotOf x hf]
    rfl
  have hmem : (f.column, x.read f.accessor.slot) ∈ m.insertValues (m.snapshotOf x) := by
    refine List.mem_map.mpr ⟨f, List.mem_filter.mpr ⟨hf, ?_⟩, ?_⟩
    · simpa [Metadata.isIdentifier, ← Bool.not_eq_true, imp_iff_not_or] using hwritten
    · rw [hvalue, Prod.mk.injEq]
      refine ⟨rfl, ?_⟩
      split
      · rename_i hnull
        cases hd : f.default with
        | none => exact hnull.symm
        | some v => exact absurd hnull (hdefault f hf (by simp [hd]))
      · rfl
  exact hr _ hmem

end Persistence
