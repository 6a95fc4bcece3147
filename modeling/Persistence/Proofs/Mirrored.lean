import Mathlib.Tactic.Choose
import Persistence.Proofs.Bookkeeping
import Persistence.Proofs.Mirroring

/-!
Units of work and the tables behind them. A unit of work is mirrored by tables if each of its
instances has the one row under its key, with the values of its snapshot. It is written back if
each managed instance has the one row under its key, with the values it holds now, and the rows of
removed instances are gone. Either way all the rows have places, told by keys alone.
-/

namespace Persistence

open Schema (Metadata Snapshot Field)

/-- The rows under a key. -/
def Schema.Metadata.rowsUnder (m : Metadata) (key : IdentityKey) (tables : Tables) :
    Multiset Record :=
  (tables m.fullTableName).filter fun r => r.Meets (key.conditions m)

namespace UnitOfWork

/-- An instance is managed or removed, and recorded under a key. -/
def Stored (w : UnitOfWork) (oid : Oid) (t : Tracked) (key : IdentityKey) : Prop :=
  w.tracked.get? oid = some t ∧ (t.state = .managed ∨ t.state = .removed) ∧ t.key = some key

/-- What a flush is given: classes with tables and columns of their own, instances that fit them,
new instances that leave nothing to a default, and one row under each key, which is as it was read
or written last. -/
structure Mirrored (w : UnitOfWork) (h : Heap) (tables : Tables) : Prop where
  tables_distinct : ∀ i j t u, w.tracked.get? i = some t → w.tracked.get? j = some u →
    t.metadata.fullTableName = u.metadata.fullTableName → t.metadata = u.metadata
  columns_nodup : ∀ oid t, w.tracked.get? oid = some t → t.metadata.columns.Nodup
  fits : ∀ oid t, w.tracked.get? oid = some t → (h.content oid).Fits t.metadata
  no_default : ∀ oid t, w.tracked.get? oid = some t → t.state = .new →
    ∀ f ∈ t.metadata.fields, f.default.isSome → (h.content oid).read f.accessor.slot ≠ .null
  keys_distinct : ∀ i j key, w.keyOf i = some key → w.keyOf j = some key → i = j
  rows : ∀ oid t key, w.Stored oid t key →
    ∃ r, t.metadata.rowsUnder key tables = {r} ∧ r.Mirrors t.metadata t.snapshot

/-- No new instance has another field in the slot of an identifier that the database generates. -/
def IdentifiersApart (w : UnitOfWork) : Prop :=
  ∀ oid t, w.tracked.get? oid = some t → t.state = .new → t.metadata.generatesIdentity = true →
    t.metadata.IdentifiersApart

open Classical in
/-- The rows of no instance. -/
noncomputable def unclaimed (w : UnitOfWork) (tables : Tables) : Tables := fun table =>
  (tables table).filter fun r => ∀ oid t key, w.Stored oid t key →
    t.metadata.fullTableName = table → ¬ r.Meets (key.conditions t.metadata)

/-- What a flush owes that leads from one unit of work and its tables to another. -/
structure WrittenBack (w w' : UnitOfWork) (h' : Heap) (tables tables' : Tables) : Prop where
  managed : ∀ oid t, w'.tracked.get? oid = some t → t.state = .managed →
    ∃ key values r, t.key = some key ∧ h'.values t.metadata oid = .ok values ∧
      t.metadata.rowsUnder key tables' = {r} ∧ r.Mirrors t.metadata values
  removed : ∀ oid t key, w.tracked.get? oid = some t → t.state = .removed → t.key = some key →
    t.metadata.rowsUnder key tables' = 0
  others : w'.unclaimed tables' = w.unclaimed tables

end UnitOfWork

structure Places.Of (places : Places) (w : UnitOfWork) : Prop where
  stored : ∀ oid t key, w.Stored oid t key →
    ∃ r, places oid = some ⟨t.metadata, r⟩ ∧ r.Meets (key.conditions t.metadata)
  only : ∀ oid p, places oid = some p → ∃ t key, w.Stored oid t key

theorem IdentityKey.map_fst_conditions (key : IdentityKey) (m : Metadata) :
    (key.conditions m).map Prod.fst = m.identifierFields.map Field.column := by
  rw [conditions, List.map_map]
  rfl

namespace Laid

variable {places : Places} {tables : Tables} {oid : Oid} {m : Metadata} {r : Record}
  {key : IdentityKey}

theorem rowsUnder_eq (h : Laid places tables) (hplace : places oid = some ⟨m, r⟩)
    (hr : r.Meets (key.conditions m)) : m.rowsUnder key tables = {r} := by
  rw [Metadata.rowsUnder, Multiset.filter_congr fun s _ => meets_iff (key.map_fst_conditions m) hr s]
  exact h.sole oid _ hplace

end Laid

namespace UnitOfWork

variable {w : UnitOfWork} {h : Heap} {tables : Tables} {places : Places}

theorem Stored.unique {oid : Oid} {t u : Tracked} {k l : IdentityKey} (ht : w.Stored oid t k)
    (hu : w.Stored oid u l) : t = u ∧ k = l := by
  obtain ⟨ht, -, hk⟩ := ht
  obtain ⟨hu, -, hl⟩ := hu
  rw [ht] at hu
  obtain rfl := Option.some.inj hu
  rw [hk] at hl
  exact ⟨rfl, Option.some.inj hl⟩

theorem unclaimed_eq (hp : places.Of w) (tables : Tables) :
    places.unclaimed tables = w.unclaimed tables := by
  classical
  funext table
  refine Multiset.filter_congr fun s _ => ⟨fun h oid t key hst htable hs => ?_, fun h oid p hpl => ?_⟩
  · obtain ⟨r, hplace, hr⟩ := hp.stored oid t key hst
    exact h oid _ hplace ⟨htable, (Laid.meets_iff (key.map_fst_conditions _) hr s).mp hs⟩
  · obtain ⟨t, key, hst⟩ := hp.only oid p hpl
    obtain ⟨r, hplace, hr⟩ := hp.stored oid t key hst
    rw [hpl] at hplace
    obtain rfl := Option.some.inj hplace
    exact fun hclaims => h oid t key hst hclaims.1
      ((Laid.meets_iff (key.map_fst_conditions _) hr s).mpr hclaims.2)

theorem Mirrored.exists_place (hm : w.Mirrored h tables) (oid : Oid) :
    ∃ place : Option Place, (∀ t key, w.Stored oid t key →
      ∃ r, place = some ⟨t.metadata, r⟩ ∧ t.metadata.rowsUnder key tables = {r} ∧
        r.Mirrors t.metadata t.snapshot) ∧ ∀ p, place = some p → ∃ t key, w.Stored oid t key := by
  by_cases hst : ∃ t key, w.Stored oid t key
  · obtain ⟨t, key, hst⟩ := hst
    obtain ⟨r, hr, hmirrors⟩ := hm.rows oid t key hst
    refine ⟨some ⟨t.metadata, r⟩, fun u l hu => ?_, fun p _ => ⟨t, key, hst⟩⟩
    obtain ⟨rfl, rfl⟩ := hst.unique hu
    exact ⟨r, rfl, hr, hmirrors⟩
  · exact ⟨none, fun t key h => absurd ⟨t, key, h⟩ hst, fun p hp => by simp at hp⟩

theorem Mirrored.eq_of_meets (hm : w.Mirrored h tables) (hk : w.Keyed) {i j : Oid} {t u : Tracked}
    {key l : IdentityKey} {s : Record} (hst : w.Stored i t key) (hsu : w.Stored j u l)
    (hmetadata : t.metadata = u.metadata) (hs : s.Meets (key.conditions u.metadata))
    (hs' : s.Meets (l.conditions u.metadata)) : i = j := by
  have hkey : key = l := by
    refine (hmetadata ▸ hk i t key hst.1 hst.2.2).eq_of_conditions_eq (hk j u l hsu.1 hsu.2.2) ?_
    rw [Laid.eq_of_meets (key.map_fst_conditions _) hs, Laid.eq_of_meets (l.map_fst_conditions _) hs']
  refine hm.keys_distinct i j key ?_ ?_
  · rw [keyOf_of_get? hst.1, hst.2.2]
  · rw [keyOf_of_get? hsu.1, hsu.2.2, hkey]

/-- The rows of a mirrored unit of work are the places of its instances. -/
theorem Mirrored.exists_places (hm : w.Mirrored h tables) (hk : w.Keyed) :
    ∃ places : Places, places.Of w ∧ Laid places tables ∧ ∀ oid t key r, w.Stored oid t key →
      places oid = some ⟨t.metadata, r⟩ → r.Mirrors t.metadata t.snapshot := by
  choose places hstored honly using hm.exists_place
  have hmeets (oid : Oid) (t : Tracked) (key : IdentityKey) (hst : w.Stored oid t key) :
      ∃ r, places oid = some ⟨t.metadata, r⟩ ∧ r.Meets (key.conditions t.metadata) := by
    obtain ⟨r, hplace, hrows, -⟩ := hstored oid t key hst
    have hmem : r ∈ t.metadata.rowsUnder key tables := by
      rw [hrows]
      exact Multiset.mem_singleton_self r
    exact ⟨r, hplace, (Multiset.mem_filter.mp hmem).2⟩
  refine ⟨places, ⟨hmeets, honly⟩, ⟨fun oid p hp => ?_, fun i j p q hij hp hq hclaims => ?_⟩, ?_⟩
  · obtain ⟨t, key, hst⟩ := honly oid p hp
    obtain ⟨r, hplace, hrows, -⟩ := hstored oid t key hst
    obtain ⟨r', hplace', hr⟩ := hmeets oid t key hst
    rw [hp] at hplace hplace'
    obtain rfl := Option.some.inj hplace
    obtain rfl : r = r' := (Place.mk.inj (Option.some.inj hplace')).2
    rw [Metadata.rowsUnder,
      Multiset.filter_congr fun s _ => Laid.meets_iff (key.map_fst_conditions _) hr s] at hrows
    exact hrows
  · -- the record of one instance under the key of another
    obtain ⟨t, key, hst⟩ := honly i p hp
    obtain ⟨u, l, hsu⟩ := honly j q hq
    obtain ⟨r, hplace, hr⟩ := hmeets i t key hst
    obtain ⟨s, hplace', hs⟩ := hmeets j u l hsu
    rw [hp] at hplace
    rw [hq] at hplace'
    obtain rfl := Option.some.inj hplace
    obtain rfl := Option.some.inj hplace'
    have hmetadata := hm.tables_distinct i j t u hst.1 hsu.1 hclaims.1
    have hs' := (Laid.meets_iff (key.map_fst_conditions _) hr s).mpr hclaims.2
    exact hij (hm.eq_of_meets hk hst hsu hmetadata (hmetadata ▸ hs') hs)
  · intro oid t key r hst hplace
    obtain ⟨r', hplace', -, hmirrors⟩ := hstored oid t key hst
    rw [hplace] at hplace'
    rwa [(Place.mk.inj (Option.some.inj hplace')).2]

end UnitOfWork
end Persistence
