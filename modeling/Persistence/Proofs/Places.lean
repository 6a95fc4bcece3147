import Persistence.Proofs.Store

/-!
Where the rows of instances are. Each instance has one record to itself, told by its identifier
alone. Replacing the record of one instance, adding one or taking one away leaves the places of all
other instances as they are, and the records that belong to no instance.
-/

namespace Persistence

open Schema (Metadata)

namespace Schema.Metadata

variable {m : Metadata} {r s t : Record} {rows : Multiset Record}

theorem sameIdentity_refl (m : Metadata) (r : Record) : m.SameIdentity r r := fun _ _ => rfl

theorem SameIdentity.symm (h : m.SameIdentity r s) : m.SameIdentity s r :=
  fun f hf => (h f hf).symm

theorem sole_cons_iff : m.Sole r (r ::ₘ rows) ↔ ∀ s ∈ rows, ¬ m.SameIdentity r s := by
  rw [Sole, Multiset.filter_cons_of_pos _ (m.sameIdentity_refl r), ← Multiset.cons_zero r,
    Multiset.cons_inj_right, Multiset.filter_eq_nil]

theorem Sole.mem (h : m.Sole r rows) : r ∈ rows := by
  have hr : r ∈ rows.filter (m.SameIdentity r) := by
    rw [h]
    exact Multiset.mem_singleton_self r
  exact (Multiset.mem_filter.mp hr).1

end Schema.Metadata

structure Place where
  metadata : Metadata
  record : Record

def Place.table (p : Place) : String := p.metadata.fullTableName

def Place.Claims (p : Place) (table : String) (r : Record) : Prop :=
  p.table = table ∧ p.metadata.SameIdentity p.record r

abbrev Places := Oid → Option Place

namespace Places

variable {places : Places} {oid j : Oid} {place : Option Place}

def set (places : Places) (oid : Oid) (place : Option Place) : Places :=
  Function.update places oid place

@[simp] theorem set_self : places.set oid place oid = place := Function.update_self ..

@[simp] theorem set_of_ne (hj : j ≠ oid) : places.set oid place j = places j :=
  Function.update_of_ne hj ..

open Classical in
noncomputable def unclaimed (places : Places) (tables : Tables) : Tables := fun table =>
  (tables table).filter fun r => ∀ oid p, places oid = some p → ¬ p.Claims table r

end Places

structure Laid (places : Places) (tables : Tables) : Prop where
  sole : ∀ oid p, places oid = some p → p.metadata.Sole p.record (tables p.table)
  apart : ∀ i j p q, i ≠ j → places i = some p → places j = some q → ¬ p.Claims q.table q.record

namespace Laid

variable {places : Places} {tables tables' : Tables} {oid j : Oid} {m : Metadata} {p q : Place}
  {old new : Option Record} {rest : Multiset Record}

theorem sole_rest (h : Laid places tables) (hplace : places oid = old.map (Place.mk m))
    (hbefore : tables m.fullTableName = old.toList + rest) (hj : j ≠ oid)
    (hq : places j = some q) (htable : q.table = m.fullTableName) :
    q.metadata.Sole q.record rest := by
  have hsole := h.sole j q hq
  rw [htable, hbefore, Metadata.Sole, Multiset.filter_add] at hsole
  cases old with
  | none => simpa [Metadata.Sole] using hsole
  | some r =>
    have hfree : ¬ q.metadata.SameIdentity q.record r := fun hsame =>
      h.apart j oid q ⟨m, r⟩ hj hq hplace ⟨htable, hsame⟩
    simpa [Metadata.Sole, Multiset.filter_singleton, hfree] using hsole

theorem not_claims_rest {r s : Record} (hs : s ∈ rest)
    (hsole : m.Sole r ((some r).toList + rest)) : ¬ m.SameIdentity r s := by
  refine Metadata.sole_cons_iff.mp ?_ s hs
  simpa using hsole

open Classical in
theorem unclaimed_eq {o : Option Record} (hplace : places oid = o.map (Place.mk m))
    (htable : tables m.fullTableName = o.toList + rest)
    (hsole : ∀ r, o = some r → m.Sole r (tables m.fullTableName)) :
    places.unclaimed tables m.fullTableName = rest.filter fun r =>
      ∀ j p, j ≠ oid → places j = some p → ¬ p.Claims m.fullTableName r := by
  have hrest : rest.filter (fun r => ∀ j p, places j = some p → ¬ p.Claims m.fullTableName r) =
      rest.filter fun r =>
        ∀ j p, j ≠ oid → places j = some p → ¬ p.Claims m.fullTableName r := by
    refine Multiset.filter_congr fun s hs => ⟨fun h j p _ => h j p, fun h j p hp => ?_⟩
    by_cases hj : j = oid
    · subst hj
      rw [hplace] at hp
      obtain ⟨r, hr, rfl⟩ := Option.map_eq_some_iff.mp hp
      have hsole := hsole r hr
      rw [htable, hr] at hsole
      exact fun hclaims => not_claims_rest hs hsole hclaims.2
    · exact h j p hj hp
  rw [Places.unclaimed, htable, Multiset.filter_add, hrest]
  cases o with
  | none => simp
  | some r =>
    have hr : ¬ ∀ j p, places j = some p → ¬ p.Claims m.fullTableName r := fun h =>
      h oid ⟨m, r⟩ hplace ⟨rfl, m.sameIdentity_refl r⟩
    simp [Multiset.filter_singleton, hr]

section Replace

variable (h : Laid places tables)
  (hclass : ∀ j q, places j = some q → q.table = m.fullTableName → q.metadata = m)
  (hplace : places oid = old.map (Place.mk m))
  (hbefore : tables m.fullTableName = old.toList + rest)
  (hnew : ∀ r, new = some r → m.Sole r (new.toList + rest))

include h hplace hbefore hnew

theorem not_sameIdentity_new {r : Record} (hr : new = some r) (hj : j ≠ oid)
    (hq : places j = some q) (htable : q.table = m.fullTableName) :
    ¬ m.SameIdentity r q.record := by
  have hsole := hnew r hr
  rw [hr] at hsole
  exact not_claims_rest (h.sole_rest hplace hbefore hj hq htable).mem hsole

include hclass

theorem sole_of_ne (hj : j ≠ oid) (hq : places j = some q) (htable : q.table = m.fullTableName) :
    q.metadata.Sole q.record (new.toList + rest) := by
  rw [Metadata.Sole, Multiset.filter_add,
    show Multiset.filter _ rest = _ from h.sole_rest hplace hbefore hj hq htable]
  cases hr : new with
  | none => simp
  | some r =>
    have hother : ¬ q.metadata.SameIdentity q.record r := fun hsame => by
      rw [hclass j q hq htable] at hsame
      exact h.not_sameIdentity_new hplace hbefore hnew hr hj hq htable hsame.symm
    simp [Multiset.filter_singleton, hother]

theorem replace : Laid (places.set oid (new.map (Place.mk m)))
    (Function.update tables m.fullTableName (new.toList + rest)) := by
  constructor
  case sole =>
    intro j q hq
    by_cases hj : j = oid
    · subst hj
      rw [Places.set_self] at hq
      obtain ⟨r, hr, rfl⟩ := Option.map_eq_some_iff.mp hq
      rw [show Place.table ⟨m, r⟩ = m.fullTableName from rfl, Function.update_self]
      exact hnew r hr
    · rw [Places.set_of_ne hj] at hq
      by_cases htable : q.table = m.fullTableName
      · rw [htable, Function.update_self]
        exact h.sole_of_ne hclass hplace hbefore hnew hj hq htable
      · rw [Function.update_of_ne htable]
        exact h.sole j q hq
  case apart =>
    intro i j p q hij hp hq hclaims
    by_cases hi : i = oid
    · subst hi
      rw [Places.set_self] at hp
      obtain ⟨r, hr, rfl⟩ := Option.map_eq_some_iff.mp hp
      rw [Places.set_of_ne (Ne.symm hij)] at hq
      exact h.not_sameIdentity_new hplace hbefore hnew hr (Ne.symm hij) hq hclaims.1.symm hclaims.2
    · rw [Places.set_of_ne hi] at hp
      by_cases hj : j = oid
      · subst hj
        rw [Places.set_self] at hq
        obtain ⟨r, hr, rfl⟩ := Option.map_eq_some_iff.mp hq
        have hsame := hclaims.2
        rw [hclass i p hp hclaims.1] at hsame
        exact h.not_sameIdentity_new hplace hbefore hnew hr hi hp hclaims.1 hsame.symm
      · rw [Places.set_of_ne hj] at hq
        exact h.apart i j p q hij hp hq hclaims

omit hclass

theorem unclaimed_replace : (places.set oid (new.map (Place.mk m))).unclaimed
    (Function.update tables m.fullTableName (new.toList + rest)) = places.unclaimed tables := by
  classical
  have hold (r : Record) (hr : old = some r) : m.Sole r (tables m.fullTableName) :=
    h.sole oid ⟨m, r⟩ (by rw [hplace, hr]; rfl)
  funext table
  by_cases htable : table = m.fullTableName
  · subst htable
    rw [unclaimed_eq Places.set_self (Function.update_self ..) (by simpa using hnew),
      unclaimed_eq hplace hbefore hold]
    refine Multiset.filter_congr fun s _ => ?_
    refine forall_congr' fun j => forall_congr' fun p => forall_congr' fun hj => ?_
    rw [Places.set_of_ne hj]
  · rw [Places.unclaimed, Places.unclaimed, Function.update_of_ne htable]
    -- the instance has no place in another table, before or after
    have hnone (o : Option Record) (p : Place) (s : Record) (hp : o.map (Place.mk m) = some p) :
        ¬ p.Claims table s := by
      obtain ⟨r, hr, rfl⟩ := Option.map_eq_some_iff.mp hp
      exact fun hclaims => htable hclaims.1.symm
    refine Multiset.filter_congr fun s _ => forall_congr' fun j => forall_congr' fun p => ?_
    by_cases hj : j = oid
    · subst hj
      rw [Places.set_self, hplace]
      exact ⟨fun _ => hnone old p s, fun _ => hnone new p s⟩
    · rw [Places.set_of_ne hj]

end Replace

variable (old new) in
theorem replaced (h : Laid places tables)
    (hclass : ∀ j q, places j = some q → q.table = m.fullTableName → q.metadata = m)
    (hplace : places oid = old.map (Place.mk m))
    (hbefore : tables m.fullTableName = old.toList + rest)
    (hnew : ∀ r, new = some r → m.Sole r (new.toList + rest)) :
    Laid (places.set oid (new.map (Place.mk m)))
        (Function.update tables m.fullTableName (new.toList + rest)) ∧
      (places.set oid (new.map (Place.mk m))).unclaimed
        (Function.update tables m.fullTableName (new.toList + rest)) = places.unclaimed tables :=
  ⟨h.replace hclass hplace hbefore hnew, h.unclaimed_replace hplace hbefore hnew⟩

variable {d d' : Database} {r : Record} {values assignments conditions : List (String × Value)}

theorem insert (h : Laid places d.tables)
    (hclass : ∀ j q, places j = some q → q.table = m.fullTableName → q.metadata = m)
    (hplace : places oid = none) (ht : d.Takes m (.insert m.fullTableName values) d') :
    ∃ r, r.Meets values ∧ d'.last = (m.fullTableName, r) ∧ d'.saved = d.saved ∧
      Laid (places.set oid (some ⟨m, r⟩)) d'.tables ∧
      (places.set oid (some ⟨m, r⟩)).unclaimed d'.tables = places.unclaimed d.tables := by
  cases ht with
  | insert r hr hsole =>
    refine ⟨r, hr, rfl, rfl, ?_⟩
    exact h.replaced none (some r) hclass hplace (Multiset.zero_add _).symm
      fun r' hr' => Option.some.inj hr' ▸ hsole

theorem eq_of_meets (hc : conditions.map Prod.fst = m.identifierFields.map Schema.Field.column)
    (hr : r.Meets conditions) :
    conditions = m.identifierFields.map fun f => (f.column, r f.column) := by
  calc
    conditions = conditions.map id := (List.map_id conditions).symm
    _ = conditions.map fun e => (e.1, r e.1) :=
      List.map_congr_left fun e he => Prod.ext rfl (hr e he).symm
    _ = (conditions.map Prod.fst).map fun column => (column, r column) := by
      rw [List.map_map]
      rfl
    _ = m.identifierFields.map fun f => (f.column, r f.column) := by
      rw [hc, List.map_map]
      rfl

theorem meets_iff (hc : conditions.map Prod.fst = m.identifierFields.map Schema.Field.column)
    (hr : r.Meets conditions) (s : Record) : s.Meets conditions ↔ m.SameIdentity r s := by
  rw [eq_of_meets hc hr, Record.Meets, List.forall_mem_map]
  exact forall₂_congr fun f _ => eq_comm

theorem eq_add_rest (h : Laid places tables) (hplace : places oid = some ⟨m, r⟩)
    (hc : conditions.map Prod.fst = m.identifierFields.map Schema.Field.column)
    (hr : r.Meets conditions) :
    tables m.fullTableName = (some r).toList +
      (tables m.fullTableName).filter fun s => ¬ s.Meets conditions := by
  have hsole : (tables m.fullTableName).filter (fun s => s.Meets conditions) = {r} := by
    rw [Multiset.filter_congr fun s _ => meets_iff hc hr s]
    exact h.sole oid _ hplace
  have hsplit := Multiset.filter_add_not (fun s => s.Meets conditions) (tables m.fullTableName)
  rw [hsole] at hsplit
  exact hsplit.symm

theorem update (h : Laid places d.tables)
    (hclass : ∀ j q, places j = some q → q.table = m.fullTableName → q.metadata = m)
    (hplace : places oid = some ⟨m, r⟩)
    (hc : conditions.map Prod.fst = m.identifierFields.map Schema.Field.column)
    (hr : r.Meets conditions)
    (ht : d.Takes m (.update m.fullTableName assignments conditions) d') :
    d'.saved = d.saved ∧ Laid (places.set oid (some ⟨m, r.assign assignments⟩)) d'.tables ∧
      (places.set oid (some ⟨m, r.assign assignments⟩)).unclaimed d'.tables =
        places.unclaimed d.tables := by
  have hbefore := h.eq_add_rest hplace hc hr
  cases ht with
  | update rows hrows hsole =>
    have hmem : r ∈ d.tables m.fullTableName := (h.sole oid _ hplace).mem
    have hafter : rows = (some (r.assign assignments)).toList +
        (d.tables m.fullTableName).filter fun s => ¬ s.Meets conditions := by
      rw [hbefore, Multiset.map_add] at hrows
      rw [hrows]
      congr 1
      · simp [hr]
      · refine (Multiset.map_congr rfl fun s hs => if_neg ?_).trans (Multiset.map_id _)
        exact (Multiset.mem_filter.mp hs).2
    refine ⟨rfl, ?_⟩
    rw [hafter] at hsole ⊢
    exact h.replaced (some r) (some (r.assign assignments)) hclass hplace hbefore
      fun s hs => Option.some.inj hs ▸ hsole r hmem hr

theorem delete (h : Laid places d.tables)
    (hclass : ∀ j q, places j = some q → q.table = m.fullTableName → q.metadata = m)
    (hplace : places oid = some ⟨m, r⟩)
    (hc : conditions.map Prod.fst = m.identifierFields.map Schema.Field.column)
    (hr : r.Meets conditions) (ht : d.Takes m (.delete m.fullTableName conditions) d') :
    d'.saved = d.saved ∧ Laid (places.set oid none) d'.tables ∧
      (places.set oid none).unclaimed d'.tables = places.unclaimed d.tables ∧
      (∀ table, d'.tables table ⊆ d.tables table) ∧
      ∀ s ∈ d'.tables m.fullTableName, ¬ s.Meets conditions := by
  have hbefore := h.eq_add_rest hplace hc hr
  cases ht with
  | delete =>
    obtain ⟨hlaid, hunclaimed⟩ := h.replaced (some r) none hclass hplace hbefore
      fun s hs => by simp at hs
    rw [show ((none : Option Record).toList : Multiset Record) + _ = _ from Multiset.zero_add _]
      at hlaid hunclaimed
    refine ⟨rfl, hlaid, hunclaimed, fun table => ?_, fun s hs => ?_⟩
    · dsimp only
      by_cases htable : table = m.fullTableName
      · subst htable
        rw [Function.update_self]
        exact Multiset.filter_subset _ _
      · rw [Function.update_of_ne htable]
        exact Multiset.Subset.refl _
    · dsimp only at hs
      rw [Function.update_self] at hs
      exact (Multiset.mem_filter.mp hs).2

end Laid
end Persistence
