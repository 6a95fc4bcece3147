/-!
Finite maps that remember the order in which their keys first appeared.

Rows, composite identifiers, alias tables, identity maps and registries are all of this kind:
writing an existing key keeps its place, a new key goes last, and no key occurs twice. The
lemmas say what each operation does to `keys` and to `get?`.
-/

namespace Persistence

/-- Replaces the value of the first entry with key `k`, or appends an entry. -/
def putEntry {κ α : Type} [DecidableEq κ] (k : κ) (v : α) : List (κ × α) → List (κ × α)
  | [] => [(k, v)]
  | e :: rest => if e.1 = k then (k, v) :: rest else e :: putEntry k v rest

def lookupEntry {κ α : Type} [DecidableEq κ] (k : κ) : List (κ × α) → Option α
  | [] => none
  | e :: rest => if e.1 = k then some e.2 else lookupEntry k rest

theorem map_fst_putEntry {κ α : Type} [DecidableEq κ] (k : κ) (v : α) (es : List (κ × α)) :
    (putEntry k v es).map Prod.fst =
      if k ∈ es.map Prod.fst then es.map Prod.fst else es.map Prod.fst ++ [k] := by
  induction es with
  | nil => simp [putEntry]
  | cons e rest ih =>
    by_cases h : e.1 = k
    · simp [putEntry, h]
    · have h' : ¬ k = e.1 := fun hk => h hk.symm
      simp only [putEntry, h, if_false, List.map_cons, ih, List.mem_cons, h', false_or]
      split <;> rfl

theorem nodup_putEntry {κ α : Type} [DecidableEq κ] (k : κ) (v : α) {es : List (κ × α)}
    (h : (es.map Prod.fst).Nodup) : ((putEntry k v es).map Prod.fst).Nodup := by
  rw [map_fst_putEntry]
  split
  · exact h
  · rename_i hk
    refine List.nodup_append.mpr ⟨h, by simp, ?_⟩
    intro a ha b hb hab
    simp only [List.mem_singleton] at hb
    exact hk (hb ▸ hab ▸ ha)

theorem lookupEntry_putEntry {κ α : Type} [DecidableEq κ] (k j : κ) (v : α)
    (es : List (κ × α)) :
    lookupEntry j (putEntry k v es) = if k = j then some v else lookupEntry j es := by
  induction es with
  | nil => simp [putEntry, lookupEntry]
  | cons e rest ih =>
    by_cases h : e.1 = k
    · by_cases hj : k = j <;> simp [putEntry, lookupEntry, h, hj]
    · by_cases hj : e.1 = j
      · subst hj
        have : ¬ k = e.1 := fun hk => h hk.symm
        simp [putEntry, lookupEntry, h, this]
      · simp [putEntry, lookupEntry, h, hj, ih]

theorem lookupEntry_eq_some_iff {κ α : Type} [DecidableEq κ] {k : κ} {v : α} {es : List (κ × α)}
    (h : (es.map Prod.fst).Nodup) : lookupEntry k es = some v ↔ (k, v) ∈ es := by
  induction es with
  | nil => simp [lookupEntry]
  | cons e rest ih =>
    rw [List.map_cons, List.nodup_cons] at h
    by_cases hk : e.1 = k
    · subst hk
      have hrest : (e.1, v) ∉ rest := fun hm => h.1 (List.mem_map.mpr ⟨_, hm, rfl⟩)
      simp [lookupEntry, hrest, Prod.ext_iff, eq_comm]
    · have he : (k, v) ≠ e := fun heq => hk (heq ▸ rfl)
      simp [lookupEntry, hk, he, ih h.2]

/-- A finite map whose keys are listed in order of first appearance. -/
structure OrderedMap (κ α : Type) where
  toList : List (κ × α)
  nodup : (toList.map Prod.fst).Nodup

namespace OrderedMap

variable {κ α : Type}

instance [DecidableEq κ] [DecidableEq α] : DecidableEq (OrderedMap κ α) := fun m n =>
  if h : m.toList = n.toList then
    isTrue (by cases m; cases n; cases h; rfl)
  else
    isFalse (fun hmn => h (hmn ▸ rfl))

def empty : OrderedMap κ α := ⟨[], by simp⟩

instance : Inhabited (OrderedMap κ α) := ⟨empty⟩

def keys (m : OrderedMap κ α) : List κ := m.toList.map Prod.fst

def values (m : OrderedMap κ α) : List α := m.toList.map Prod.snd

def size (m : OrderedMap κ α) : Nat := m.toList.length

def isEmpty (m : OrderedMap κ α) : Bool := m.toList.isEmpty

@[simp] theorem keys_empty : (empty : OrderedMap κ α).keys = [] := rfl

theorem keys_nodup (m : OrderedMap κ α) : m.keys.Nodup := m.nodup

variable [DecidableEq κ]

def get? (m : OrderedMap κ α) (k : κ) : Option α := lookupEntry k m.toList

def contains (m : OrderedMap κ α) (k : κ) : Bool := (m.get? k).isSome

/-- Writes `v` under `k`: in place when `k` is present, else as the last entry. -/
def insert (m : OrderedMap κ α) (k : κ) (v : α) : OrderedMap κ α :=
  ⟨putEntry k v m.toList, nodup_putEntry k v m.nodup⟩

def erase (m : OrderedMap κ α) (k : κ) : OrderedMap κ α :=
  ⟨m.toList.filter (fun e => e.1 ≠ k), (List.filter_sublist.map Prod.fst).nodup m.nodup⟩

/-- Inserts the entries from left to right, so a repeated key keeps its first place and takes
its last value. -/
def ofList (es : List (κ × α)) : OrderedMap κ α :=
  es.foldl (fun m e => m.insert e.1 e.2) empty

@[simp] theorem get?_empty (k : κ) : (empty : OrderedMap κ α).get? k = none := rfl

theorem get?_insert (m : OrderedMap κ α) (k j : κ) (v : α) :
    (m.insert k v).get? j = if k = j then some v else m.get? j :=
  lookupEntry_putEntry k j v m.toList

theorem keys_insert (m : OrderedMap κ α) (k : κ) (v : α) :
    (m.insert k v).keys = if k ∈ m.keys then m.keys else m.keys ++ [k] :=
  map_fst_putEntry k v m.toList

theorem get?_erase (m : OrderedMap κ α) (k j : κ) :
    (m.erase k).get? j = if k = j then none else m.get? j := by
  obtain ⟨es, h⟩ := m
  simp only [get?, erase]
  clear h
  induction es with
  | nil => simp [lookupEntry]
  | cons e rest ih =>
    by_cases hk : e.1 = k
    · by_cases hj : k = j <;> simp_all [lookupEntry]
    · by_cases hj : k = j
      · subst hj
        simp_all [lookupEntry]
      · by_cases he : e.1 = j <;> simp_all [lookupEntry]

theorem get?_isSome_iff (m : OrderedMap κ α) (k : κ) : (m.get? k).isSome ↔ k ∈ m.keys := by
  obtain ⟨es, h⟩ := m
  simp only [get?, keys]
  clear h
  induction es with
  | nil => simp [lookupEntry]
  | cons e rest ih =>
    by_cases hk : e.1 = k
    · simp [lookupEntry, hk]
    · have : ¬ k = e.1 := fun h => hk h.symm
      simp [lookupEntry, hk, ih, this]

theorem get?_eq_some_iff (m : OrderedMap κ α) (k : κ) (v : α) :
    m.get? k = some v ↔ (k, v) ∈ m.toList :=
  lookupEntry_eq_some_iff m.nodup

end OrderedMap
end Persistence
