import Persistence.Manager.Basic
import Persistence.Proofs.Extraction

/-!
What is left on an instance by loading a row onto it and by copying fields onto it. Both write, for
some fields in order, a value that does not depend on the instance. A field that shares its slot
with no other has its own value in the end, as the storage of the slot converts it.
-/

namespace Persistence

open Schema (Metadata Snapshot Field Change)

namespace Instance

def storages (x : Instance) : List Storage := x.slots.map Slot.storage

/-- What a slot keeps of a value that is written to it. -/
def hold (x : Instance) (i : Nat) (v : Value) : Value :=
  match x.storages[i]? with
  | some s =>
    match s.convert v with
    | .ok w => w
    | .error _ => v
  | none => .null

variable {x y : Instance} {i : Nat} {s : Storage} {v w : Value}

theorem hold_of_convert (hs : x.storages[i]? = some s) (hw : s.convert v = .ok w) :
    x.hold i v = w := by
  simp [hold, hs, hw]

theorem hold_congr (h : y.storages = x.storages) : y.hold i v = x.hold i v := by
  rw [hold, hold, h]

theorem hold_hold (x : Instance) (i : Nat) (v : Value) : x.hold i (x.hold i v) = x.hold i v := by
  cases hs : x.storages[i]? with
  | none => simp [hold, hs]
  | some s =>
    cases hw : s.convert v with
    | error e => simp [hold, hs, hw]
    | ok w => rw [hold_of_convert hs hw, hold_of_convert hs (Storage.convert_convert hw)]

theorem hold_read (x : Instance) (i : Nat) : x.hold i (x.read i) = x.read i := by
  unfold hold storages read
  rw [List.getElem?_map]
  cases x.slots[i]? with
  | none => rfl
  | some s => simp [s.valid]

def Suits (x : Instance) (f : Field) : Prop :=
  ∃ s, x.storages[f.accessor.slot]? = some s ∧ s.Suits f.type

theorem Suits.hold_eq {f : Field} {u : Value} (h : x.Suits f) (hv : f.type.coerce u = .ok v) :
    x.hold f.accessor.slot v = v := by
  obtain ⟨s, hs, hsuits⟩ := h
  cases hw : s.convert v with
  | error e => simp [hold, hs, hw]
  | ok w => rw [hold_of_convert hs hw, hsuits.convert_coerced hv hw]

theorem of_write (h : x.write i v = .ok y) : y.storages = x.storages ∧ y.read i = x.hold i v ∧
    ∀ j, j ≠ i → y.read j = x.read j := by
  rw [write] at h
  cases hs : x.slots[i]? with
  | none =>
    simp only [hs, Except.ok.injEq] at h
    subst h
    simp [read, hold, storages, hs]
  | some s =>
    have hlt := (List.getElem?_eq_some_iff.mp hs).1
    have hstorages : x.storages[i]? = some s.storage := by rw [storages, List.getElem?_map, hs]; rfl
    cases ht : s.write v with
    | error e => simp [hs, ht, Except.map] at h
    | ok t =>
      simp only [hs, ht, Except.map, Except.ok.injEq] at h
      subst h
      obtain ⟨hstorage, hconvert⟩ := Slot.of_write ht
      refine ⟨List.ext_getElem? fun j => ?_, ?_, fun j hj => ?_⟩
      · rw [storages, List.map_set, hstorage]
        by_cases hj : i = j
        · rw [← hj, List.getElem?_set_self (by simpa using hlt), hstorages]
        · rw [List.getElem?_set_ne hj, storages]
      · rw [hold_of_convert hstorages hconvert]
        simp only [read, List.getElem?_set_self hlt]
      · simp only [read, List.getElem?_set_ne (Ne.symm hj)]

end Instance

namespace Schema.Field

def after (value : Field → Option Value) (f : Field) (x : Instance) : Value :=
  match value f with
  | some v => x.hold f.accessor.slot v
  | none => x.read f.accessor.slot

end Schema.Field

def Writes (step : Field → Change) (value : Field → Option Value) : Prop := ∀ f x,
  (step f).Post (fun _ y => match value f with
    | some v => x.write f.accessor.slot v = .ok y
    | none => y = x) (fun _ _ => True) x

namespace Writes

variable {step : Field → Change} {value : Field → Option Value}

theorem post_step (h : Writes step value) (f : Field) (x : Instance) :
    (step f).Post (fun _ y => y.storages = x.storages ∧ y.read f.accessor.slot = f.after value x ∧
      ∀ i, i ≠ f.accessor.slot → y.read i = x.read i) (fun _ _ => True) x := by
  refine (h f x).mono (fun _ y hy => ?_) fun _ _ => id
  rw [Field.after]
  split at hy
  · exact Instance.of_write hy
  · rw [hy]
    exact ⟨rfl, rfl, fun _ _ => rfl⟩

/-- After all steps a slot that only one field has holds the value of that field. -/
theorem post_forM (h : Writes step value) (fs : List Field) (x : Instance) :
    (fs.forM step).Post (fun _ y => y.storages = x.storages ∧
      (∀ i, (∀ f ∈ fs, f.accessor.slot ≠ i) → y.read i = x.read i) ∧
      ∀ f ∈ fs, f.OwnSlot fs → y.read f.accessor.slot = f.after value x) (fun _ _ => True) x := by
  change (forM fs step).Post _ _ x
  induction fs generalizing x with
  | nil => simp
  | cons g fs ih =>
    rw [List.forM_cons, Action.post_bind]
    refine (h.post_step g x).mono (fun _ y hy => ?_) fun _ _ => id
    obtain ⟨hstorages, hread, hothers⟩ := hy
    refine (ih y).mono (fun _ z hz => ?_) fun _ _ => id
    obtain ⟨hstorages', hothers', hread'⟩ := hz
    refine ⟨hstorages'.trans hstorages, fun i hi => ?_, fun f hf hown => ?_⟩
    · have hg := hi g List.mem_cons_self
      rw [hothers' i fun f hf => hi f (List.mem_cons_of_mem g hf), hothers i (Ne.symm hg)]
    · -- the last write to the slot decides
      by_cases hmem : f ∈ fs
      · rw [hread' f hmem fun k hk => hown k (List.mem_cons_of_mem g hk), Field.after]
        split
        · rename_i v hv
          rw [Field.after, hv]
          exact Instance.hold_congr hstorages
        · rename_i hv
          rw [Field.after, hv]
          by_cases hg : g.accessor.slot = f.accessor.slot
          · obtain rfl := hown g List.mem_cons_self hg
            rw [hread, Field.after, hv]
          · exact hothers _ (Ne.symm hg)
      · obtain rfl := (List.mem_cons.mp hf).resolve_right hmem
        rw [hothers' _ fun k hk hslot => ?_, hread]
        exact hmem (hown k (List.mem_cons_of_mem f hk) hslot ▸ hk)

end Writes

variable {m : Metadata} {f : Field} {row : Row} {x y : Instance}

/-- What a row has for a field. A null counts for nullable fields only. -/
def Schema.Field.supplied (row : Row) (f : Field) : Option Value :=
  match row.get? f.column with
  | some v => if v = .null ∧ f.nullable = false then none else (f.type.coerce v).toOption
  | none => none

theorem writes_hydrate (className : String) (row : Row) :
    Writes (fun f => f.hydrate className row) (Field.supplied row) := by
  intro f x
  dsimp only
  rw [Field.hydrate, Field.supplied]
  cases row.get? f.column with
  | none => simp
  | some v =>
    dsimp only
    split
    · simp
    · rw [Action.post_bind, Action.post_get]
      cases hw : f.type.coerce v with
      | error e => exact trivial
      | ok w =>
        simp only [bind, Except.bind, Accessor.set, Except.toOption]
        split
        · rename_i y hy
          split at hy
          · exact hy
          · simp at hy
        · trivial

theorem writes_copy (source : Instance) :
    Writes (fun f => do
      let v ← f.accessor.get source
      let x ← f.accessor.set (← get) v
      set x) fun f => some (source.read f.accessor.slot) := by
  intro f x
  simp only [Action.post_bind, Action.post_liftExcept, Action.post_get, Action.post_set,
    implies_true, and_true]
  intro v hv y hy
  rw [Accessor.get] at hv
  rw [Accessor.set] at hy
  split at hv
  · split at hy
    · rwa [Except.ok.inj hv]
    · simp at hy
  · simp at hv

def Schema.Field.given (row : Row) (blank : Instance) (f : Field) : Value :=
  f.after (Field.supplied row) blank

theorem read_of_hydrate (h : (m.hydrate row).run x = (.ok ⟨⟩, y)) (hf : f ∈ m.fields)
    (hown : f.OwnSlot m.fields) : y.read f.accessor.slot = f.given row x :=
  (((writes_hydrate m.className row).post_forM m.fields x).of_run_ok h).2.2 f hf hown

theorem read_of_copyFields {source : Instance}
    (h : (Manager.copyFields source m.fields).run x = (.ok ⟨⟩, y)) (hf : f ∈ m.fields)
    (hown : f.OwnSlot m.fields) :
    y.read f.accessor.slot = x.hold f.accessor.slot (source.read f.accessor.slot) :=
  (((writes_copy source).post_forM m.fields x).of_run_ok h).2.2 f hf hown

theorem read_of_reload {blank loaded : Instance}
    (hloaded : (m.hydrate row).run blank = (.ok ⟨⟩, loaded))
    (hcopied : (Manager.copyFields loaded m.fields).run x = (.ok ⟨⟩, y)) (hf : f ∈ m.fields)
    (hown : f.OwnSlot m.fields) :
    y.read f.accessor.slot = x.hold f.accessor.slot (f.given row blank) := by
  rw [read_of_copyFields hcopied hf hown, read_of_hydrate hloaded hf hown]

theorem Heap.eq_of_toRead {h : Heap} {oid : Oid} (hx : h.toRead oid = .ok x) :
    x = h.content oid := by
  rw [toRead] at hx
  split at hx
  · simp at hx
  · exact (Except.ok.inj hx).symm

theorem Heap.eq_of_toChange {h : Heap} {oid : Oid} (hx : h.toChange oid = .ok x) :
    x = h.content oid := by
  rw [toChange] at hx
  split at hx
  · exact (Except.ok.inj hx).symm
  · simp at hx

theorem hold_given : x.hold f.accessor.slot (f.given row x) = f.given row x := by
  rw [Field.given, Field.after]
  split
  · exact Instance.hold_hold ..
  · exact Instance.hold_read ..

end Persistence
