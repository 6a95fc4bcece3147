import Mathlib.Data.List.Basic
import Persistence.Proofs.Writing

/-!
The values of instances. An instance fits a class if each field of the class stands in a slot
whose storage holds the kind of value that the type of the field is for. What such a slot holds is
coerced to itself, and what a coercion answers is held as it is, so nothing is lost between an
instance and its row.
-/

namespace Persistence

open Schema (Metadata Snapshot Field FieldType readFields)

section Entries

variable {κ α β : Type} [DecidableEq κ] {k : κ} {es : List (κ × α)} {xs : List β} {x : β}
  {key : β → κ}

theorem lookupEntry_eq_none_iff : lookupEntry k es = none ↔ k ∉ es.map Prod.fst := by
  induction es with
  | nil => simp [lookupEntry]
  | cons e rest ih =>
    rw [lookupEntry, List.map_cons, List.mem_cons, not_or]
    split
    · rename_i h
      simp [h]
    · rename_i h
      simp [ih, Ne.symm h]

theorem lookupEntry_map_of_mem (value : β → α) (h : (xs.map key).Nodup) (hx : x ∈ xs) :
    lookupEntry (key x) (xs.map fun x => (key x, value x)) = some (value x) := by
  rw [lookupEntry_eq_some_iff (by rwa [List.map_map])]
  exact List.mem_map.mpr ⟨x, hx, rfl⟩

theorem eq_of_key_eq {y : β} (h : (xs.map key).Nodup) (hx : x ∈ xs) (hy : y ∈ xs)
    (hkey : key x = key y) : x = y := by
  have hx' := lookupEntry_map_of_mem id h hx
  rw [hkey, lookupEntry_map_of_mem id h hy] at hx'
  exact (Option.some.inj hx').symm

theorem lookupEntry_map_filter (p : β → Bool) (value : β → α) (h : (xs.map key).Nodup)
    (hx : x ∈ xs) :
    lookupEntry (key x) ((xs.filter p).map fun x => (key x, value x)) =
      if p x then some (value x) else none := by
  have hfilter : ((xs.filter p).map key).Nodup := (List.filter_sublist.map key).nodup h
  split
  · rename_i hp
    exact lookupEntry_map_of_mem value hfilter (List.mem_filter.mpr ⟨hx, hp⟩)
  · rename_i hp
    rw [lookupEntry_eq_none_iff, List.map_map]
    intro hmem
    obtain ⟨y, hy, hkey⟩ := List.mem_map.mp hmem
    obtain ⟨hy, hpy⟩ := List.mem_filter.mp hy
    rw [eq_of_key_eq h hy hx hkey] at hpy
    exact hp hpy

end Entries

theorem filter_mem_eq_of_sublist {α : Type} [DecidableEq α] {l l' : List α} (h : l.Sublist l')
    (hn : l'.Nodup) : l'.filter (fun a => decide (a ∈ l)) = l := by
  induction h with
  | slnil => rfl
  | @cons l l' a h ih =>
    obtain ⟨ha, hn⟩ := List.nodup_cons.mp hn
    rw [List.filter_cons_of_neg (by simpa using fun hmem => ha (h.subset hmem)), ih hn]
  | @cons_cons l l' a h ih =>
    obtain ⟨ha, hn⟩ := List.nodup_cons.mp hn
    rw [List.filter_cons_of_pos (by simp)]
    congr 1
    rw [← ih hn]
    refine List.filter_congr fun b hb => ?_
    have hne : b ≠ a := fun heq => ha (heq ▸ hb)
    simp [hne, ih hn]

def Storage.Base.kind : Storage.Base → Value.Kind
  | int64 | int32 => .int
  | double => .double
  | bool => .bool
  | text => .text
  | bytes => .bytes

/-- The kind of value that a field type is for, apart from null. -/
def Schema.FieldType.kind : FieldType → Value.Kind
  | integer => .int
  | float | decimal => .double
  | boolean => .bool
  | blob => .bytes
  | string | text | datetime | date | time => .text

theorem Storage.Base.kind_of_convert {b : Storage.Base} {v w : Value} (h : b.convert v = .ok w) :
    w.kind = b.kind := by
  cases b <;> cases v <;> simp only [convert, Except.ok.injEq, reduceCtorEq] at h
  case int32.int n =>
    split at h
    · rw [← Except.ok.inj h]
      rfl
    · simp at h
  all_goals
    subst h
    rfl

theorem Storage.Base.convert_of_kind {b : Storage.Base} {v w : Value} (hk : v.kind = b.kind)
    (h : b.convert v = .ok w) : w = v := by
  cases b <;> cases v <;> simp only [Value.kind, kind, reduceCtorEq] at hk <;>
    simp only [convert] at h
  case int32.int n =>
    split at h
    · exact (Except.ok.inj h).symm
    · simp at h
  all_goals exact (Except.ok.inj h).symm

namespace Schema.FieldType

theorem kind_of_coerceInteger {u v : Value} (h : coerceInteger u = .ok v) : v.kind = .int := by
  cases u <;> simp only [coerceInteger, Except.ok.injEq, reduceCtorEq] at h
  case text =>
    split at h
    · rw [← Except.ok.inj h]
      rfl
    · simp at h
  all_goals
    subst h
    rfl

theorem kind_of_coerceDouble {t : FieldType} {u v : Value} (h : coerceDouble t u = .ok v) : v.kind = .double := by
  cases u <;> simp only [coerceDouble, Except.ok.injEq, reduceCtorEq] at h
  case text =>
    split at h
    · rw [← Except.ok.inj h]
      rfl
    · simp at h
  all_goals
    subst h
    rfl

theorem kind_of_coerceBoolean {u v : Value} (h : coerceBoolean u = .ok v) : v.kind = .bool := by
  unfold coerceBoolean at h
  cases u <;> simp only [Except.ok.injEq, reduceCtorEq] at h
  case text =>
    split at h
    · rw [← Except.ok.inj h]
      rfl
    · simp at h
  all_goals
    subst h
    rfl

theorem kind_of_coerceBlob {u v : Value} (h : coerceBlob u = .ok v) : v.kind = .bytes := by
  cases u <;> simp only [coerceBlob, Except.ok.injEq, reduceCtorEq] at h
  all_goals
    subst h
    rfl

theorem kind_of_coerceText {u v : Value} (h : coerceText u = .ok v) : v.kind = .text := by
  cases u <;> simp only [coerceText, Except.ok.injEq] at h
  case bytes =>
    split at h
    · rw [← Except.ok.inj h]
      rfl
    · simp at h
  all_goals
    subst h
    rfl

theorem kind_eq_of_coerce {t : FieldType} {u v : Value} (h : t.coerce u = .ok v) (hu : u ≠ .null) :
    v.kind = t.kind := by
  unfold coerce at h
  rw [if_neg hu] at h
  cases t with
  | integer => exact kind_of_coerceInteger h
  | float | decimal => exact kind_of_coerceDouble h
  | boolean => exact kind_of_coerceBoolean h
  | blob => exact kind_of_coerceBlob h
  | string | text | datetime | date | time => exact kind_of_coerceText h

theorem kind_of_coerce {t : FieldType} {u v : Value} (h : t.coerce u = .ok v) (hv : v ≠ .null) :
    v.kind = t.kind := by
  refine kind_eq_of_coerce h fun hu => hv ?_
  subst hu
  exact (Except.ok.inj h).symm

theorem coerce_ne_null {t : FieldType} {u v : Value} (h : t.coerce u = .ok v) (hu : u ≠ .null) :
    v ≠ .null := by
  rintro rfl
  have hkind := kind_eq_of_coerce h hu
  cases t <;> simp [Value.kind, kind] at hkind

theorem coerce_of_kind {t : FieldType} {v : Value} (h : v.kind = t.kind) : t.coerce v = .ok v := by
  cases t <;> cases v <;> simp only [Value.kind, kind, reduceCtorEq] at h <;> rfl

end Schema.FieldType

/-- A field holds the values of a type as they are. -/
def Storage.Suits (s : Storage) (t : FieldType) : Prop := s.base.kind = t.kind

namespace Storage.Suits

variable {s : Storage} {t : FieldType} {u v w : Value}

theorem coerce_eq (h : s.Suits t) (hv : s.convert v = .ok v) : t.coerce v = .ok v := by
  by_cases hnull : v = .null
  · subst hnull
    rfl
  · refine FieldType.coerce_of_kind ?_
    rw [convert, if_neg fun hn => hnull hn.2] at hv
    rw [Base.kind_of_convert hv, h]

theorem convert_coerced (h : s.Suits t) (hv : t.coerce u = .ok v) (hw : s.convert v = .ok w) :
    w = v := by
  unfold convert at hw
  split at hw
  · rename_i hn
    rw [hn.2, Except.ok.inj hw]
  · rename_i hn
    refine Base.convert_of_kind ?_ hw
    rw [h]
    refine FieldType.kind_of_coerce hv fun hnull => ?_
    subst hnull
    simp [Base.convert] at hw

end Storage.Suits

theorem Schema.readFields_of_owner {x : Instance} {fs : List Field}
    (h : ∀ f ∈ fs, f.accessor.owner = x.type) :
    readFields x fs = .ok (fs.map fun f => (f.name, x.read f.accessor.slot)) := by
  induction fs with
  | nil => rfl
  | cons f rest ih =>
    obtain ⟨hf, hrest⟩ := List.forall_mem_cons.mp h
    rw [readFields, Accessor.get, if_pos hf.symm, ih hrest]
    rfl

namespace Schema.Metadata

variable {m : Metadata} {f : Field} {name : String}

theorem fieldNames_nodup (m : Metadata) : (m.fields.map Field.name).Nodup :=
  (List.nodup_append.mp m.names_nodup).1

theorem field?_eq_some_iff : m.field? name = some f ↔ f ∈ m.fields ∧ f.name = name := by
  constructor
  · intro h
    exact ⟨List.mem_of_find?_eq_some h, by simpa using List.find?_some h⟩
  · rintro ⟨hf, rfl⟩
    cases hg : m.field? f.name with
    | none => simpa using List.find?_eq_none.mp hg f hf
    | some g =>
      have hname : g.name = f.name := by simpa using List.find?_some hg
      rw [eq_of_key_eq m.fieldNames_nodup (List.mem_of_find?_eq_some hg) hf hname]

theorem mem_identifierFields :
    f ∈ m.identifierFields ↔ f ∈ m.fields ∧ f.name ∈ m.identifiers := by
  simp only [identifierFields, List.mem_filterMap, field?_eq_some_iff]
  constructor
  · rintro ⟨_, hname, hf, rfl⟩
    exact ⟨hf, hname⟩
  · rintro ⟨hf, hname⟩
    exact ⟨f.name, hname, hf, rfl⟩

theorem exists_identifierField (h : name ∈ m.identifiers) :
    ∃ f ∈ m.identifierFields, f.name = name := by
  obtain ⟨f, hf, rfl⟩ := List.mem_map.mp (m.identifiers_sublist.subset h)
  exact ⟨f, mem_identifierFields.mpr ⟨hf, h⟩, rfl⟩

theorem identifiers_eq (m : Metadata) :
    m.identifiers = (m.fields.filter fun f => m.isIdentifier f.name).map Field.name := by
  have hnames := filter_mem_eq_of_sublist m.identifiers_sublist m.fieldNames_nodup
  rw [List.filter_map] at hnames
  rw [← hnames]
  congr 1
  exact List.filter_congr fun f _ => by simp [isIdentifier]

theorem identifierFields_eq (m : Metadata) :
    m.identifierFields = m.fields.filter fun f => m.isIdentifier f.name := by
  rw [identifierFields, identifiers_eq, List.filterMap_map]
  refine (List.filterMap_congr fun f hf => ?_).trans List.filterMap_some
  exact field?_eq_some_iff.mpr ⟨(List.mem_filter.mp hf).1, rfl⟩

def snapshotOf (m : Metadata) (x : Instance) : Snapshot :=
  m.fields.map fun f => (f.name, x.read f.accessor.slot)

theorem readFields_eq {x : Instance} {fs : List Field} {s : Snapshot}
    (h : readFields x fs = .ok s) : s = fs.map fun f => (f.name, x.read f.accessor.slot) := by
  induction fs generalizing s with
  | nil => exact (Except.ok.inj h).symm
  | cons f rest ih =>
    rw [readFields, Accessor.get] at h
    split at h
    · cases hrest : readFields x rest with
      | error e => simp [hrest, bind, Except.bind] at h
      | ok values =>
        simp only [hrest, bind, Except.bind, pure, Except.pure] at h
        rw [← Except.ok.inj h, ih hrest, List.map_cons]
    · simp [bind, Except.bind] at h

theorem extract_eq {x : Instance} {s : Snapshot} (h : m.extract x = .ok s) : s = m.snapshotOf x :=
  readFields_eq h

theorem lookupEntry_snapshotOf (x : Instance) (hf : f ∈ m.fields) :
    lookupEntry f.name (m.snapshotOf x) = some (x.read f.accessor.slot) :=
  lookupEntry_map_of_mem (fun f : Field => x.read f.accessor.slot) m.fieldNames_nodup hf

theorem lookupEntry_identifierValues {x : Instance} {ids : Snapshot}
    (h : m.identifierValues x = .ok ids) (hf : f ∈ m.identifierFields) :
    lookupEntry f.name ids = some (x.read f.accessor.slot) := by
  rw [readFields_eq h]
  have hnodup : (m.identifierFields.map Field.name).Nodup := by
    rw [identifierFields_eq]
    exact (List.filter_sublist.map Field.name).nodup m.fieldNames_nodup
  exact lookupEntry_map_of_mem (fun f : Field => x.read f.accessor.slot) hnodup hf

end Schema.Metadata

theorem Slot.of_write {s t : Slot} {v : Value} (h : s.write v = .ok t) :
    t.storage = s.storage ∧ s.storage.convert v = .ok t.value := by
  unfold write at h
  split at h
  · rename_i w hconvert
    rw [← Except.ok.inj h]
    exact ⟨rfl, hconvert⟩
  · simp at h

/-- A field has no slot in common with another one. -/
def Schema.Field.OwnSlot (f : Field) (fs : List Field) : Prop :=
  ∀ g ∈ fs, g.accessor.slot = f.accessor.slot → g = f

/-- No other field of the class stands in the slot of an identifier field. -/
def Schema.Metadata.IdentifiersApart (m : Metadata) : Prop :=
  ∀ f ∈ m.identifierFields, f.OwnSlot m.fields

/-- Each field of the class stands in a slot that suits the type of the field. -/
structure Instance.Fits (x : Instance) (m : Metadata) : Prop where
  suits : ∀ f ∈ m.fields, ∃ s, x.slots[f.accessor.slot]? = some s ∧ s.storage.Suits f.type

namespace Instance.Fits

variable {x y : Instance} {m : Metadata} {f : Field} {u v : Value}

theorem coerce_read (h : x.Fits m) (hf : f ∈ m.fields) :
    f.type.coerce (x.read f.accessor.slot) = .ok (x.read f.accessor.slot) := by
  obtain ⟨s, hs, hsuits⟩ := h.suits f hf
  rw [read, hs]
  exact hsuits.coerce_eq s.valid

theorem write (h : x.Fits m) (hf : f ∈ m.fields) (hc : f.type.coerce u = .ok v)
    (hw : x.write f.accessor.slot v = .ok y) :
    y.Fits m ∧ y.read f.accessor.slot = v ∧ ∀ i, i ≠ f.accessor.slot → y.read i = x.read i := by
  obtain ⟨s, hs, hsuits⟩ := h.suits f hf
  have hlt : f.accessor.slot < x.slots.length := (List.getElem?_eq_some_iff.mp hs).1
  rw [Instance.write, hs] at hw
  dsimp only at hw
  cases ht : s.write v with
  | error e => simp [ht, Except.map] at hw
  | ok t =>
    simp only [ht, Except.map, Except.ok.injEq] at hw
    subst hw
    obtain ⟨hstorage, hconvert⟩ := Slot.of_write ht
    refine ⟨⟨fun g hg => ?_⟩, ?_, fun i hi => ?_⟩
    · obtain ⟨s', hs', hsuits'⟩ := h.suits g hg
      by_cases hslot : f.accessor.slot = g.accessor.slot
      · rw [← hslot, hs] at hs'
        obtain rfl := Option.some.inj hs'
        exact ⟨t, by rw [← hslot, List.getElem?_set_self hlt], hstorage ▸ hsuits'⟩
      · exact ⟨s', by rwa [List.getElem?_set_ne hslot], hsuits'⟩
    · simp only [read, List.getElem?_set_self hlt]
      exact hsuits.convert_coerced hc hconvert
    · simp only [read, List.getElem?_set_ne (Ne.symm hi)]

end Instance.Fits

theorem Schema.Metadata.identifiers_eq_of_generates {m : Metadata}
    (h : m.generatesIdentity = true) : ∃ f ∈ m.fields, m.identifiers = [f.name] := by
  simp only [generatesIdentity, decide_eq_true_eq] at h
  obtain ⟨name, hname⟩ := List.length_eq_one_iff.mp h.2
  obtain ⟨f, hf, rfl⟩ := exists_identifierField (show name ∈ m.identifiers by simp [hname])
  exact ⟨f, (mem_identifierFields.mp hf).1, hname⟩

namespace Heap

variable {h h' : Heap} {m : Metadata} {oid j : Oid} {id : String}

theorem object_put_of_ne (x : Instance) (hj : j ≠ oid) : (h.put oid x).object j = h.object j := by
  have hindex : oid.index ≠ j.index := fun heq => hj (by cases oid; cases j; simp_all)
  simp [object, put, hindex]

theorem content_put (x : Instance) (hlt : oid.index < h.objects.length) :
    (h.put oid x).content oid = x := by
  simp [content, object, put, hlt]

theorem index_lt {i : Nat} {s : Slot} (hs : (h.content oid).slots[i]? = some s) :
    oid.index < h.objects.length := by
  refine Nat.lt_of_not_le fun hle => ?_
  simp [content, object, List.getD_eq_getElem?_getD, List.getElem?_eq_none hle, default] at hs

theorem identify_eq_ok (hg : m.generatesIdentity = true) (hfit : (h.content oid).Fits m)
    (hid : h.identify m oid id = .ok h') :
    (∀ j, j ≠ oid → h'.object j = h.object j) ∧ (h'.content oid).Fits m ∧
      ∃ f ∈ m.fields, m.identifiers = [f.name] ∧
        f.type.coerce (.text id) = .ok ((h'.content oid).read f.accessor.slot) ∧
        ∀ i, i ≠ f.accessor.slot → (h'.content oid).read i = (h.content oid).read i := by
  obtain ⟨f, hf, hids⟩ := Schema.Metadata.identifiers_eq_of_generates hg
  have hname : m.field? (m.identifiers.headD "") = some f := by
    rw [hids]
    exact Schema.Metadata.field?_eq_some_iff.mpr ⟨hf, rfl⟩
  obtain ⟨s, hs, -⟩ := hfit.suits f hf
  unfold identify toChange at hid
  split at hid
  · simp only [bind, Except.bind, Schema.Metadata.setField, hname, Accessor.set] at hid
    cases hv : f.type.coerce (.text id) with
    | error e => simp [hv] at hid
    | ok v =>
      simp only [hv] at hid
      split at hid
      · simp at hid
      · rename_i y hy
        split at hy
        · obtain ⟨hfit', hread, hother⟩ := hfit.write hf hv hy
          have hcontent := content_put (h := h) y (index_lt hs)
          rw [← Except.ok.inj hid]
          change _ ∧ ((h.put oid y).content oid).Fits m ∧ _
          refine ⟨fun j hj => object_put_of_ne y hj, by rwa [hcontent], f, hf, hids, ?_, ?_⟩
          · rw [hv, hcontent, hread]
          · rw [hcontent]
            exact hother
        · simp at hy
  · simp [bind, Except.bind] at hid

theorem values_eq {s : Snapshot} (hs : h.values m oid = .ok s) :
    s = m.snapshotOf (h.content oid) := by
  unfold values toRead at hs
  split at hs
  · simp [bind, Except.bind] at hs
  · exact Schema.Metadata.extract_eq hs

theorem values_congr (hobject : h'.object oid = h.object oid) :
    h'.values m oid = h.values m oid := by
  unfold values toRead typeOf content
  rw [hobject]

end Heap
end Persistence
