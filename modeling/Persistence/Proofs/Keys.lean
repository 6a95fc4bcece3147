import Persistence.Proofs.Extraction

/-!
The keys of a class. A key belongs to a class if it has a value for each identifier field and
nothing else. It is then told by its conditions, which are what statements address a row by.
-/

namespace Persistence

open Schema (Metadata Snapshot)

namespace IdentityKey

variable {m : Metadata} {k k' : IdentityKey} {s : Snapshot}

def Belongs (k : IdentityKey) (m : Metadata) : Prop :=
  ∃ value : String → Value, k = ofFields m.className (m.identifiers.map fun name => (name, value name))

theorem Belongs.className_eq (h : k.Belongs m) : k.className = m.className := by
  obtain ⟨value, rfl⟩ := h
  rfl

def coerced (m : Metadata) (pick : String → Except Error Value) (name : String) : Value :=
  ((pick name >>= coerceField m name).toOption).getD .null

theorem collect_eq {pick : String → Except Error Value} {names : List String}
    {es : List (String × Value)} (h : collect m pick names = .ok es) :
    (∀ name ∈ names, (pick name >>= coerceField m name) = .ok (coerced m pick name)) ∧
      es = names.map fun name => (name, coerced m pick name) := by
  induction names generalizing es with
  | nil => exact ⟨by simp, (Except.ok.inj h).symm⟩
  | cons name rest ih =>
    rw [collect] at h
    cases hv : pick name >>= coerceField m name with
    | error e =>
      rw [← bind_assoc, hv] at h
      simp [bind, Except.bind] at h
    | ok v =>
      cases hrest : collect m pick rest with
      | error e =>
        rw [← bind_assoc, hv, hrest] at h
        simp [bind, Except.bind] at h
      | ok more =>
        rw [← bind_assoc, hv, hrest] at h
        simp only [bind, Except.bind, pure, Except.pure, Except.ok.injEq] at h
        obtain ⟨hall, rfl⟩ := ih hrest
        have hname : coerced m pick name = v := by simp [coerced, hv, Except.toOption]
        refine ⟨fun other hother => ?_, by rw [← h, List.map_cons, hname]⟩
        rcases List.mem_cons.mp hother with rfl | hother
        · rw [hv, hname]
        · exact hall other hother

theorem belongs_of_collect {pick : String → Except Error Value} {es : List (String × Value)}
    (h : collect m pick m.identifiers = .ok es) : (ofFields m.className es).Belongs m :=
  ⟨_, by rw [(collect_eq h).2]⟩

theorem ofSnapshot_eq_ok (h : ofSnapshot m s = .ok k) : m.requireIdentifiers = .ok () ∧
    ∃ es, collect m (fun name => .ok (snapshotValue s name)) m.identifiers = .ok es ∧
      k = ofFields m.className es := by
  unfold ofSnapshot at h
  cases hr : m.requireIdentifiers with
  | error e => simp [hr, bind, Except.bind] at h
  | ok u =>
    cases hc : collect m (fun name => .ok (snapshotValue s name)) m.identifiers with
    | error e => simp [hr, hc, bind, Except.bind] at h
    | ok es =>
      simp only [hr, hc, bind, Except.bind, pure, Except.pure] at h
      exact ⟨rfl, es, rfl, (Except.ok.inj h).symm⟩

theorem ofIdentifier_eq_ok {id : Identifier} (h : ofIdentifier m id = .ok k) :
    m.requireIdentifiers = .ok () ∧
      ∃ pick es, collect m pick m.identifiers = .ok es ∧ k = ofFields m.className es := by
  unfold ofIdentifier at h
  cases hr : m.requireIdentifiers with
  | error e => simp [hr, bind, Except.bind] at h
  | ok u =>
    simp only [hr, bind, Except.bind, pure, Except.pure] at h
    cases id with
    | scalar v =>
      dsimp only at h
      split at h
      · simp at h
      · split at h
        · simp at h
        · rename_i es hc
          exact ⟨rfl, _, es, hc, (Except.ok.inj h).symm⟩
    | composite values =>
      dsimp only at h
      split at h
      · simp at h
      · split at h
        · simp at h
        · rename_i es hc
          exact ⟨rfl, _, es, hc, (Except.ok.inj h).symm⟩

theorem belongs_of_ofSnapshot (h : ofSnapshot m s = .ok k) : k.Belongs m := by
  obtain ⟨-, es, hc, rfl⟩ := ofSnapshot_eq_ok h
  exact belongs_of_collect hc

theorem belongs_of_ofIdentifier {id : Identifier} (h : ofIdentifier m id = .ok k) :
    k.Belongs m := by
  obtain ⟨-, pick, es, hc, rfl⟩ := ofIdentifier_eq_ok h
  exact belongs_of_collect hc

theorem get?_ofFields {className name : String} {names : List String} (value : String → Value)
    (hn : names.Nodup) (hname : name ∈ names) :
    (ofFields className (names.map fun name => (name, value name))).get? name =
      some (value name) := by
  have hperm := List.mergeSort_perm (names.map fun name => (name, value name))
    fun a b => decide (a.1 ≤ b.1)
  have hfst : ((names.map fun name => (name, value name)).map Prod.fst) = names := by
    simp [Function.comp_def]
  rw [get?, ofFields, lookupEntry_eq_some_iff]
  · exact hperm.mem_iff.mpr (List.mem_map.mpr ⟨name, hname, rfl⟩)
  · rw [(hperm.map Prod.fst).nodup_iff, hfst]
    exact hn

def Full (k : IdentityKey) : Prop := k.fields ≠ [] ∧ ∀ e ∈ k.fields, e.2 ≠ .null

theorem coerceField_ne_null {name : String} {u v : Value} (h : coerceField m name u = .ok v) :
    v ≠ .null := by
  unfold coerceField at h
  split at h
  · simp at h
  · rename_i hblank
    split at h
    · simp at h
    · split at h
      · rename_i hv
        rw [← Except.ok.inj h]
        refine Schema.FieldType.coerce_ne_null hv fun hu => hblank ?_
        rw [hu, Value.isBlank]
      · simp at h

theorem full_of_collect {pick : String → Except Error Value} {es : List (String × Value)}
    (hr : m.requireIdentifiers = .ok ()) (h : collect m pick m.identifiers = .ok es) :
    (ofFields m.className es).Full := by
  obtain ⟨hall, rfl⟩ := collect_eq h
  have hperm : (ofFields m.className _).fields.Perm _ :=
    List.mergeSort_perm (m.identifiers.map fun name => (name, coerced m pick name)) _
  refine ⟨fun hnil => ?_, fun e he => ?_⟩
  · rw [hnil, List.nil_perm, List.map_eq_nil_iff] at hperm
    simp [Metadata.requireIdentifiers, hperm] at hr
  · obtain ⟨name, hname, rfl⟩ := List.mem_map.mp (hperm.mem_iff.mp he)
    have hv := hall name hname
    cases hp : pick name with
    | error e => simp [hp, bind, Except.bind] at hv
    | ok u =>
      rw [hp] at hv
      exact coerceField_ne_null hv

theorem full_of_ofSnapshot (h : ofSnapshot m s = .ok k) : k.Full := by
  obtain ⟨hr, es, hc, rfl⟩ := ofSnapshot_eq_ok h
  exact full_of_collect hr hc

theorem full_of_ofIdentifier {id : Identifier} (h : ofIdentifier m id = .ok k) : k.Full := by
  obtain ⟨hr, pick, es, hc, rfl⟩ := ofIdentifier_eq_ok h
  exact full_of_collect hr hc

theorem Full.exists_value (hk : k.Full) (hb : k.Belongs m) : m.identifiers ≠ [] ∧
    ∀ name ∈ m.identifiers, ∃ v, v ≠ .null ∧ k.get? name = some v := by
  obtain ⟨value, rfl⟩ := hb
  have hperm : (ofFields m.className _).fields.Perm _ :=
    List.mergeSort_perm (m.identifiers.map fun name => (name, value name)) _
  refine ⟨fun hnil => hk.1 ?_, fun name hname => ⟨value name, ?_, ?_⟩⟩
  · rw [hnil] at hperm ⊢
    exact List.perm_nil.mp hperm
  · exact hk.2 (name, value name) (hperm.mem_iff.mpr (List.mem_map.mpr ⟨name, hname, rfl⟩))
  · exact get?_ofFields value (m.identifiers_sublist.nodup m.fieldNames_nodup) hname

theorem conditions_ofFields (value : String → Value) :
    (ofFields m.className (m.identifiers.map fun name => (name, value name))).conditions m =
      m.identifierFields.map fun f => (f.column, value f.name) := by
  have hn : m.identifiers.Nodup := m.identifiers_sublist.nodup m.fieldNames_nodup
  refine List.map_congr_left fun f hf => ?_
  rw [get?_ofFields value hn (Metadata.mem_identifierFields.mp hf).2]
  rfl

theorem Belongs.eq_of_conditions_eq (h : k.Belongs m) (h' : k'.Belongs m)
    (heq : k.conditions m = k'.conditions m) : k = k' := by
  obtain ⟨value, rfl⟩ := h
  obtain ⟨value', rfl⟩ := h'
  rw [conditions_ofFields, conditions_ofFields, List.map_inj_left] at heq
  refine congrArg _ (List.map_congr_left fun name hname => ?_)
  obtain ⟨f, hf, rfl⟩ := Metadata.exists_identifierField hname
  rw [(Prod.mk.inj (heq f hf)).2]

theorem conditions_of_ofSnapshot
    (hs : ∀ f ∈ m.identifierFields, f.type.coerce (snapshotValue s f.name) = .ok (snapshotValue s f.name))
    (h : ofSnapshot m s = .ok k) :
    k.conditions m = m.identifierFields.map fun f => (f.column, snapshotValue s f.name) := by
  obtain ⟨-, es, hc, rfl⟩ := ofSnapshot_eq_ok h
  obtain ⟨hall, rfl⟩ := collect_eq hc
  rw [conditions_ofFields]
  refine List.map_congr_left fun f hf => ?_
  obtain ⟨hmem, hname⟩ := Metadata.mem_identifierFields.mp hf
  have hv := hall f.name hname
  simp only [bind, Except.bind, coerceField] at hv
  split at hv
  · simp at hv
  · rw [Metadata.field?_eq_some_iff.mpr ⟨hmem, rfl⟩] at hv
    simp only [hs f hf] at hv
    rw [← Except.ok.inj hv]

theorem Belongs.eq_of_ofSnapshot (hk : k.Belongs m)
    (hs : ∀ f ∈ m.identifierFields, f.type.coerce (snapshotValue s f.name) =
      .ok (snapshotValue s f.name) ∧ (k.get? f.name).getD .null = snapshotValue s f.name)
    (h : ofSnapshot m s = .ok k') : k' = k := by
  refine (belongs_of_ofSnapshot h).eq_of_conditions_eq hk ?_
  rw [conditions_of_ofSnapshot (fun f hf => (hs f hf).1) h]
  exact List.map_congr_left fun f hf => by rw [(hs f hf).2]

theorem collect_of_coerced (value : String → Value) {pick : String → Except Error Value}
    {names : List String}
    (h : ∀ name ∈ names, (pick name >>= coerceField m name) = .ok (value name)) :
    collect m pick names = .ok (names.map fun name => (name, value name)) := by
  induction names with
  | nil => rfl
  | cons name rest ih =>
    rw [collect, ← bind_assoc, h name List.mem_cons_self,
      ih fun other hother => h other (List.mem_cons_of_mem name hother)]
    rfl

theorem collect_congr {pick pick' : String → Except Error Value} {names : List String}
    (h : ∀ name ∈ names, pick' name = pick name) : collect m pick' names = collect m pick names := by
  induction names with
  | nil => rfl
  | cons name rest ih =>
    rw [collect, collect, h name List.mem_cons_self,
      ih fun other hother => h other (List.mem_cons_of_mem name hother)]

theorem ofSnapshot_congr {s' : Snapshot}
    (h : ∀ name ∈ m.identifiers, snapshotValue s' name = snapshotValue s name) :
    ofSnapshot m s' = ofSnapshot m s := by
  rw [ofSnapshot, ofSnapshot, collect_congr fun name hname => by rw [h name hname]]

theorem ofSnapshot_identifierValues {x : Instance} {ids : Snapshot}
    (hids : m.identifierValues x = .ok ids) : ofSnapshot m (m.snapshotOf x) = ofSnapshot m ids := by
  refine ofSnapshot_congr fun name hname => ?_
  obtain ⟨f, hf, rfl⟩ := Metadata.exists_identifierField hname
  rw [snapshotValue, snapshotValue,
    Metadata.lookupEntry_snapshotOf _ (Metadata.mem_identifierFields.mp hf).1,
    Metadata.lookupEntry_identifierValues hids hf]

/-- An identifier spells a key: it is a value for the one identifier field, or has a value for each
identifier field and nothing else, in any order. The values are coerced to those of the key. -/
def Spells (m : Metadata) (k : IdentityKey) : Identifier → Prop
  | .scalar v => ∃ name u, m.identifiers = [name] ∧ k.get? name = some u ∧
      coerceField m name v = .ok u
  | .composite values => (∀ name, name ∈ values.keys ↔ name ∈ m.identifiers) ∧
      ∀ name v, values.get? name = some v →
        ∃ u, k.get? name = some u ∧ coerceField m name v = .ok u

theorem ofIdentifier_of_spells (hk : k.Belongs m) (hne : m.identifiers ≠ []) {id : Identifier}
    (h : Spells m k id) : ofIdentifier m id = .ok k := by
  obtain ⟨value, rfl⟩ := hk
  have hn : m.identifiers.Nodup := m.identifiers_sublist.nodup m.fieldNames_nodup
  have hr : m.requireIdentifiers = .ok () := by simp [Metadata.requireIdentifiers, hne]
  cases id with
  | scalar v =>
    obtain ⟨name, u, hids, hu, hv⟩ := h
    rw [get?_ofFields value hn (by simp [hids])] at hu
    have hsingle : m.isComposite = false := by simp [Metadata.isComposite, hids]
    simp only [ofIdentifier, hr, hsingle, bind, Except.bind, pure, Except.pure,
      Bool.false_eq_true, if_false]
    rw [collect_of_coerced value fun other hother => ?_]
    obtain rfl : other = name := by simpa [hids] using hother
    exact hv.trans (congrArg _ (Option.some.inj hu).symm)
  | composite values =>
    obtain ⟨hnames, hvalues⟩ := h
    have hextra : (values.keys.find? fun name => !m.isIdentifier name) = none := by
      refine List.find?_eq_none.mpr fun name hname => ?_
      simpa [Metadata.isIdentifier] using (hnames name).mp hname
    simp only [ofIdentifier, hr, hextra, bind, Except.bind, pure, Except.pure]
    rw [collect_of_coerced value fun name hname => ?_]
    obtain ⟨v, hv⟩ := Option.isSome_iff_exists.mp
      ((values.get?_isSome_iff name).mpr ((hnames name).mpr hname))
    obtain ⟨u, hu, hcoerced⟩ := hvalues name v hv
    rw [get?_ofFields value hn hname] at hu
    rw [hv, Option.some.inj hu]
    exact hcoerced

end IdentityKey

namespace UnitOfWork

variable {w : UnitOfWork} {oid : Oid}

/-- A property holds of all that is tracked: of the instance, its class, and its key or none. -/
def Every (P : Oid → Metadata → Option IdentityKey → Prop) (w : UnitOfWork) : Prop :=
  ∀ oid t, w.tracked.get? oid = some t → P oid t.metadata t.key

section Every

variable {P : Oid → Metadata → Option IdentityKey → Prop} {m : Metadata} {key : IdentityKey}

theorem every_empty (P : Oid → Metadata → Option IdentityKey → Prop) : empty.Every P :=
  fun oid t ht => by simp [empty] at ht

theorem Every.track (h : w.Every P) (hP : P oid m (some key)) (s : Snapshot) :
    (w.track oid m key s).Every P := by
  intro j t ht
  rw [get?_tracked_track] at ht
  split at ht
  · rename_i hj
    rw [← Option.some.inj ht, ← hj]
    exact hP
  · exact h j t ht

theorem Every.detach (h : w.Every P) (oid : Oid) : (w.detach oid).Every P := by
  intro j t ht
  rw [get?_tracked_detach] at ht
  split at ht
  · simp at ht
  · exact h j t ht

theorem Every.persist (h : w.Every P) (hP : P oid m none) : (w.persist oid m).Every P := by
  intro j t ht
  unfold UnitOfWork.persist at ht
  split at ht
  · rename_i t₀ ht₀
    split at ht
    · rw [OrderedMap.get?_insert] at ht
      split at ht
      · rename_i hj
        rw [← Option.some.inj ht, ← hj]
        exact h oid t₀ ht₀
      · exact h j t ht
    · exact h j t ht
  · rw [OrderedMap.get?_insert] at ht
    split at ht
    · rename_i hj
      rw [← Option.some.inj ht, ← hj]
      exact hP
    · exact h j t ht

theorem Every.remove (h : w.Every P) {w' : UnitOfWork} (hw : w.remove oid = .ok w') :
    w'.Every P := by
  intro j t ht
  unfold UnitOfWork.remove at hw
  split at hw
  · simp at hw
  · rename_i t₀ ht₀
    split at hw <;> rw [← Except.ok.inj hw] at ht
    · rw [OrderedMap.get?_erase] at ht
      split at ht
      · simp at ht
      · exact h j t ht
    · rw [OrderedMap.get?_insert] at ht
      split at ht
      · rename_i hj
        rw [← Option.some.inj ht, ← hj]
        exact h oid t₀ ht₀
      · exact h j t ht
    · exact h j t ht
    · exact h j t ht

theorem Every.apply (h : w.Every P) (hc : w.Consistent) {written : List Written}
    (hw : w.Wrote written)
    (hP : ∀ x ∈ written, ∀ t, w.tracked.get? x.oid = some t → P x.oid t.metadata (some x.key)) :
    (w.apply written w.deletions).Every P := by
  intro j t ht
  by_cases hd : j ∈ w.deletions
  · simp [hc.get?_tracked_apply_of_deleted hw hd] at ht
  by_cases hj : j ∈ written.map Written.oid
  · obtain ⟨x, hx, rfl⟩ := List.mem_map.mp hj
    rw [hc.get?_tracked_apply_of_written hw hx] at ht
    obtain ⟨t₀, ht₀, rfl⟩ := Option.map_eq_some_iff.mp ht
    exact hP x hx t₀ ht₀
  · rw [hc.get?_tracked_apply_of_kept hw hj hd] at ht
    exact h j t ht

end Every

def Each (P : Metadata → Option IdentityKey → Prop) (w : UnitOfWork) : Prop :=
  ∀ oid t, w.tracked.get? oid = some t → P t.metadata t.key

theorem each_iff_every (P : Metadata → Option IdentityKey → Prop) :
    w.Each P ↔ w.Every fun _ => P := Iff.rfl

section Each

variable {P : Metadata → Option IdentityKey → Prop} {m : Metadata} {key : IdentityKey}

theorem each_empty (P : Metadata → Option IdentityKey → Prop) : empty.Each P := every_empty _

theorem Each.track (h : w.Each P) (hP : P m (some key)) (s : Snapshot) :
    (w.track oid m key s).Each P :=
  ((each_iff_every P).mp h).track hP s

theorem Each.detach (h : w.Each P) (oid : Oid) : (w.detach oid).Each P :=
  ((each_iff_every P).mp h).detach oid

theorem Each.persist (h : w.Each P) (hP : P m none) (oid : Oid) : (w.persist oid m).Each P :=
  ((each_iff_every P).mp h).persist hP

end Each

def Keyed (w : UnitOfWork) : Prop :=
  ∀ oid t key, w.tracked.get? oid = some t → t.key = some key → key.Belongs t.metadata

theorem keyed_iff_every :
    w.Keyed ↔ w.Every fun _ m k => ∀ key, k = some key → key.Belongs m :=
  ⟨fun h oid t ht key hkey => h oid t key ht hkey, fun h oid t key ht hkey => h oid t ht key hkey⟩

theorem keyed_empty : empty.Keyed := keyed_iff_every.mpr (every_empty _)

namespace Keyed

theorem track (h : w.Keyed) {m : Metadata} {key : IdentityKey} (hkey : key.Belongs m)
    (s : Snapshot) : (w.track oid m key s).Keyed :=
  keyed_iff_every.mpr ((keyed_iff_every.mp h).track (fun _ hk => Option.some.inj hk ▸ hkey) s)

theorem detach (h : w.Keyed) (oid : Oid) : (w.detach oid).Keyed :=
  keyed_iff_every.mpr ((keyed_iff_every.mp h).detach oid)

theorem persist (h : w.Keyed) (oid : Oid) (m : Metadata) : (w.persist oid m).Keyed :=
  keyed_iff_every.mpr ((keyed_iff_every.mp h).persist fun _ hk => by simp at hk)

theorem remove (h : w.Keyed) {w' : UnitOfWork} (hw : w.remove oid = .ok w') : w'.Keyed :=
  keyed_iff_every.mpr ((keyed_iff_every.mp h).remove hw)

theorem apply (h : w.Keyed) (hc : w.Consistent) {written : List Written} (hw : w.Wrote written) :
    (w.apply written w.deletions).Keyed := by
  refine keyed_iff_every.mpr ((keyed_iff_every.mp h).apply hc hw fun x hx t ht key hkey => ?_)
  rw [← Option.some.inj hkey]
  exact IdentityKey.belongs_of_ofSnapshot (hw.keyed x hx t ht)

end Keyed
end UnitOfWork
end Persistence
