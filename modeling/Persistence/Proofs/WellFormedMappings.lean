import Persistence.Proofs.Keys
import Persistence.Proofs.Memoization

/-!
Well-formed mappings. A class is described exactly if its mapping is well formed, which is said
here of each field, of each association and of their names, without regard to the order in which
the checks go. The metadata then has what is declared, and its identifiers can be relied on.
-/

namespace Persistence

namespace Schema

variable {className : String} {registered : String → Bool} {names : List String}

structure FieldDef.WellFormed (d : FieldDef) : Prop where
  name : d.name ≠ ""
  column : Text.isBlankText (d.column.getD d.name) = false
  length : ∀ n, d.length = some n →
    (d.type = .string ∨ d.type = .text ∨ d.type = .decimal) ∧ 1 ≤ n ∧ n ≤ 8000

theorem FieldType.acceptsLength_iff (t : FieldType) :
    t.acceptsLength = true ↔ t = .string ∨ t = .text ∨ t = .decimal := by
  cases t <;> simp [acceptsLength]

theorem distinct_cons_iff {β : Type} (key : β → String) (x : β) (rest : List β) :
    ((x :: rest).map key).Nodup ∧ (∀ y ∈ x :: rest, key y ∉ names) ↔
      key x ∉ names ∧ (rest.map key).Nodup ∧ ∀ y ∈ rest, key y ∉ key x :: names := by
  rw [List.forall_mem_cons]
  simp only [List.map_cons, List.nodup_cons, List.mem_cons, not_or, List.mem_map, not_exists, not_and]
  constructor
  · rintro ⟨⟨hx, hrest⟩, hfree, hall⟩
    exact ⟨hfree, hrest, fun y hy => ⟨hx y hy, hall y hy⟩⟩
  · rintro ⟨hfree, hrest, hall⟩
    exact ⟨⟨fun y hy => (hall y hy).1, hrest⟩, hfree, fun y hy => (hall y hy).2⟩

namespace FieldDef

theorem fault?_eq_none_iff (d : FieldDef) : d.fault? className = none ↔ d.WellFormed := by
  unfold fault? columnName
  constructor
  · intro h
    split at h
    · simp at h
    · rename_i hname
      split at h
      · simp at h
      · rename_i hcolumn
        refine ⟨by simpa [String.isEmpty_iff] using hname, by simpa using hcolumn, fun n hn => ?_⟩
        simp only [hn] at h
        split at h
        · simp at h
        · rename_i htype
          split at h
          · simp at h
          · rename_i hrange
            refine ⟨d.type.acceptsLength_iff.mp (by simpa using htype), ?_⟩
            simp only [FieldType.maxLength] at hrange
            omega
  · rintro ⟨hname, hcolumn, hlength⟩
    rw [if_neg (by simpa [String.isEmpty_iff] using hname), if_neg (by simp [hcolumn])]
    cases hn : d.length with
    | none => rfl
    | some n =>
      obtain ⟨htype, hlow, hhigh⟩ := hlength n hn
      have hrange : ¬ (n = 0 ∨ FieldType.maxLength < n) := by
        simp only [FieldType.maxLength]
        omega
      simp only [d.type.acceptsLength_iff.mpr htype, Bool.not_true, Bool.false_eq_true, if_false,
        hrange]

theorem check_eq_ok_iff (ds : List FieldDef) : checkFields className names ds = .ok () ↔
    (∀ d ∈ ds, d.WellFormed) ∧ (ds.map FieldDef.name).Nodup ∧ ∀ d ∈ ds, d.name ∉ names := by
  induction ds generalizing names with
  | nil => simp [checkFields]
  | cons d rest ih =>
    rw [distinct_cons_iff, List.forall_mem_cons, checkFields]
    cases hf : d.fault? className with
    | some fault =>
      have hd : ¬ d.WellFormed := fun hd => by simp [(d.fault?_eq_none_iff).mpr hd] at hf
      simp [hd]
    | none =>
      have hd : d.WellFormed := d.fault?_eq_none_iff.mp hf
      dsimp only
      split
      · rename_i htaken
        simp [htaken]
      · rename_i hfree
        rw [ih]
        simp only [hd, true_and, hfree, not_false_eq_true]

end FieldDef

namespace Association

/-- The association says how it is stored, as its kind requires. -/
def Stored (a : Association) : Prop :=
  match a.kind with
  | .manyToOne => ∃ column, a.joinColumn = some column
  | .oneToOne => (∃ column, a.joinColumn = some column) ∨ ∃ inverse, a.mappedBy = some inverse
  | .oneToMany => ∃ inverse, a.mappedBy = some inverse
  | .manyToMany => (∃ table, a.joinTable = some table) ∨ ∃ inverse, a.mappedBy = some inverse

structure WellFormed (a : Association) (registered : String → Bool) : Prop where
  target : Text.isBlankText a.target = false
  registered : registered a.target = true
  stored : a.Stored
  columns : ∀ t, a.joinTable = some t → t.joinColumns ≠ [] ∧ t.inverseColumns ≠ []

theorem isComplete_iff (a : Association) : a.isComplete = true ↔ a.Stored := by
  unfold isComplete Stored
  cases a.kind <;> simp [Option.isSome_iff_exists]

theorem hasColumns_iff (t : JoinTable) :
    t.hasColumns = true ↔ t.joinColumns ≠ [] ∧ t.inverseColumns ≠ [] := by
  simp [JoinTable.hasColumns]

theorem fault?_eq_none_iff_wellFormed (a : Association) :
    a.fault? className registered names = none ↔ a.name ∉ names ∧ a.WellFormed registered := by
  unfold fault?
  constructor
  · intro h
    split at h
    · simp at h
    · rename_i htarget
      split at h
      · simp at h
      · rename_i hregistered
        split at h
        · simp at h
        · rename_i hfree
          split at h
          · simp at h
          · rename_i hstored
            refine ⟨hfree, by simpa using htarget, by simpa using hregistered,
              a.isComplete_iff.mp (by simpa using hstored), fun t ht => ?_⟩
            simp only [ht, ite_eq_left_iff, reduceCtorEq, imp_false, not_not] at h
            exact (hasColumns_iff t).mp h
  · rintro ⟨hfree, htarget, hregistered, hstored, hcolumns⟩
    simp only [htarget, hregistered, hfree, a.isComplete_iff.mpr hstored, Bool.not_true,
      Bool.false_eq_true, if_false]
    cases ht : a.joinTable with
    | none => rfl
    | some t => exact if_pos ((hasColumns_iff t).mpr (hcolumns t ht))

theorem check_eq_ok_iff_wellFormed (as : List Association) :
    checkAssociations className registered names as = .ok () ↔
      (∀ a ∈ as, a.WellFormed registered) ∧ (as.map Association.name).Nodup ∧
        ∀ a ∈ as, a.name ∉ names := by
  induction as generalizing names with
  | nil => simp [checkAssociations]
  | cons a rest ih =>
    have ha : a.fault? className registered names = none ↔ _ := a.fault?_eq_none_iff_wellFormed
    rw [distinct_cons_iff, List.forall_mem_cons, checkAssociations]
    cases hf : a.fault? className registered names with
    | some fault =>
      have hnot : ¬ (a.name ∉ names ∧ a.WellFormed registered) := fun h => by
        simp [ha.mpr h] at hf
      simp only [reduceCtorEq, false_iff]
      exact fun h => hnot ⟨h.2.1, h.1.1⟩
    | none =>
      obtain ⟨hfree, hwell⟩ := ha.mp hf
      dsimp only
      rw [ih]
      simp only [hwell, true_and, hfree, not_false_eq_true]

end Association

/-- The mapping of an entity, each part of which is well formed under a name of its own. -/
structure Mapping.WellFormed (m : Mapping) (registered : String → Bool) : Prop where
  isEntity : m.isEntity = true
  fields : ∀ d ∈ m.fields, d.WellFormed
  fieldNames_nodup : (m.fields.map FieldDef.name).Nodup
  associations : ∀ a ∈ m.associations, a.WellFormed registered
  associationNames_nodup : (m.associations.map Association.name).Nodup
  associationName_ne : ∀ a ∈ m.associations, ∀ d ∈ m.fields, a.name ≠ d.name

theorem Mapping.check_eq_ok_iff_wellFormed (m : Mapping) :
    m.check className registered = .ok () ↔ m.WellFormed registered := by
  have hfields : checkFields className [] m.fields = .ok () ↔ _ := FieldDef.check_eq_ok_iff m.fields
  have hassociations : checkAssociations className registered (m.fields.map FieldDef.name)
      m.associations = .ok () ↔ _ := Association.check_eq_ok_iff_wellFormed m.associations
  unfold check
  split
  · rename_i hentity
    constructor
    · intro h
      cases hcheck : checkFields className [] m.fields with
      | error e => simp [hcheck, bind, Except.bind] at h
      | ok u =>
        rw [hcheck] at h
        obtain ⟨hf, hn, -⟩ := hfields.mp hcheck
        obtain ⟨ha, han, hne⟩ := hassociations.mp h
        refine ⟨hentity, hf, hn, ha, han, fun a hmem d hd heq => hne a hmem ?_⟩
        exact List.mem_map.mpr ⟨d, hd, heq.symm⟩
    · rintro ⟨-, hf, hn, ha, han, hne⟩
      rw [hfields.mpr ⟨hf, hn, fun _ _ => List.not_mem_nil⟩]
      refine hassociations.mpr ⟨ha, han, fun a hmem hname => ?_⟩
      obtain ⟨d, hd, heq⟩ := List.mem_map.mp hname
      exact hne a hmem d hd heq.symm
  · rename_i hentity
    simp only [reduceCtorEq, false_iff]
    exact fun h => hentity h.isEntity

namespace Metadata

variable {md : Metadata} {m : Mapping}

/-- The metadata of a class has the declared fields and associations in the declared order, and
its identifiers are the fields declared as such. -/
structure Declares (md : Metadata) (className : String) (m : Mapping) : Prop where
  className : md.className = className
  fields : md.fields = m.fields.map fun d =>
    { name := d.name, column := d.column.getD d.name, type := d.type, length := d.length,
      nullable := d.nullable, default := d.default, accessor := d.accessor }
  associations : md.associations = m.associations
  identifiers : md.identifiers = (m.fields.filter fun d => d.isIdentifier).map fun d => d.name

theorem declares_toMetadata (m : Mapping) (className : String) (hm) :
    (m.toMetadata className hm).Declares className m := ⟨rfl, rfl, rfl, rfl⟩

theorem Declares.identifierFields (h : md.Declares className m) :
    md.identifierFields = (m.fields.filter fun d => d.isIdentifier).map FieldDef.toField := by
  rw [Metadata.identifierFields, h.identifiers, List.filterMap_map, ← List.filterMap_eq_map]
  refine List.filterMap_congr fun d hd => field?_eq_some_iff.mpr ⟨?_, rfl⟩
  rw [h.fields]
  exact List.mem_map.mpr ⟨d, (List.mem_filter.mp hd).1, rfl⟩

/-- Identifiers can be relied on: each names one field, and has a value in all that is read off an
instance and in every key. -/
structure Identified (md : Metadata) : Prop where
  nodup : md.identifiers.Nodup
  field : ∀ name ∈ md.identifiers, ∃ f ∈ md.fields, f.name = name ∧ md.field? name = some f
  fields : md.identifierFields.map Field.name = md.identifiers
  /-- Reading the identifier fields fails only for an instance of another type. -/
  read : ∀ x, (∀ f ∈ md.fields, f.accessor.owner = x.type) → ∃ s, md.identifierValues x = .ok s
  value : ∀ x s, md.extract x = .ok s ∨ md.identifierValues x = .ok s →
    ∀ name ∈ md.identifiers, ∃ f, md.field? name = some f ∧
      lookupEntry name s = some (x.read f.accessor.slot)
  /-- A key is never refused because an identifier is not mapped. -/
  mapped : ∀ className name,
    (∀ id, IdentityKey.ofIdentifier md id ≠ .error (.mapping (.unmappedIdentifier className name))) ∧
    ∀ s, IdentityKey.ofSnapshot md s ≠ .error (.mapping (.unmappedIdentifier className name))
  key : ∀ k, (∃ id, IdentityKey.ofIdentifier md id = .ok k) ∨
      (∃ s, IdentityKey.ofSnapshot md s = .ok k) →
    ∀ name ∈ md.identifiers, ∃ v, v ≠ .null ∧ k.get? name = some v

end Metadata
end Schema

namespace IdentityKey

open Schema (Metadata)

variable {m : Metadata}

theorem bind_ne_error {α β : Type} {a : Except Error α} {f : α → Except Error β} {e : Error}
    (ha : a ≠ .error e) (hf : ∀ x, f x ≠ .error e) : (a >>= f) ≠ .error e := by
  cases a with
  | error e' => exact fun h => ha (congrArg _ (Except.error.inj h))
  | ok x => exact hf x

theorem coerceField_ne_unmapped {name : String} (hname : name ∈ m.identifiers) (v : Value)
    (c other : String) : coerceField m name v ≠ .error (.mapping (.unmappedIdentifier c other)) := by
  obtain ⟨f, hf, rfl⟩ := Metadata.exists_identifierField hname
  have hfield := Metadata.field?_eq_some_iff.mpr ⟨(Metadata.mem_identifierFields.mp hf).1, rfl⟩
  unfold coerceField
  rw [hfield]
  split
  · simp [Error.validation, Error.mapping]
  · dsimp only
    split
    · simp
    · simp [Error.context, Error.mapping]

theorem collect_ne_unmapped {pick : String → Except Error Value} {names : List String}
    {c other : String} (hnames : ∀ name ∈ names, name ∈ m.identifiers)
    (hpick : ∀ name, pick name ≠ .error (.mapping (.unmappedIdentifier c other))) :
    collect m pick names ≠ .error (.mapping (.unmappedIdentifier c other)) := by
  induction names with
  | nil => simp [collect]
  | cons name rest ih =>
    obtain ⟨hname, hrest⟩ := List.forall_mem_cons.mp hnames
    rw [collect]
    refine bind_ne_error (hpick name) fun v => ?_
    refine bind_ne_error (coerceField_ne_unmapped hname v c other) fun w => ?_
    exact bind_ne_error (ih hrest) fun es => by simp [pure, Except.pure]

theorem requireIdentifiers_ne_unmapped (m : Metadata) (c other : String) :
    m.requireIdentifiers ≠ .error (.mapping (.unmappedIdentifier c other)) := by
  unfold Metadata.requireIdentifiers
  split <;> simp [Error.mapping]

theorem ofSnapshot_ne_unmapped (m : Metadata) (s : Schema.Snapshot) (c other : String) :
    ofSnapshot m s ≠ .error (.mapping (.unmappedIdentifier c other)) := by
  refine bind_ne_error (requireIdentifiers_ne_unmapped m c other) fun _ => ?_
  exact bind_ne_error (collect_ne_unmapped (fun _ => id) fun _ => by simp)
    fun es => by simp [pure, Except.pure]

theorem ofIdentifier_ne_unmapped (m : Metadata) (id : Identifier) (c other : String) :
    ofIdentifier m id ≠ .error (.mapping (.unmappedIdentifier c other)) := by
  refine bind_ne_error (requireIdentifiers_ne_unmapped m c other) fun _ => ?_
  have hcollect : ∀ pick : String → Except Error Value,
      (∀ name, pick name ≠ .error (.mapping (.unmappedIdentifier c other))) →
      (do return ofFields m.className (← collect m pick m.identifiers)) ≠
        .error (.mapping (.unmappedIdentifier c other)) := fun pick hpick =>
    bind_ne_error (collect_ne_unmapped (fun _ h => h) hpick) fun es => by simp [pure, Except.pure]
  cases id with
  | scalar v =>
    dsimp only
    split
    · simp [Error.validation, Error.mapping]
    · exact hcollect _ fun _ => by simp
  | composite values =>
    dsimp only
    split
    · simp [Error.validation, Error.mapping]
    · refine hcollect _ fun name => ?_
      split <;> simp [Error.validation, Error.mapping]

end IdentityKey

namespace Schema

theorem Metadata.identified (md : Metadata) : md.Identified where
  nodup := md.identifiers_sublist.nodup md.fieldNames_nodup
  field name hname := by
    obtain ⟨f, hf, rfl⟩ := exists_identifierField hname
    have hmem := (mem_identifierFields.mp hf).1
    exact ⟨f, hmem, rfl, field?_eq_some_iff.mpr ⟨hmem, rfl⟩⟩
  fields := by rw [identifierFields_eq, ← identifiers_eq]
  read x hx := ⟨_, readFields_of_owner fun f hf => hx f (mem_identifierFields.mp hf).1⟩
  value x s hs name hname := by
    obtain ⟨f, hf, rfl⟩ := exists_identifierField hname
    have hmem := (mem_identifierFields.mp hf).1
    refine ⟨f, field?_eq_some_iff.mpr ⟨hmem, rfl⟩, ?_⟩
    rcases hs with hs | hs
    · rw [extract_eq hs, lookupEntry_snapshotOf x hmem]
    · exact lookupEntry_identifierValues hs hf
  mapped c name := ⟨fun id => IdentityKey.ofIdentifier_ne_unmapped md id c name,
    fun s => IdentityKey.ofSnapshot_ne_unmapped md s c name⟩
  key k hk name hname := by
    rcases hk with ⟨id, hid⟩ | ⟨s, hs⟩
    · exact ((IdentityKey.full_of_ofIdentifier hid).exists_value
        (IdentityKey.belongs_of_ofIdentifier hid)).2 name hname
    · exact ((IdentityKey.full_of_ofSnapshot hs).exists_value
        (IdentityKey.belongs_of_ofSnapshot hs)).2 name hname

namespace Registry

open ObjectQuery (authorMapping postMapping)

variable {r : Registry}

theorem view_eq_ok_iff {md : Metadata} (hr : r.Sound) : r.view className = .ok md ↔
    Text.isBlankText className = false ∧ ∃ m, r.mappings.get? className = some m ∧
      m.WellFormed r.isRegistered ∧ ∃ hm, md = m.toMetadata className hm := by
  rw [hr.view_eq]
  constructor
  · intro h
    split at h
    · simp at h
    · rename_i hname
      rw [build] at h
      split at h
      · simp at h
      · rename_i m hmapping
        obtain ⟨hm, hcheck, hmd⟩ := Mapping.check_of_build h
        exact ⟨by simpa using hname, m, hmapping, m.check_eq_ok_iff_wellFormed.mp hcheck, hm, hmd⟩
  · rintro ⟨hname, m, hmapping, hwell, hm, rfl⟩
    rw [if_neg (by simp [hname]), build, hmapping]
    exact Mapping.build_of_check (m.check_eq_ok_iff_wellFormed.mpr hwell)

/-- Whatever a registry has been asked for, it describes a class exactly if its name is not blank
and it is registered with a well-formed mapping. The metadata has what the mapping declares, and
its identifiers can be relied on. -/
theorem describe_ok_iff_wellFormed (requests : List Request) (className : String) :
    ((∃ md, (describe className (empty.serve requests)).1 = .ok md) ↔
      Text.isBlankText className = false ∧
        ∃ m, (empty.serve requests).mappings.get? className = some m ∧
          m.WellFormed (empty.serve requests).isRegistered) ∧
    ∀ md, (describe className (empty.serve requests)).1 = .ok md →
      ∃ m, (empty.serve requests).mappings.get? className = some m ∧
        md.Declares className m ∧ md.Identified ∧
        md.identifierFields = (m.fields.filter fun d => d.isIdentifier).map FieldDef.toField := by
  have hsound := sound_empty.serveAll requests
  simp only [describe_fst, view_eq_ok_iff hsound]
  constructor
  · constructor
    · rintro ⟨md, hname, m, hm, hwell, -⟩
      exact ⟨hname, m, hm, hwell⟩
    · rintro ⟨hname, m, hm, hwell⟩
      have hcheck : m.check className _ = .ok () := m.check_eq_ok_iff_wellFormed.mpr hwell
      have hnodup := Mapping.nodup_of_check hcheck
      exact ⟨m.toMetadata className hnodup, hname, m, hm, hwell, hnodup, rfl⟩
  · rintro md ⟨-, m, hm, -, hnodup, rfl⟩
    have hdeclares := Metadata.declares_toMetadata m className hnodup
    exact ⟨m, hm, hdeclares, Metadata.identified _, hdeclares.identifierFields⟩

theorem describe_ok_iff_wellFormed_author :
    ∃ md, (describe "User" (empty.serve
        [.register "User" authorMapping, .describe "User", .register "Post" postMapping])).1 =
          .ok md ∧
      authorMapping.WellFormed (empty.serve
        [.register "User" authorMapping, .describe "User", .register "Post" postMapping]).isRegistered ∧
      md.Declares "User" authorMapping ∧ md.Identified ∧ md.identifiers = ["id"] := by
  obtain ⟨haccepted, hdescribed⟩ := describe_ok_iff_wellFormed
    [.register "User" authorMapping, .describe "User", .register "Post" postMapping] "User"
  have hmd : (describe "User" (empty.serve
      [.register "User" authorMapping, .describe "User", .register "Post" postMapping])).1 =
        .ok (authorMapping.toMetadata "User" (by decide)) := by decide
  obtain ⟨-, m, hm, hwell⟩ := haccepted.mp ⟨_, hmd⟩
  obtain ⟨m', hm', hdeclares, hidentified, -⟩ := hdescribed _ hmd
  obtain rfl : authorMapping = m := Option.some.inj hm
  obtain rfl : authorMapping = m' := Option.some.inj hm'
  exact ⟨_, hmd, hwell, hdeclares, hidentified, by decide⟩

end Registry
end Schema
end Persistence
