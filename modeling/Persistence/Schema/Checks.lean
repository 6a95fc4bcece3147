import Persistence.Schema.Metadata
import Persistence.Text.Lowercase

/-!
From a mapping to metadata: the checks a mapping has to pass.

Fields are checked before associations and each list from its start, so the first fault in
declaration order is the one reported. A mapping that passes all checks gives metadata with the
declared fields and associations in the declared order.
-/

namespace Persistence.Schema

namespace FieldDef

def columnName (d : FieldDef) : String := d.column.getD d.name

def toField (d : FieldDef) : Field :=
  { name := d.name, column := d.columnName, type := d.type, length := d.length,
    nullable := d.nullable, default := d.default, accessor := d.accessor }

def fault? (d : FieldDef) (className : String) : Option MappingFault :=
  if d.name.isEmpty then some (.unnamedField className)
  else if Text.isBlankText d.columnName then some (.blankColumn className d.name)
  else match d.length with
    | none => none
    | some n =>
      if !d.type.acceptsLength then some (.lengthNotAccepted className d.name d.type)
      else if n = 0 ∨ FieldType.maxLength < n then some (.lengthOutOfRange className d.name n)
      else none

end FieldDef

/-- Checks the fields in order; `names` are those of the fields before. -/
def checkFields (className : String) (names : List String) :
    List FieldDef → Except MappingFault Unit
  | [] => .ok ()
  | d :: rest =>
    match d.fault? className with
    | some fault => .error fault
    | none =>
      if d.name ∈ names then .error (.fieldMappedTwice className d.name)
      else checkFields className (d.name :: names) rest

def JoinTable.hasColumns (t : JoinTable) : Bool :=
  !t.joinColumns.isEmpty && !t.inverseColumns.isEmpty

/-- The fault of an association; `names` are those taken by fields and earlier associations. -/
def Association.fault? (a : Association) (className : String) (registered : String → Bool)
    (names : List String) : Option MappingFault :=
  if Text.isBlankText a.target then some (.associationWithoutTarget className a.name)
  else if !registered a.target then some (.unknownTarget className a.name a.target)
  else if a.name ∈ names then some (.nameMappedTwice className a.name)
  else if !a.isComplete then some (.incompleteAssociation a.kind className a.name)
  else match a.joinTable with
    | none => none
    | some t =>
      if t.hasColumns then none else some (.joinTableWithoutColumns className a.name t.name)

def checkAssociations (className : String) (registered : String → Bool) (names : List String) :
    List Association → Except MappingFault Unit
  | [] => .ok ()
  | a :: rest =>
    match a.fault? className registered names with
    | some fault => .error fault
    | none => checkAssociations className registered (a.name :: names) rest

namespace FieldDef

theorem nodup_of_check {className : String} {names : List String} {ds : List FieldDef}
    (h : checkFields className names ds = .ok ()) :
    (ds.map FieldDef.name).Nodup ∧ ∀ d ∈ ds, d.name ∉ names := by
  induction ds generalizing names with
  | nil => simp
  | cons d rest ih =>
    unfold checkFields at h
    split at h
    · simp at h
    · split at h
      · simp at h
      · rename_i hd
        obtain ⟨hnodup, hfree⟩ := ih h
        refine ⟨?_, fun d' hd' => ?_⟩
        · refine List.nodup_cons.mpr ⟨fun hmem => ?_, hnodup⟩
          obtain ⟨d', hd', hname⟩ := List.mem_map.mp hmem
          exact hfree d' hd' (hname ▸ List.mem_cons_self)
        · rcases List.mem_cons.mp hd' with rfl | hd'
          · exact hd
          · exact fun hmem => hfree d' hd' (List.mem_cons_of_mem _ hmem)

end FieldDef

namespace Association

theorem nodup_of_check {className : String} {registered : String → Bool} {names : List String}
    {as : List Association} (h : checkAssociations className registered names as = .ok ()) :
    (as.map Association.name).Nodup ∧ ∀ a ∈ as, a.name ∉ names := by
  induction as generalizing names with
  | nil => simp
  | cons a rest ih =>
    unfold checkAssociations at h
    split at h
    · simp at h
    · rename_i hfault
      have ha : a.name ∉ names := by
        intro hmem
        simp only [fault?, hmem, if_true] at hfault
        split at hfault
        · simp at hfault
        · split at hfault <;> simp at hfault
      obtain ⟨hnodup, hfree⟩ := ih h
      refine ⟨?_, fun a' ha' => ?_⟩
      · refine List.nodup_cons.mpr ⟨fun hmem => ?_, hnodup⟩
        obtain ⟨a', ha', hname⟩ := List.mem_map.mp hmem
        exact hfree a' ha' (hname ▸ List.mem_cons_self)
      · rcases List.mem_cons.mp ha' with rfl | ha'
        · exact ha
        · exact fun hmem => hfree a' ha' (List.mem_cons_of_mem _ hmem)

end Association

namespace Mapping

def check (m : Mapping) (className : String) (registered : String → Bool) :
    Except MappingFault Unit :=
  if m.isEntity then do
    checkFields className [] m.fields
    checkAssociations className registered (m.fields.map FieldDef.name) m.associations
  else .error (.notAnEntity className)

theorem nodup_of_check {m : Mapping} {className : String} {registered : String → Bool}
    (h : m.check className registered = .ok ()) :
    (m.fields.map FieldDef.name ++ m.associations.map Association.name).Nodup := by
  unfold check at h
  split at h
  · cases hf : checkFields className [] m.fields with
    | error e => simp [hf, bind, Except.bind] at h
    | ok u =>
      simp only [hf, bind, Except.bind] at h
      obtain ⟨hnodup, hfree⟩ := Association.nodup_of_check h
      refine List.nodup_append.mpr ⟨(FieldDef.nodup_of_check hf).1, hnodup, ?_⟩
      intro name hname other hother heq
      obtain ⟨a, ha, rfl⟩ := List.mem_map.mp hother
      exact hfree a ha (heq ▸ hname)
  · simp at h

/-- The metadata of a mapping with distinct names. The table is named after the class, in lower
case, if no name is given. -/
def toMetadata (m : Mapping) (className : String)
    (h : (m.fields.map FieldDef.name ++ m.associations.map Association.name).Nodup) : Metadata where
  className := className
  table := m.table.getD (Text.lowercase className)
  schema := m.schema
  identifiers := (m.fields.filter FieldDef.isIdentifier).map FieldDef.name
  fields := m.fields.map FieldDef.toField
  associations := m.associations
  idSource := m.idSource
  names_nodup := by
    rw [List.map_map]
    exact h
  identifiers_sublist := by
    rw [List.map_map]
    exact List.filter_sublist.map FieldDef.name

def build (m : Mapping) (className : String) (registered : String → Bool) :
    Except Error Metadata :=
  match h : m.check className registered with
  | .ok () => .ok (m.toMetadata className (nodup_of_check h))
  | .error fault => .error (.mapping fault)

end Mapping
end Persistence.Schema
