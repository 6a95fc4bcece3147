import Persistence.Proofs.Refreshing

/-!
Hydration and extraction. A row tells of a field if it has a column of the field's name, in any
case. What was extracted from an instance is back on a new one once a row that tells of every field
has been written to it, and a field that the row does not tell of stays as a new instance has it.
-/

namespace Persistence

open Schema (Metadata Field)

theorem Text.sameName_trans {a b c : String} (h : sameName a b = true) (h' : sameName b c = true) :
    sameName a c = true := by
  rw [sameName_iff] at h h' ⊢
  exact h.trans h'

namespace Row

variable {row : Row} {column : String} {v : Value}

/-- No two columns have the same name, in any case. -/
def Distinct (row : Row) : Prop := (row.columns.toList.map fun e => Text.asciiLower e.1).Nodup

instance : Decidable row.Distinct := inferInstanceAs (Decidable (List.Nodup _))

/-- The row has the value in a column of that name, in any case. -/
def Tells (row : Row) (column : String) (v : Value) : Prop :=
  ∃ c, Text.sameName c column = true ∧ (c, v) ∈ row.columns.toList

/-- The row has no column of that name, in any case. -/
def Lacks (row : Row) (column : String) : Prop :=
  ∀ e ∈ row.columns.toList, Text.sameName e.1 column = false

instance : Decidable (row.Tells column v) :=
  decidable_of_iff (∃ e ∈ row.columns.toList, Text.sameName e.1 column = true ∧ e.2 = v)
    ⟨fun ⟨e, he, hsame, hv⟩ => ⟨e.1, hsame, hv ▸ he⟩, fun ⟨c, hsame, hc⟩ => ⟨(c, v), hc, hsame, rfl⟩⟩

instance : Decidable (row.Lacks column) := inferInstanceAs (Decidable (∀ e ∈ row.columns.toList, _))

theorem Distinct.eq_of_sameName (h : row.Distinct) {e e' : String × Value}
    (he : e ∈ row.columns.toList) (he' : e' ∈ row.columns.toList)
    (hsame : Text.sameName e.1 e'.1 = true) : e = e' := by
  refine eq_of_key_eq h he he' ?_
  rw [Text.asciiLower, Text.asciiLower, Text.sameName_iff.mp hsame]

theorem get?_of_tells (hd : row.Distinct) (h : row.Tells column v) : row.get? column = some v := by
  obtain ⟨c, hc, hmem⟩ := h
  rw [get?]
  cases hexact : row.columns.get? column with
  | some w =>
    have hw := (OrderedMap.get?_eq_some_iff _ _ _).mp hexact
    have := hd.eq_of_sameName hmem hw hc
    rw [Option.some_or, (Prod.mk.inj this).2]
  | none =>
    rw [Option.none_or]
    cases hfind : row.columns.toList.find? fun e => Text.sameName e.1 column with
    | none => simpa [hc] using List.find?_eq_none.mp hfind _ hmem
    | some e =>
      have hsame := List.find?_some hfind
      rw [Text.sameName_comm] at hsame
      have := hd.eq_of_sameName hmem (List.mem_of_find?_eq_some hfind) (Text.sameName_trans hc hsame)
      rw [← this]
      rfl

theorem get?_of_lacks (h : row.Lacks column) : row.get? column = none := by
  have hexact : row.columns.get? column = none := by
    cases hw : row.columns.get? column with
    | none => rfl
    | some w => simpa using h _ ((OrderedMap.get?_eq_some_iff _ _ _).mp hw)
  rw [get?, hexact, Option.none_or, List.find?_eq_none.mpr fun e he => by simp [h e he]]
  rfl

end Row

namespace Instance

theorem Suits.coerce_read {x : Instance} {f : Field} (h : x.Suits f) :
    f.type.coerce (x.read f.accessor.slot) = .ok (x.read f.accessor.slot) := by
  obtain ⟨storage, hstorage, hsuits⟩ := h
  rw [storages, List.getElem?_map, Option.map_eq_some_iff] at hstorage
  obtain ⟨s, hs, rfl⟩ := hstorage
  rw [read, hs]
  exact hsuits.coerce_eq s.valid

end Instance

section Fields

variable {e x : Instance} {row : Row} {f : Field} {fs : List Field}

/-- A field that is not nullable refuses the null of an instance. -/
def Schema.Field.Refuses (e : Instance) (f : Field) : Prop :=
  f.nullable = false ∧ e.read f.accessor.slot = .null

/-- Where the null of one instance is refused the other one is null as well. -/
def Schema.Field.Unharmed (e x : Instance) (f : Field) : Prop :=
  f.Refuses e → x.read f.accessor.slot = .null

/-- The row has a column for the field, and its value is not refused. -/
def Schema.Field.TakesFrom (row : Row) (e : Instance) (f : Field) : Prop :=
  row.get? f.column ≠ none ∧ ¬ f.Refuses e

theorem Schema.Field.run_hydrate_skipped (className : String)
    (hrow : row.get? f.column = some (e.read f.accessor.slot) ∨ row.get? f.column = none)
    (h : ¬ f.TakesFrom row e) : (f.hydrate className row).run x = (.ok ⟨⟩, x) := by
  rw [Field.hydrate]
  rcases hrow with hsome | hnone
  · have hrefuses : f.Refuses e := by
      by_contra htakes
      exact h ⟨by simp [hsome], htakes⟩
    rw [hsome]
    dsimp only
    rw [if_pos ⟨hrefuses.2, hrefuses.1⟩]
    rfl
  · rw [hnone]
    rfl

theorem Schema.Field.run_hydrate_taken (className : String)
    (hrow : row.get? f.column = some (e.read f.accessor.slot) ∨ row.get? f.column = none)
    (h : f.TakesFrom row e) (howner : f.accessor.owner = e.type) (hsuits : e.Suits f)
    (htype : x.type = e.type) (hstorages : x.storages = e.storages) :
    ∃ y, (f.hydrate className row).run x = (.ok ⟨⟩, y) ∧
      y.type = e.type ∧ y.storages = e.storages ∧
      y.read f.accessor.slot = e.read f.accessor.slot ∧
      ∀ i, i ≠ f.accessor.slot → y.read i = x.read i := by
  obtain ⟨y, hy⟩ := Instance.write_read hstorages f.accessor.slot
  obtain ⟨hy', hread, hothers⟩ := Instance.of_write hy
  rw [Instance.hold_read_of_storages hstorages] at hread
  refine ⟨y, ?_, (Instance.type_write hy).trans htype, hy'.trans hstorages, hread, hothers⟩
  rw [Field.hydrate, hrow.resolve_right h.1]
  dsimp only
  rw [if_neg fun hskip => h.2 hskip.symm, Action.run_get_bind, hsuits.coerce_read]
  simp only [bind, Except.bind, Accessor.set, if_pos (htype.trans howner.symm), hy]
  rfl

theorem Schema.run_hydrate (className : String) (hfor : ∀ f ∈ fs, f.accessor.owner = e.type)
    (hsuits : ∀ f ∈ fs, e.Suits f)
    (hrow : ∀ f ∈ fs, row.get? f.column = some (e.read f.accessor.slot) ∨ row.get? f.column = none)
    (htype : x.type = e.type) (hstorages : x.storages = e.storages) :
    ∃ y, (fs.forM fun f => f.hydrate className row).run x = (.ok ⟨⟩, y) ∧ y.type = e.type ∧
      (∀ i, (x.read i = e.read i ∨ ∃ f ∈ fs, f.TakesFrom row e ∧ f.accessor.slot = i) →
        y.read i = e.read i) ∧
      ∀ i, (∀ f ∈ fs, f.accessor.slot = i → ¬ f.TakesFrom row e) → y.read i = x.read i := by
  induction fs generalizing x with
  | nil => exact ⟨x, rfl, htype, by simp, by simp⟩
  | cons f rest ih =>
    obtain ⟨hf, hfor⟩ := List.forall_mem_cons.mp hfor
    obtain ⟨hfsuits, hsuits⟩ := List.forall_mem_cons.mp hsuits
    obtain ⟨hfrow, hrow⟩ := List.forall_mem_cons.mp hrow
    by_cases htakes : f.TakesFrom row e
    · obtain ⟨y, hy, hytype, hystorages, hread, hothers⟩ :=
        Field.run_hydrate_taken className hfrow htakes hf hfsuits htype hstorages
      obtain ⟨z, hz, hztype, htold, hkept⟩ := ih hfor hsuits hrow hytype hystorages
      refine ⟨z, (Action.run_bind_of_ok hy _).trans hz, hztype, fun i hi => htold i ?_,
        fun i hi => ?_⟩
      · rw [List.exists_mem_cons_iff] at hi
        by_cases hslot : f.accessor.slot = i
        · exact .inl (hslot ▸ hread)
        · rcases hi with hi | ⟨-, hfslot⟩ | hi
          · exact .inl ((hothers i (Ne.symm hslot)).trans hi)
          · exact absurd hfslot hslot
          · exact .inr hi
      · obtain ⟨hfi, hrest⟩ := List.forall_mem_cons.mp hi
        rw [hkept i hrest, hothers i fun hslot => hfi hslot.symm htakes]
    · obtain ⟨z, hz, hztype, htold, hkept⟩ := ih hfor hsuits hrow htype hstorages
      have hskip := Field.run_hydrate_skipped (x := x) className hfrow htakes
      refine ⟨z, (Action.run_bind_of_ok hskip _).trans hz, hztype, fun i hi => htold i ?_,
        fun i hi => hkept i (List.forall_mem_cons.mp hi).2⟩
      rw [List.exists_mem_cons_iff] at hi
      exact hi.imp_right fun hi => hi.resolve_left fun hfi => htakes hfi.1

end Fields

namespace Schema.Metadata

variable {m : Metadata} {e x : Instance} {row : Row}

/-- A row has values of one instance, as far as it has columns for the fields, and another instance
of the same type is there to get them. -/
structure Offers (m : Metadata) (row : Row) (e x : Instance) : Prop where
  type : x.type = e.type
  storages : x.storages = e.storages
  owner : m.For e.type
  suits : ∀ f ∈ m.fields, e.Suits f
  distinct : row.Distinct
  columns : ∀ f ∈ m.fields, row.Tells f.column (e.read f.accessor.slot) ∨ row.Lacks f.column

/-- A row with values of an instance can be given to a new one. If it has a column for every field,
and the new instance is null wherever a null is refused, both are extracted to the same. A field
that the row has no column for, or no value that is taken, is as it was if it has a slot of its
own. -/
theorem extract_hydrate (h : m.Offers row e x) :
    ∃ y, (m.hydrate row).run x = (.ok ⟨⟩, y) ∧
      ((∀ f ∈ m.fields, ¬ row.Lacks f.column ∧ f.Unharmed e x) →
        ∃ values, m.extract e = .ok values ∧ m.extract y = .ok values) ∧
      ∀ f ∈ m.fields,
        (¬ row.Lacks f.column → f.Unharmed e x → f.accessor.get y = f.accessor.get e) ∧
        (row.Lacks f.column ∨ f.Refuses e → f.OwnSlot m.fields →
          f.accessor.get y = f.accessor.get x) := by
  have hget : ∀ f ∈ m.fields, row.get? f.column = some (e.read f.accessor.slot) ∨
      row.get? f.column = none :=
    fun f hf => (h.columns f hf).imp (Row.get?_of_tells h.distinct) Row.get?_of_lacks
  obtain ⟨y, hy, htype, htold, hkept⟩ :=
    run_hydrate m.className h.owner h.suits hget h.type h.storages
  have hread : ∀ f ∈ m.fields, ¬ row.Lacks f.column → f.Unharmed e x →
      y.read f.accessor.slot = e.read f.accessor.slot := by
    intro f hf htells hunharmed
    refine htold _ ?_
    by_cases hrefuses : f.Refuses e
    · exact .inl ((hunharmed hrefuses).trans hrefuses.2.symm)
    · have hsome := Row.get?_of_tells h.distinct ((h.columns f hf).resolve_right htells)
      exact .inr ⟨f, hf, ⟨by simp [hsome], hrefuses⟩, rfl⟩
  refine ⟨y, hy, fun hall => ?_, fun f hf => ⟨fun htells hunharmed => ?_, fun hskips hown => ?_⟩⟩
  · refine ⟨_, readFields_of_owner h.owner, ?_⟩
    rw [extract, readFields_of_owner fun f hf => (h.owner f hf).trans htype.symm]
    refine congrArg Except.ok (List.map_congr_left fun f hf => ?_)
    rw [hread f hf (hall f hf).1 (hall f hf).2]
  · rw [Accessor.get, Accessor.get, htype, hread f hf htells hunharmed]
  · have hslot : y.read f.accessor.slot = x.read f.accessor.slot := by
      refine hkept _ fun g hg hslot => ?_
      rw [hown g hg hslot]
      rintro ⟨hsome, htakes⟩
      rcases hskips with hlacks | hrefuses
      · exact hsome (Row.get?_of_lacks hlacks)
      · exact htakes hrefuses
    rw [Accessor.get, Accessor.get, htype, h.type, hslot]

section Samples

open Sample

def newcomer : Instance := ⟨user, userSlots none "ann"⟩

def guest : Instance := ⟨user, userSlots none "guest"⟩

def shouted : Row := .ofList [("AGE", .int 30), ("NAME", .text "ann"), ("Id", .null)]

def nameless : Row := .ofList [("ID", .null)]

theorem suits_newcomer : ∀ f ∈ userMetadata.fields, newcomer.Suits f := by
  intro f hf
  rcases List.mem_pair.mp hf with rfl | rfl
  · exact ⟨⟨.int64, true⟩, rfl, rfl⟩
  · exact ⟨⟨.text, false⟩, rfl, rfl⟩

theorem extract_hydrate_newcomer :
    (∃ y, (userMetadata.hydrate shouted).run guest = (.ok ⟨⟩, y) ∧
      ∃ values, userMetadata.extract newcomer = .ok values ∧ userMetadata.extract y = .ok values) ∧
    ∃ y, (userMetadata.hydrate nameless).run guest = (.ok ⟨⟩, y) ∧
      ∃ f, userMetadata.field? "name" = some f ∧ f.accessor.get y = .ok (.text "guest") := by
  have howner : userMetadata.For newcomer.type := by
    unfold For
    decide
  have hshouted : userMetadata.Offers shouted newcomer guest :=
    ⟨rfl, rfl, howner, suits_newcomer, by decide +kernel, by decide +kernel⟩
  have hnameless : userMetadata.Offers nameless newcomer guest :=
    ⟨rfl, rfl, howner, suits_newcomer, by decide +kernel, by decide +kernel⟩
  obtain ⟨y, hy, hall, -⟩ := extract_hydrate hshouted
  obtain ⟨z, hz, -, hz'⟩ := extract_hydrate hnameless
  have hname : ∃ f, userMetadata.field? "name" = some f ∧ nameless.Lacks f.column ∧
      f.accessor.get guest = .ok (.text "guest") := ⟨_, rfl, by decide +kernel, rfl⟩
  obtain ⟨f, hf, hlacks, hdefault⟩ := hname
  have hmem := (field?_eq_some_iff.mp hf).1
  have hown : f.OwnSlot userMetadata.fields := fun g hg hslot =>
    eq_of_key_eq (by decide : (userMetadata.fields.map fun f => f.accessor.slot).Nodup) hg hmem hslot
  refine ⟨⟨y, hy, hall ?_⟩, z, hz, f, hf, ((hz' f hmem).2 (.inl hlacks) hown).trans hdefault⟩
  unfold Field.Unharmed Field.Refuses
  decide +kernel

def optionalUser (name : Value) (h : (⟨.text, true⟩ : Storage).convert name = .ok name) : Instance :=
  ⟨user, [.initial "id" ⟨.int64, true⟩, ⟨"name", ⟨.text, true⟩, name, h⟩]⟩

def nobody : Instance := optionalUser .null rfl

def somebody : Instance := optionalUser (.text "guest") rfl

def anonymous : Row := .ofList [("id", .null), ("name", .null)]

def twinMetadata : Metadata :=
  Mapping.toMetadata
    { isEntity := true
      fields :=
        [{ name := "id", type := .integer, accessor := ⟨user, 0⟩, isIdentifier := true },
         { name := "name", type := .string, accessor := ⟨user, 1⟩ },
         { name := "alias", type := .string, accessor := ⟨user, 1⟩ }] }
    "User" (by decide)

def named : Row := .ofList [("id", .null), ("name", .text "ann")]

/-- A null that is refused leaves the default, and a field that the row has no column for does not
keep it if it shares its slot with one that the row has a value for. -/
theorem not_extract_hydrate :
    (userMetadata.Offers anonymous nobody somebody ∧
      (∀ f ∈ userMetadata.fields, ¬ anonymous.Lacks f.column) ∧
      ∃ y, (userMetadata.hydrate anonymous).run somebody = (.ok ⟨⟩, y) ∧
        (userMetadata.extract y).toOption ≠ (userMetadata.extract nobody).toOption) ∧
    twinMetadata.Offers named newcomer guest ∧
      ∃ f ∈ twinMetadata.fields, named.Lacks f.column ∧
        ∃ y, (twinMetadata.hydrate named).run guest = (.ok ⟨⟩, y) ∧
          (f.accessor.get y).toOption ≠ (f.accessor.get guest).toOption := by
  refine ⟨⟨⟨rfl, rfl, ?_, ?_, by decide +kernel, by decide +kernel⟩, by decide +kernel, _,
    Action.run_eq_of_fst (by decide +kernel), by decide +kernel⟩,
    ⟨rfl, rfl, ?_, ?_, by decide +kernel, by decide +kernel⟩, ?_⟩
  · unfold For
    decide
  · intro f hf
    rcases List.mem_pair.mp hf with rfl | rfl
    · exact ⟨⟨.int64, true⟩, rfl, rfl⟩
    · exact ⟨⟨.text, true⟩, rfl, rfl⟩
  · unfold For
    decide
  · have hslots : ∀ f ∈ twinMetadata.fields, (f.accessor.slot = 0 ∧ f.type = .integer) ∨
        f.accessor.slot = 1 ∧ f.type = .string := by decide
    intro f hf
    rw [Instance.Suits]
    obtain ⟨hslot, htype⟩ | ⟨hslot, htype⟩ := hslots f hf
    · rw [hslot, htype]
      exact ⟨⟨.int64, true⟩, rfl, rfl⟩
    · rw [hslot, htype]
      exact ⟨⟨.text, false⟩, rfl, rfl⟩
  · obtain ⟨f, hf, hcolumn, haccessor⟩ : ∃ f ∈ twinMetadata.fields,
        f.column = "alias" ∧ f.accessor = ⟨user, 1⟩ := by decide
    have hlacks : named.Lacks "alias" := by decide +kernel
    refine ⟨f, hf, hcolumn ▸ hlacks, _, Action.run_eq_of_fst (by decide +kernel), ?_⟩
    rw [haccessor]
    decide +kernel

end Samples

end Schema.Metadata
end Persistence
