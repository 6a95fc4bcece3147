import Persistence.Proofs.Keys
import Persistence.Proofs.Sample

/-!
Which identifiers stand for the same key. An identifier, like the values of an instance, gives a
value to each identifier field, and the key is told by what these values are coerced to. Neither
the form of an identifier nor the order in which it is written is of account.
-/

namespace Persistence

open Schema (Metadata Snapshot Field FieldType)

namespace OrderedMap

variable {κ α : Type}

/-- The entries whose keys pass a test, in their order. -/
def restrict (m : OrderedMap κ α) (p : κ → Bool) : OrderedMap κ α :=
  ⟨m.toList.filter fun e => p e.1, (List.filter_sublist.map Prod.fst).nodup m.nodup⟩

theorem keys_perm {m n : OrderedMap κ α} (h : m.toList.Perm n.toList) : m.keys.Perm n.keys :=
  h.map Prod.fst

theorem mem_keys_restrict {m : OrderedMap κ α} {p : κ → Bool} {k : κ} :
    k ∈ (m.restrict p).keys ↔ k ∈ m.keys ∧ p k := by
  simp only [keys, restrict, List.mem_map, List.mem_filter]
  constructor
  · rintro ⟨e, ⟨he, hp⟩, rfl⟩
    exact ⟨⟨e, he, rfl⟩, hp⟩
  · rintro ⟨⟨e, he, rfl⟩, hp⟩
    exact ⟨e, ⟨he, hp⟩, rfl⟩

variable [DecidableEq κ]

theorem get?_eq_of_perm {m n : OrderedMap κ α} (h : m.toList.Perm n.toList) (k : κ) :
    m.get? k = n.get? k :=
  Option.ext fun v => by rw [get?_eq_some_iff, get?_eq_some_iff, h.mem_iff]

theorem get?_restrict (m : OrderedMap κ α) {p : κ → Bool} {k : κ} (hk : p k) :
    (m.restrict p).get? k = m.get? k :=
  Option.ext fun v => by simp [get?_eq_some_iff, restrict, hk]

end OrderedMap

namespace Identifier

variable {m : Metadata} {k : IdentityKey} {f : Field}

/-- The value an identifier gives to a field. A single value is for the one identifier field. -/
def value? : Identifier → String → Option Value
  | scalar v, _ => some v
  | composite values, name => values.get? name

/-- What the value for a field is coerced to. -/
def coerced? (id : Identifier) (f : Field) : Option Value :=
  (id.value? f.name).bind fun v => (f.type.coerce v).toOption

end Identifier

namespace IdentityKey

variable {m : Metadata} {k k' : IdentityKey} {f : Field} {id : Identifier}

theorem coerceField_eq_ok_iff (hf : f ∈ m.fields) {u v : Value} :
    coerceField m f.name u = .ok v ↔ u.isBlank = false ∧ f.type.coerce u = .ok v := by
  rw [coerceField, Metadata.field?_eq_some_iff.mpr ⟨hf, rfl⟩]
  cases hu : u.isBlank
  · cases hv : f.type.coerce u <;> simp [hv]
  · simp

theorem Belongs.eq_of_get?_eq (h : k.Belongs m) (h' : k'.Belongs m)
    (heq : ∀ name ∈ m.identifiers, k.get? name = k'.get? name) : k = k' :=
  h.eq_of_conditions_eq h' <| List.map_congr_left fun f hf => by
    rw [heq f.name (Metadata.mem_identifierFields.mp hf).2]

theorem get?_coerced {pick : String → Except Error Value} {es : List (String × Value)}
    (h : collect m pick m.identifiers = .ok es) {name : String} (hname : name ∈ m.identifiers) :
    ∃ u, (ofFields m.className es).get? name = some u ∧
      (pick name >>= coerceField m name) = .ok u := by
  obtain ⟨hall, rfl⟩ := collect_eq h
  exact ⟨_, get?_ofFields _ (m.identifiers_sublist.nodup m.fieldNames_nodup) hname,
    hall name hname⟩

theorem requireIdentifiers_eq_ok_iff : m.requireIdentifiers = .ok () ↔ m.identifiers ≠ [] := by
  unfold Metadata.requireIdentifiers
  cases m.identifiers <;> simp

theorem spells_of_ofIdentifier (h : ofIdentifier m id = .ok k) : Spells m k id := by
  have hr := requireIdentifiers_eq_ok_iff.mp (ofIdentifier_eq_ok h).1
  simp only [ofIdentifier, requireIdentifiers_eq_ok_iff.mpr hr, bind, Except.bind, pure,
    Except.pure] at h
  cases id with
  | scalar v =>
    dsimp only at h
    split at h
    · simp at h
    · rename_i hsingle
      split at h
      · simp at h
      · rename_i es hc
        obtain ⟨name, hname⟩ : ∃ name, m.identifiers = [name] := by
          refine List.length_eq_one_iff.mp ?_
          have hpos := List.length_pos_iff.mpr hr
          simp only [Metadata.isComposite, decide_eq_true_eq] at hsingle
          omega
        obtain ⟨u, hu, hv⟩ := get?_coerced hc (show name ∈ m.identifiers by simp [hname])
        exact ⟨name, u, hname, by rw [← Except.ok.inj h, hu], hv⟩
  | composite values =>
    dsimp only at h
    split at h
    · simp at h
    · rename_i hextra
      split at h
      · simp at h
      · rename_i es hc
        have hvalue : ∀ name ∈ m.identifiers, ∃ v u, values.get? name = some v ∧
            k.get? name = some u ∧ coerceField m name v = .ok u := by
          intro name hname
          obtain ⟨u, hu, hv⟩ := get?_coerced hc hname
          cases hget : values.get? name with
          | none => simp [hget, bind, Except.bind] at hv
          | some v =>
            rw [hget] at hv
            exact ⟨v, u, rfl, by rw [← Except.ok.inj h, hu], hv⟩
        have hnames : ∀ name, name ∈ values.keys → name ∈ m.identifiers := by
          intro name hname
          simpa [Metadata.isIdentifier] using List.find?_eq_none.mp hextra name hname
        refine ⟨fun name => ⟨hnames name, fun hname => ?_⟩, fun name v hv => ?_⟩
        · obtain ⟨v, -, hv, -⟩ := hvalue name hname
          exact (values.get?_isSome_iff name).mp (by simp [hv])
        · have hname := hnames name ((values.get?_isSome_iff name).mp (by simp [hv]))
          obtain ⟨v', u, hv', hu, hcoerce⟩ := hvalue name hname
          rw [hv] at hv'
          exact ⟨u, hu, Option.some.inj hv' ▸ hcoerce⟩

theorem ofIdentifier_eq_ok_iff :
    ofIdentifier m id = .ok k ↔ m.identifiers ≠ [] ∧ k.Belongs m ∧ Spells m k id :=
  ⟨fun h => ⟨requireIdentifiers_eq_ok_iff.mp (ofIdentifier_eq_ok h).1,
      belongs_of_ofIdentifier h, spells_of_ofIdentifier h⟩,
    fun ⟨hne, hb, hs⟩ => ofIdentifier_of_spells hb hne hs⟩

theorem ofSnapshot_eq_ok_iff {s : Snapshot} :
    ofSnapshot m s = .ok k ↔ m.identifiers ≠ [] ∧ k.Belongs m ∧ ∀ name ∈ m.identifiers,
      ∃ u, k.get? name = some u ∧ coerceField m name (snapshotValue s name) = .ok u := by
  constructor
  · intro h
    obtain ⟨hr, es, hc, rfl⟩ := ofSnapshot_eq_ok h
    exact ⟨requireIdentifiers_eq_ok_iff.mp hr, belongs_of_collect hc,
      fun name hname => get?_coerced hc hname⟩
  · rintro ⟨hne, hb, hall⟩
    obtain ⟨value, rfl⟩ := hb
    have hn : m.identifiers.Nodup := m.identifiers_sublist.nodup m.fieldNames_nodup
    rw [ofSnapshot, requireIdentifiers_eq_ok_iff.mpr hne, collect_of_coerced value]
    · rfl
    · intro name hname
      obtain ⟨u, hu, hv⟩ := hall name hname
      rw [get?_ofFields value hn hname] at hu
      exact hv.trans (congrArg _ (Option.some.inj hu).symm)

theorem Belongs.exists_get? (hb : k.Belongs m) {name : String} (hname : name ∈ m.identifiers) :
    ∃ u, k.get? name = some u := by
  obtain ⟨value, rfl⟩ := hb
  exact ⟨_, get?_ofFields value (m.identifiers_sublist.nodup m.fieldNames_nodup) hname⟩

def MadeOf (m : Metadata) (raw : String → Option Value) (k : IdentityKey) : Prop :=
  ∀ name ∈ m.identifiers, ∃ u v, raw name = some u ∧ k.get? name = some v ∧
    coerceField m name u = .ok v

theorem Spells.madeOf (h : Spells m k id) : MadeOf m id.value? k := by
  intro name hname
  cases id with
  | scalar u =>
    obtain ⟨only, v, hids, hv, hu⟩ := h
    obtain rfl : name = only := by simpa [hids] using hname
    exact ⟨u, v, rfl, hv, hu⟩
  | composite values =>
    obtain ⟨u, hu⟩ := Option.isSome_iff_exists.mp
      ((values.get?_isSome_iff name).mpr ((h.1 name).mpr hname))
    obtain ⟨v, hv, hcoerced⟩ := h.2 name u hu
    exact ⟨u, v, hu, hv, hcoerced⟩

theorem madeOf_of_ofSnapshot {s : Snapshot} (h : ofSnapshot m s = .ok k) :
    MadeOf m (fun name => some (snapshotValue s name)) k := by
  intro name hname
  obtain ⟨v, hv, hcoerced⟩ := (ofSnapshot_eq_ok_iff.mp h).2.2 name hname
  exact ⟨_, v, rfl, hv, hcoerced⟩

theorem Spells.coerced?_eq (h : Spells m k id) (hf : f ∈ m.identifierFields) :
    id.coerced? f = k.get? f.name := by
  obtain ⟨hmem, hname⟩ := Metadata.mem_identifierFields.mp hf
  obtain ⟨u, v, hu, hv, hcoerced⟩ := h.madeOf f.name hname
  have hcoerce := ((coerceField_eq_ok_iff hmem).mp hcoerced).2
  simp [Identifier.coerced?, hu, hcoerce, Except.toOption, hv]

/-- Two requests for a key are answered with the same one, or are both refused. -/
def SameKey (a b : Except Error IdentityKey) : Prop := ∀ k, a = .ok k ↔ b = .ok k

theorem sameKey_of_perm {values values' : OrderedMap String Value}
    (h : values.toList.Perm values'.toList) :
    SameKey (ofIdentifier m (.composite values)) (ofIdentifier m (.composite values')) := by
  intro k
  rw [ofIdentifier_eq_ok_iff, ofIdentifier_eq_ok_iff]
  simp only [Spells, OrderedMap.get?_eq_of_perm h, (OrderedMap.keys_perm h).mem_iff]

theorem ofIdentifier_scalar {name : String} (h : m.identifiers = [name]) (v : Value) :
    ofIdentifier m (.scalar v) = ofIdentifier m (.composite (.ofList [(name, v)])) := by
  have hsingle : m.isComposite = false := by simp [Metadata.isComposite, h]
  have hextra : ((OrderedMap.ofList [(name, v)]).keys.find? fun name => !m.isIdentifier name) =
      none := by
    simp [OrderedMap.ofList, OrderedMap.keys_insert, Metadata.isIdentifier, h]
  simp only [ofIdentifier, hsingle, hextra, Bool.false_eq_true, if_false]
  rw [collect_congr fun other hother => ?_]
  obtain rfl : other = name := by simpa [h] using hother
  simp [OrderedMap.ofList, OrderedMap.get?_insert]

theorem sameKey_restrict (s : OrderedMap String Value) :
    SameKey (ofSnapshot m s.toList) (ofIdentifier m (.composite (s.restrict m.isIdentifier))) := by
  intro k
  have his (name : String) : m.isIdentifier name ↔ name ∈ m.identifiers := by
    simp [Metadata.isIdentifier]
  rw [ofSnapshot_eq_ok_iff, ofIdentifier_eq_ok_iff]
  refine and_congr_right fun _ => and_congr_right fun _ => ⟨fun h => ⟨fun name => ?_, ?_⟩, ?_⟩
  · rw [OrderedMap.mem_keys_restrict, his]
    refine ⟨And.right, fun hname => ⟨?_, hname⟩⟩
    -- A field that the values lack would be null, which is refused.
    obtain ⟨u, -, hu⟩ := h name hname
    rw [← s.get?_isSome_iff]
    cases hget : s.get? name with
    | some v => rfl
    | none =>
      have hnull : snapshotValue s.toList name = .null := by
        rw [snapshotValue, show lookupEntry name s.toList = none from hget, Option.getD_none]
      simp [hnull, coerceField, Value.isBlank] at hu
  · intro name v hv
    have hname : name ∈ m.identifiers :=
      (his name).mp (OrderedMap.mem_keys_restrict.mp
        (((s.restrict _).get?_isSome_iff name).mp (by simp [hv]))).2
    rw [OrderedMap.get?_restrict s ((his name).mpr hname)] at hv
    obtain ⟨u, hu, hcoerced⟩ := h name hname
    rw [snapshotValue, show lookupEntry name s.toList = some v from hv] at hcoerced
    exact ⟨u, hu, hcoerced⟩
  · rintro ⟨hnames, hvalues⟩ name hname
    obtain ⟨v, hv⟩ := Option.isSome_iff_exists.mp
      (((s.restrict m.isIdentifier).get?_isSome_iff name).mpr ((hnames name).mpr hname))
    obtain ⟨u, hu, hcoerced⟩ := hvalues name v hv
    rw [OrderedMap.get?_restrict s ((his name).mpr hname)] at hv
    rw [snapshotValue, show lookupEntry name s.toList = some v from hv]
    exact ⟨u, hu, hcoerced⟩

theorem eq_iff_coerced?_eq {id' : Identifier} (h : ofIdentifier m id = .ok k)
    (h' : ofIdentifier m id' = .ok k') :
    k = k' ↔ ∀ f ∈ m.identifierFields, id.coerced? f = id'.coerced? f := by
  obtain ⟨-, hb, hs⟩ := ofIdentifier_eq_ok_iff.mp h
  obtain ⟨-, hb', hs'⟩ := ofIdentifier_eq_ok_iff.mp h'
  constructor
  · rintro rfl f hf
    rw [hs.coerced?_eq hf, hs'.coerced?_eq hf]
  · intro heq
    refine hb.eq_of_get?_eq hb' fun name hname => ?_
    obtain ⟨f, hf, rfl⟩ := Metadata.exists_identifierField hname
    rw [← hs.coerced?_eq hf, ← hs'.coerced?_eq hf, heq f hf]

theorem conditions_of_ofIdentifier (h : ofIdentifier m id = .ok k) :
    (∀ f ∈ m.identifierFields, (id.coerced? f).isSome) ∧
      k.conditions m = m.identifierFields.map fun f => (f.column, (id.coerced? f).getD .null) := by
  obtain ⟨-, hb, hs⟩ := ofIdentifier_eq_ok_iff.mp h
  refine ⟨fun f hf => ?_, List.map_congr_left fun f hf => by rw [hs.coerced?_eq hf]⟩
  obtain ⟨u, hu⟩ := hb.exists_get? (Metadata.mem_identifierFields.mp hf).2
  rw [hs.coerced?_eq hf, hu]
  rfl

/-- A key is told by what the values of its identifier fields are coerced to, and by nothing else:
neither the order of a composite identifier nor the form of a single value is of account, and the
values of an instance count as their identifier fields do. The condition on a row has each
identifier field once, in the order of declaration. -/
theorem key_of_values (m : Metadata) :
    (∀ values values' : OrderedMap String Value, values.toList.Perm values'.toList →
      SameKey (ofIdentifier m (.composite values)) (ofIdentifier m (.composite values'))) ∧
    (∀ name v, m.identifiers = [name] →
      ofIdentifier m (.scalar v) = ofIdentifier m (.composite (.ofList [(name, v)]))) ∧
    (∀ s : OrderedMap String Value, SameKey (ofSnapshot m s.toList)
      (ofIdentifier m (.composite (s.restrict m.isIdentifier)))) ∧
    (∀ id id' k k', ofIdentifier m id = .ok k → ofIdentifier m id' = .ok k' →
      (k = k' ↔ ∀ f ∈ m.identifierFields, id.coerced? f = id'.coerced? f)) ∧
    ∀ id k, ofIdentifier m id = .ok k →
      (∀ f ∈ m.identifierFields, (id.coerced? f).isSome) ∧
        k.conditions m = (m.fields.filter fun f => m.isIdentifier f.name).map
          fun f => (f.column, (id.coerced? f).getD .null) := by
  refine ⟨fun _ _ h => sameKey_of_perm h, fun _ v h => ofIdentifier_scalar h v, sameKey_restrict,
    fun _ _ _ _ h h' => eq_iff_coerced?_eq h h', fun id k h => ?_⟩
  rw [← Metadata.identifierFields_eq]
  exact conditions_of_ofIdentifier h

theorem key_of_values_enrolment : ∃ k,
    ofIdentifier Sample.enrolmentMetadata
      (.composite (.ofList [("course", .text "logic"), ("student", .text "7")])) = .ok k ∧
    ofSnapshot Sample.enrolmentMetadata
      [("student", .int 7), ("grade", .null), ("course", .text "logic")] = .ok k ∧
    k.conditions Sample.enrolmentMetadata =
      [("student_no", .int 7), ("course", .text "logic")] := by
  obtain ⟨hperm, -, hrestrict, -, hconditions⟩ := key_of_values Sample.enrolmentMetadata
  let key := ofFields "Enrolment" [("student", .int 7), ("course", .text "logic")]
  have htext : ofIdentifier Sample.enrolmentMetadata
      (.composite (.ofList [("student", .text "7"), ("course", .text "logic")])) = .ok key := rfl
  have hint : ofIdentifier Sample.enrolmentMetadata
      (.composite (.ofList [("student", .int 7), ("course", .text "logic")])) = .ok key := rfl
  refine ⟨key, (hperm _ _ (List.Perm.swap _ _ _) key).mpr htext, ?_, (hconditions _ key hint).2⟩
  exact (hrestrict (.ofList [("student", .int 7), ("grade", .null), ("course", .text "logic")])
    key).mpr hint

end IdentityKey
end Persistence
