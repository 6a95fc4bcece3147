import Persistence.Proofs.Spellings

/-!
Keys as identifiers. No value of a key is null, but the check that a value is not blank is made
before the value is coerced. Bytes of length zero pass it, and for a text field they become the
empty text: such a key is refused as an identifier. Every other key stands for itself.
-/

namespace Persistence

open Schema (Metadata Snapshot Field FieldType)

theorem Double.positional_ne_nil (c : Nat) (q : Int) : positional c q ≠ [] := by
  unfold positional
  dsimp only
  split <;> simp [Nat.toDigits_ne_nil]

theorem Double.text_ne_empty (x : Double) : x.text ≠ "" := by
  have hsigned {cs : List Char} (h : cs ≠ []) :
      String.ofList (if x.isNegative then '-' :: cs else cs) ≠ "" := by
    split <;> simp [h]
  unfold text
  cases x.shape with
  | nan => simp
  | infinite => exact hsigned (by simp)
  | finite m e =>
    cases m with
    | zero => exact hsigned (by simp)
    | succ m => exact hsigned (positional_ne_nil _ _)

namespace Value

theorem isBlank_eq_false_iff {v : Value} : v.isBlank = false ↔ v ≠ .null ∧ v ≠ .text "" := by
  cases v <;> simp [isBlank]

theorem display_ne_empty {v : Value} (hv : v.isBlank = false) : v.display ≠ "" := by
  cases v with
  | bool b => cases b <;> decide
  | int n =>
    change n.toInt.repr ≠ ""
    cases n.toInt with
    | ofNat n => exact Nat.repr_ne_empty
    | negSucc n => simp [Int.repr]
  | double x => exact x.text_ne_empty
  | null => decide
  | text s => simpa [isBlank, display] using hv
  | bytes b => simp [display]

end Value

namespace Schema.FieldType

theorem isBlank_of_coerceText {u v : Value} (hu : u.isBlank = false) (h : coerceText u = .ok v) :
    v.isBlank = true ↔ u = .bytes .empty := by
  have hshown (hv : v = .text u.display) (hbytes : u ≠ .bytes .empty) :
      v.isBlank = true ↔ u = .bytes .empty := by
    simp [hv, Value.isBlank, Value.display_ne_empty hu, hbytes]
  cases u with
  | bytes b =>
    simp only [coerceText, String.fromUTF8?] at h
    split at h
    · rename_i s hs
      split at hs
      · rw [← Except.ok.inj h, ← Option.some.inj hs]
        simp [Value.isBlank, ← String.toByteArray_eq_empty_iff, String.fromUTF8]
      · simp at hs
    · simp at h
  | _ => exact hshown (Except.ok.inj h).symm (by simp)

theorem isBlank_of_coerce {t : FieldType} {u v : Value} (hu : u.isBlank = false)
    (h : t.coerce u = .ok v) : v.isBlank = true ↔ t.kind = .text ∧ u = .bytes .empty := by
  have hnull : u ≠ .null := (Value.isBlank_eq_false_iff.mp hu).1
  by_cases ht : t.kind = .text
  · rw [and_iff_right ht]
    refine isBlank_of_coerceText hu ?_
    unfold coerce at h
    rw [if_neg hnull] at h
    cases t <;> first | exact h | simp [kind] at ht
  · have hv : v.kind ≠ .text := fun hv => ht (kind_eq_of_coerce h hnull ▸ hv)
    have hv' : v ≠ .null := coerce_ne_null h hnull
    have hblank : v.isBlank = false :=
      Value.isBlank_eq_false_iff.mpr ⟨hv', fun heq => hv (heq ▸ rfl)⟩
    simp [hblank, ht]

end Schema.FieldType

namespace OrderedMap

variable {κ α : Type} [DecidableEq κ]

theorem get?_foldl_insert {es : List (κ × α)} (h : (es.map Prod.fst).Nodup) (m : OrderedMap κ α)
    (k : κ) : (es.foldl (fun m e => m.insert e.1 e.2) m).get? k =
      (lookupEntry k es).or (m.get? k) := by
  induction es generalizing m with
  | nil => rfl
  | cons e rest ih =>
    obtain ⟨he, hrest⟩ := List.nodup_cons.mp h
    rw [List.foldl_cons, ih hrest, get?_insert, lookupEntry]
    split
    · rename_i hk
      rw [lookupEntry_eq_none_iff.mpr (hk ▸ he)]
      rfl
    · rfl

theorem get?_ofList {es : List (κ × α)} (h : (es.map Prod.fst).Nodup) (k : κ) :
    (ofList es).get? k = lookupEntry k es := by
  rw [ofList, get?_foldl_insert h, get?_empty, Option.or_none]

end OrderedMap

namespace IdentityKey

variable {m : Metadata} {k k' : IdentityKey} {f : Field} {id : Identifier} {raw : String → Option Value}

theorem Belongs.fields_perm (hb : k.Belongs m) : (k.fields.map Prod.fst).Perm m.identifiers := by
  obtain ⟨value, rfl⟩ := hb
  have hperm : (ofFields m.className _).fields.Perm _ :=
    List.mergeSort_perm (m.identifiers.map fun name => (name, value name)) _
  simpa [Function.comp_def] using hperm.map Prod.fst

theorem Belongs.fields_nodup (hb : k.Belongs m) : (k.fields.map Prod.fst).Nodup :=
  hb.fields_perm.nodup_iff.mpr (m.identifiers_sublist.nodup m.fieldNames_nodup)

theorem Belongs.get?_eq_some_iff (hb : k.Belongs m) {name : String} {v : Value} :
    k.get? name = some v ↔ (name, v) ∈ k.fields :=
  lookupEntry_eq_some_iff hb.fields_nodup

theorem Belongs.spells_identifier_iff (hb : k.Belongs m) :
    Spells m k k.identifier ↔ ∀ e ∈ k.fields, coerceField m e.1 e.2 = .ok e.2 := by
  have hperm := hb.fields_perm
  have hget (name : String) (v : Value) : k.get? name = some v ↔ (name, v) ∈ k.fields :=
    hb.get?_eq_some_iff
  unfold identifier
  split
  · rename_i name v hfields
    have hids : m.identifiers = [name] := by simpa [hfields] using hperm.symm
    simp [Spells, hids, hget, hfields]
  · have hvalue (name : String) : (OrderedMap.ofList k.fields).get? name = k.get? name :=
      OrderedMap.get?_ofList hb.fields_nodup name
    have hkeys (name : String) : name ∈ (OrderedMap.ofList k.fields).keys ↔
        name ∈ m.identifiers := by
      rw [← OrderedMap.get?_isSome_iff, hvalue, ← hperm.mem_iff, Option.isSome_iff_exists]
      simp [hget]
    simp only [Spells, hkeys, hvalue, hget, implies_true, true_and, Prod.forall]
    refine forall_congr' fun name => forall_congr' fun v => forall_congr' fun he => ?_
    constructor
    · rintro ⟨u, hu, hv⟩
      have : u = v := Option.some.inj (((hget name u).mpr hu).symm.trans ((hget name v).mpr he))
      exact this ▸ hv
    · exact fun hv => ⟨v, he, hv⟩

/-- A text field is given bytes of length zero. They are not blank, but the text they are coerced
to is. -/
def Vanishes (m : Metadata) (raw : String → Option Value) : Prop :=
  ∃ f ∈ m.identifierFields, f.type.kind = .text ∧ raw f.name = some (.bytes .empty)

theorem MadeOf.of_mem_fields (h : MadeOf m raw k) (hb : k.Belongs m) {e : String × Value}
    (he : e ∈ k.fields) : ∃ f ∈ m.identifierFields, ∃ u, f.name = e.1 ∧ raw f.name = some u ∧
      u.isBlank = false ∧ f.type.coerce u = .ok e.2 := by
  have hname : e.1 ∈ m.identifiers := hb.fields_perm.mem_iff.mp (List.mem_map_of_mem he)
  obtain ⟨f, hf, hfname⟩ := Metadata.exists_identifierField hname
  obtain ⟨u, v, hu, hv, hcoerced⟩ := h e.1 hname
  obtain rfl : v = e.2 := Option.some.inj (hv.symm.trans (hb.get?_eq_some_iff.mpr he))
  rw [← hfname] at hu hcoerced
  obtain ⟨hblank, hcoerce⟩ :=
    (coerceField_eq_ok_iff (Metadata.mem_identifierFields.mp hf).1).mp hcoerced
  exact ⟨f, hf, u, hfname, hu, hblank, hcoerce⟩

theorem MadeOf.ne_null (h : MadeOf m raw k) (hb : k.Belongs m) : ∀ e ∈ k.fields, e.2 ≠ .null := by
  intro e he
  obtain ⟨f, -, u, -, -, hblank, hcoerce⟩ := h.of_mem_fields hb he
  exact FieldType.coerce_ne_null hcoerce (Value.isBlank_eq_false_iff.mp hblank).1

theorem MadeOf.not_vanishes_iff (h : MadeOf m raw k) (hb : k.Belongs m) :
    ¬ Vanishes m raw ↔ ∀ e ∈ k.fields, e.2.isBlank = false := by
  constructor
  · intro hkept e he
    obtain ⟨f, hf, u, -, hu, hblank, hcoerce⟩ := h.of_mem_fields hb he
    refine Bool.eq_false_iff.mpr fun hempty => hkept ?_
    obtain ⟨htext, rfl⟩ := (FieldType.isBlank_of_coerce hblank hcoerce).mp hempty
    exact ⟨f, hf, htext, hu⟩
  · rintro hfilled ⟨f, hf, htext, hraw⟩
    obtain ⟨hmem, hname⟩ := Metadata.mem_identifierFields.mp hf
    obtain ⟨u, v, hu, hv, hcoerced⟩ := h f.name hname
    obtain ⟨hblank, hcoerce⟩ := (coerceField_eq_ok_iff hmem).mp hcoerced
    have hempty : v.isBlank = true := (FieldType.isBlank_of_coerce hblank hcoerce).mpr
      ⟨htext, Option.some.inj (hu.symm.trans hraw)⟩
    simp [hfilled _ (hb.get?_eq_some_iff.mp hv)] at hempty

theorem MadeOf.coerceField_iff (h : MadeOf m raw k) (hb : k.Belongs m) {e : String × Value}
    (he : e ∈ k.fields) : coerceField m e.1 e.2 = .ok e.2 ↔ e.2.isBlank = false := by
  obtain ⟨f, hf, u, hname, -, hblank, hcoerce⟩ := h.of_mem_fields hb he
  have hkind : e.2.kind = f.type.kind :=
    FieldType.kind_eq_of_coerce hcoerce (Value.isBlank_eq_false_iff.mp hblank).1
  rw [← hname, coerceField_eq_ok_iff (Metadata.mem_identifierFields.mp hf).1]
  exact and_iff_left (FieldType.coerce_of_kind hkind)

theorem MadeOf.text_ne_empty_iff (h : MadeOf m raw k) (hb : k.Belongs m) :
    (∀ e ∈ k.fields, e.2 ≠ .text "") ↔ ¬ Vanishes m raw := by
  rw [h.not_vanishes_iff hb]
  exact forall₂_congr fun e he => by
    rw [Value.isBlank_eq_false_iff, and_iff_right (h.ne_null hb e he)]

theorem MadeOf.ofIdentifier_identifier_iff (h : MadeOf m raw k) (hb : k.Belongs m)
    (hne : m.identifiers ≠ []) :
    ofIdentifier m k.identifier = .ok k ↔ ¬ Vanishes m raw := by
  rw [h.not_vanishes_iff hb, ofIdentifier_eq_ok_iff, and_iff_right hne, and_iff_right hb,
    hb.spells_identifier_iff]
  exact forall₂_congr fun e he => h.coerceField_iff hb he

/-- No value of a key is null. None is the empty text, and the identifier of the key stands for the
key again, exactly if no text field was given bytes of length zero. -/
theorem reusable_iff (m : Metadata) :
    (∀ id k, ofIdentifier m id = .ok k → (∀ e ∈ k.fields, e.2 ≠ .null) ∧
      ((∀ e ∈ k.fields, e.2 ≠ .text "") ↔ ¬ Vanishes m id.value?) ∧
      (ofIdentifier m k.identifier = .ok k ↔ ¬ Vanishes m id.value?)) ∧
    ∀ s k, ofSnapshot m s = .ok k → (∀ e ∈ k.fields, e.2 ≠ .null) ∧
      ((∀ e ∈ k.fields, e.2 ≠ .text "") ↔ ¬ Vanishes m fun name => some (snapshotValue s name)) ∧
      (ofIdentifier m k.identifier = .ok k ↔
        ¬ Vanishes m fun name => some (snapshotValue s name)) := by
  constructor
  · intro id k h
    obtain ⟨hne, hb, hspells⟩ := ofIdentifier_eq_ok_iff.mp h
    have hmade := hspells.madeOf
    exact ⟨hmade.ne_null hb, hmade.text_ne_empty_iff hb, hmade.ofIdentifier_identifier_iff hb hne⟩
  · intro s k h
    obtain ⟨hne, hb, -⟩ := ofSnapshot_eq_ok_iff.mp h
    have hmade := madeOf_of_ofSnapshot h
    exact ⟨hmade.ne_null hb, hmade.text_ne_empty_iff hb, hmade.ofIdentifier_identifier_iff hb hne⟩

theorem reusable_tag : ∃ k, ofIdentifier Sample.tagMetadata (.scalar (.bytes "new".toUTF8)) = .ok k ∧
    ofIdentifier Sample.tagMetadata k.identifier = .ok k := by
  have hkey : ofIdentifier Sample.tagMetadata (.scalar (.bytes "new".toUTF8)) =
      .ok (ofFields "Tag" [("id", .text "new")]) := rfl
  refine ⟨_, hkey, (((reusable_iff Sample.tagMetadata).1 _ _ hkey).2.2).mpr ?_⟩
  rintro ⟨f, -, -, hraw⟩
  exact absurd (Value.bytes.inj (Option.some.inj hraw)) (by decide)

/-- Bytes of length zero are accepted for a tag, and the key cannot be used again. -/
theorem not_reusable_of_empty_bytes :
    ofIdentifier Sample.tagMetadata (.scalar (.bytes .empty)) = .ok ⟨"Tag", [("id", .text "")]⟩ ∧
      ofIdentifier Sample.tagMetadata (identifier ⟨"Tag", [("id", .text "")]⟩) =
        .error (.validation (.blankIdentifierField "Tag" "id")) := by
  refine ⟨?_, rfl⟩
  change Except.ok (ofFields "Tag" [("id", .text "")]) = _
  simp [ofFields]

end IdentityKey
end Persistence
