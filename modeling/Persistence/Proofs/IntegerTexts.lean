import Persistence.Proofs.EntityTypes
import Persistence.Proofs.Numerals
import Persistence.Proofs.RoundTrip
import Persistence.Proofs.Spellings

/-!
Integers that come as text. An integer field reads a text exactly if it is the numeral of a number
of sixty-four bits, with blanks around it or not, and what is in print of such a number is read as
the number. So the identifier that a database reports as text makes the key that the number makes.
-/

namespace Persistence

open Literal (Numeral)
open Schema (Metadata Snapshot Field FieldType)

variable {s : String} {cs : List Char} {z : Int} {n : Int64}

theorem Text.not_isBlank_of_isDigit {c : Char} (h : c.isDigit = true) : isBlank c = false := by
  obtain ⟨hlow, hhigh⟩ : 48 ≤ c.toNat ∧ c.toNat ≤ 57 := Char.isDigit_iff_toNat.mp h
  simp only [isBlank, blankRanges, List.any_cons, List.any_nil, Bool.or_false, Bool.or_eq_false_iff,
    Bool.and_eq_false_iff, decide_eq_false_iff_not]
  omega

theorem Literal.Numeral.not_isBlank (h : Numeral cs z) : ∀ c ∈ cs, Text.isBlank c = false := by
  cases h with
  | unsigned h => exact fun c hc => Text.not_isBlank_of_isDigit (h.2.1 c hc)
  | positive h | negative h =>
    exact List.forall_mem_cons.mpr ⟨by decide, fun c hc => Text.not_isBlank_of_isDigit (h.2.1 c hc)⟩

theorem Literal.Numeral.trimBlanks_eq (h : Numeral cs z) : Text.trimBlanks cs = cs := by
  have hhead : ∀ c ∈ cs.head?, Text.isBlank c = false := fun c hc =>
    h.not_isBlank c (List.mem_of_head? hc)
  have hlast : ∀ c ∈ cs.reverse.head?, Text.isBlank c = false := fun c hc =>
    h.not_isBlank c (List.mem_reverse.mp (List.mem_of_head? hc))
  rw [Text.trimBlanks, Text.dropWhile_eq_self hhead, Text.dropWhile_eq_self hlast,
    List.reverse_reverse]

namespace Schema.FieldType

theorem coerce_integer_text (s : String) : integer.coerce (.text s) =
    match Literal.integer (Text.trimBlanks s.toList) with
    | .ok z => .ok (.int (Int64.ofInt z))
    | .error fault => .error (.number fault) := rfl

theorem coerce_integer_text_eq_ok_iff : integer.coerce (.text s) = .ok (.int n) ↔
    Numeral (Text.trimBlanks s.toList) n.toInt := by
  rw [coerce_integer_text]
  constructor
  · intro h
    split at h
    · rename_i z hz
      obtain ⟨hnumeral, hmin, hmax⟩ := Literal.integer_eq_ok_iff.mp hz
      obtain rfl : Int64.ofInt z = n := by simpa using h
      rwa [Int64.toInt_ofInt_of_le hmin (by omega)]
    · simp at h
  · intro h
    have hrange : -2 ^ 63 ≤ n.toInt ∧ n.toInt ≤ 2 ^ 63 - 1 := by
      have := n.le_toInt
      have := n.toInt_lt
      omega
    rw [Literal.integer_eq_ok_iff.mpr ⟨h, hrange⟩]
    exact congrArg (fun n => Except.ok (Value.int n)) n.ofInt_toInt

theorem exists_coerce_integer_text_iff :
    (∃ n : Int64, n.toInt = z ∧ integer.coerce (.text s) = .ok (.int n)) ↔
      Numeral (Text.trimBlanks s.toList) z ∧ -2 ^ 63 ≤ z ∧ z ≤ 2 ^ 63 - 1 := by
  constructor
  · rintro ⟨n, rfl, h⟩
    have := n.le_toInt
    have := n.toInt_lt
    exact ⟨coerce_integer_text_eq_ok_iff.mp h, by omega, by omega⟩
  · rintro ⟨h, hmin, hmax⟩
    have hz : (Int64.ofInt z).toInt = z := Int64.toInt_ofInt_of_le hmin (by omega)
    exact ⟨Int64.ofInt z, hz, coerce_integer_text_eq_ok_iff.mpr (by rwa [hz])⟩

theorem coerce_integer_text_eq_error
    (h : ¬ ∃ z, Numeral (Text.trimBlanks s.toList) z ∧ -2 ^ 63 ≤ z ∧ z ≤ 2 ^ 63 - 1) :
    ∃ fault, integer.coerce (.text s) = .error (.number fault) := by
  rw [coerce_integer_text]
  split
  · rename_i z hz
    exact absurd ⟨z, Literal.integer_eq_ok_iff.mp hz⟩ h
  · exact ⟨_, rfl⟩

theorem coerce_int_of_text {type : FieldType} (h : type.kind = .text) (n : Int64) :
    type.coerce (.int n) = .ok (.text (toString n.toInt)) := by
  cases type <;> simp only [kind, reduceCtorEq] at h <;> rfl

theorem coerce_integer_display (n : Int64) :
    integer.coerce (.text (toString n.toInt)) = .ok (.int n) := by
  have hnumeral := Literal.numeral_toString n.toInt
  rw [coerce_integer_text_eq_ok_iff, hnumeral.trimBlanks_eq]
  exact hnumeral

theorem isBlank_of_coerce_integer (h : integer.coerce (.text s) = .ok (.int n)) :
    (Value.text s).isBlank = false := by
  refine Bool.eq_false_iff.mpr fun hblank => ?_
  obtain rfl : s = "" := by simpa [Value.isBlank] using hblank
  simp [coerce_integer_text, Text.trimBlanks, Literal.integer] at h

end Schema.FieldType

/-- A storage has room for the number. A double is rounded, so it has room for the numbers that
rounding leaves as they are. -/
def Storage.HasRoom (s : Storage) (n : Int64) : Prop :=
  match s.base with
  | .int64 => True
  | .int32 => -2 ^ 31 ≤ n.toInt ∧ n.toInt < 2 ^ 31
  | .double => (Double.ofInt n.toInt).truncate = n.toInt
  | .bool | .text | .bytes => False

/-- A field stands in a slot that has room for the number. -/
def Instance.Takes (x : Instance) (f : Field) (n : Int64) : Prop :=
  ∃ s, x.storages[f.accessor.slot]? = some s ∧ s.HasRoom n

/-- The key of an instance by the values that it has. -/
def Schema.Metadata.identityOf (m : Metadata) (x : Instance) : Except Error IdentityKey := do
  let values ← m.extract x
  IdentityKey.ofSnapshot m values

variable {m : Metadata} {f : Field} {x y : Instance}

theorem Instance.exists_write {i : Nat} {s : Storage} {v w : Value} (hs : x.storages[i]? = some s)
    (hv : s.convert v = .ok w) : ∃ y, x.write i v = .ok y ∧ y.read i = w := by
  have hwrite : ∃ y, x.write i v = .ok y := by
    rw [storages, List.getElem?_map] at hs
    obtain ⟨slot, hslot, rfl⟩ := Option.map_eq_some_iff.mp hs
    rw [write, hslot]
    dsimp only
    rw [Slot.write]
    split
    · exact ⟨_, rfl⟩
    · rename_i e he
      simp [hv] at he
  obtain ⟨y, hy⟩ := hwrite
  exact ⟨y, hy, (of_write hy).2.1.trans (hold_of_convert hs hv)⟩

theorem Storage.HasRoom.exists_convert {s : Storage} (h : s.HasRoom n) :
    ∃ v, s.convert (.int n) = .ok v ∧ v.isBlank = false ∧ FieldType.integer.coerce v = .ok (.int n) := by
  obtain ⟨base, optional⟩ := s
  have hbase : Storage.convert ⟨base, optional⟩ (.int n) = base.convert (.int n) := if_neg (by simp)
  rw [hbase]
  cases base with
  | int64 => exact ⟨.int n, rfl, rfl, rfl⟩
  | int32 =>
    have hconvert : Base.int32.convert (.int n) = .ok (.int n) := if_pos h
    exact ⟨.int n, hconvert, rfl, rfl⟩
  | double =>
    have hexact : (Double.ofInt n.toInt).truncate = n.toInt := h
    refine ⟨.double (Double.ofInt n.toInt), rfl, rfl, ?_⟩
    change Except.ok (Value.int (Int64.ofInt (Double.ofInt n.toInt).truncate)) = _
    rw [hexact, Int64.ofInt_toInt]
  | bool | text | bytes => exact h.elim

namespace Schema.Metadata

theorem setField_text_eq (hf : f ∈ m.fields) (hinteger : f.type = .integer)
    (hs : FieldType.integer.coerce (.text s) = .ok (.int n)) (x : Instance) :
    m.setField x f.name (.text s) = m.setField x f.name (.int n) := by
  have hn : FieldType.integer.coerce (.int n) = .ok (.int n) := rfl
  simp only [setField, field?_eq_some_iff.mpr ⟨hf, rfl⟩, hinteger, hs, hn]

theorem exists_setField_int (hf : f ∈ m.fields) (hinteger : f.type = .integer)
    (hfor : m.For x.type) (hroom : x.Takes f n) :
    ∃ y, m.setField x f.name (.int n) = .ok y ∧ y.type = x.type ∧
      (y.read f.accessor.slot).isBlank = false ∧
      FieldType.integer.coerce (y.read f.accessor.slot) = .ok (.int n) := by
  obtain ⟨s, hs, hroom⟩ := hroom
  obtain ⟨v, hconvert, hread⟩ := hroom.exists_convert
  obtain ⟨y, hy, rfl⟩ := Instance.exists_write hs hconvert
  have hset : m.setField x f.name (.int n) = .ok y := by
    have hn : FieldType.integer.coerce (.int n) = .ok (.int n) := rfl
    simp only [setField, field?_eq_some_iff.mpr ⟨hf, rfl⟩, hinteger, hn, bind, Except.bind,
      Accessor.set, if_pos (hfor f hf).symm, hy]
  exact ⟨y, hset, type_setField hset, hread⟩

end Schema.Metadata

namespace IdentityKey

def ofInt (m : Metadata) (name : String) (n : Int64) : IdentityKey :=
  ofFields m.className [(name, .int n)]

theorem coerceField_integer {v : Value} (hf : f ∈ m.fields) (hinteger : f.type = .integer)
    (hblank : v.isBlank = false) (hv : FieldType.integer.coerce v = .ok (.int n)) :
    coerceField m f.name v = .ok (.int n) :=
  (coerceField_eq_ok_iff hf).mpr ⟨hblank, by rw [hinteger, hv]⟩

theorem ofIdentifier_scalar_eq {name : String} {u : Value} (hids : m.identifiers = [name])
    (hu : coerceField m name u = .ok (.int n)) :
    ofIdentifier m (.scalar u) = .ok (ofInt m name n) := by
  simp [ofIdentifier, Metadata.requireIdentifiers, Metadata.isComposite, hids, collect, hu, ofInt,
    bind, Except.bind, pure, Except.pure]

theorem ofSnapshot_eq_ofInt {name : String} {values : Snapshot} {v : Value}
    (hids : m.identifiers = [name]) (hvalue : lookupEntry name values = some v)
    (hv : coerceField m name v = .ok (.int n)) : ofSnapshot m values = .ok (ofInt m name n) := by
  simp [ofSnapshot, Metadata.requireIdentifiers, hids, collect, snapshotValue, hvalue, hv, ofInt,
    bind, Except.bind, pure, Except.pure]

theorem identityOf_eq (hids : m.identifiers = [f.name]) (hf : f ∈ m.fields) (hfor : m.For x.type)
    (hread : coerceField m f.name (x.read f.accessor.slot) = .ok (.int n)) :
    m.identityOf x = .ok (ofInt m f.name n) := by
  have hextract : m.extract x = .ok (m.snapshotOf x) := Schema.readFields_of_owner hfor
  have hvalue := Metadata.lookupEntry_snapshotOf x hf
  simp only [Metadata.identityOf, hextract, bind, Except.bind]
  exact ofSnapshot_eq_ofInt hids hvalue hread

theorem key_of_reported (hids : m.identifiers = [f.name]) (hf : f ∈ m.fields)
    (hinteger : f.type = .integer) (hs : FieldType.integer.coerce (.text s) = .ok (.int n)) :
    ∃ key, ofIdentifier m (.scalar (.int n)) = .ok key ∧ ofIdentifier m (.scalar (.text s)) = .ok key ∧
      ∀ x : Instance, m.For x.type → x.Takes f n →
        ∃ y, m.setField x f.name (.text s) = .ok y ∧ m.identityOf y = .ok key := by
  have hnumber := coerceField_integer hf hinteger (v := .int n) rfl rfl
  have htext := coerceField_integer hf hinteger (FieldType.isBlank_of_coerce_integer hs) hs
  refine ⟨ofInt m f.name n, ofIdentifier_scalar_eq hids hnumber, ofIdentifier_scalar_eq hids htext,
    fun x hfor hroom => ?_⟩
  obtain ⟨y, hset, htype, hblank, hread⟩ := Metadata.exists_setField_int hf hinteger hfor hroom
  refine ⟨y, (Metadata.setField_text_eq hf hinteger hs x).trans hset, ?_⟩
  exact identityOf_eq hids hf (htype ▸ hfor) (coerceField_integer hf hinteger hblank hread)

end IdentityKey

/-- An integer is read from a text, with blanks around it dropped, exactly if the text is the
numeral of a number of sixty-four bits, and it is that number; any other text is refused. So a
number that was turned into text is read again as it was, and an identifier that comes as the text
of a number has the key of the number. -/
theorem Schema.FieldType.integer_of_text (s : String) :
    (∀ z : Int, (∃ n : Int64, n.toInt = z ∧ integer.coerce (.text s) = .ok (.int n)) ↔
      Numeral (Text.trimBlanks s.toList) z ∧ -2 ^ 63 ≤ z ∧ z ≤ 2 ^ 63 - 1) ∧
    ((¬ ∃ z, Numeral (Text.trimBlanks s.toList) z ∧ -2 ^ 63 ≤ z ∧ z ≤ 2 ^ 63 - 1) →
      ∃ fault, integer.coerce (.text s) = .error (.number fault)) ∧
    (∀ (type : FieldType) (n : Int64), type.kind = .text →
      ∃ t, type.coerce (.int n) = .ok (.text t) ∧ integer.coerce (.text t) = .ok (.int n)) ∧
    ∀ n : Int64, integer.coerce (.text s) = .ok (.int n) →
      ∀ (m : Metadata) (f : Field), f ∈ m.fields → f.type = .integer →
        (∀ x, m.setField x f.name (.text s) = m.setField x f.name (.int n)) ∧
        (m.identifiers = [f.name] → ∃ key,
          IdentityKey.ofIdentifier m (.scalar (.int n)) = .ok key ∧
          IdentityKey.ofIdentifier m (.scalar (.text s)) = .ok key ∧
          ∀ x : Instance, m.For x.type → x.Takes f n →
            ∃ y, m.setField x f.name (.text s) = .ok y ∧ m.identityOf y = .ok key) := by
  refine ⟨fun z => exists_coerce_integer_text_iff, coerce_integer_text_eq_error,
    fun type n h => ⟨_, coerce_int_of_text h n, coerce_integer_display n⟩, ?_⟩
  intro n hs m f hf hinteger
  exact ⟨Metadata.setField_text_eq hf hinteger hs,
    fun hids => IdentityKey.key_of_reported hids hf hinteger hs⟩

theorem Schema.FieldType.integer_of_text_reported :
    (∃ n : Int64, n.toInt = -2 ^ 63 ∧
      integer.coerce (.text "-9223372036854775808") = .ok (.int n)) ∧
    ∃ key y, IdentityKey.ofIdentifier Sample.userMetadata (.scalar (.int 7)) = .ok key ∧
      Sample.userMetadata.setField ⟨Sample.user, Sample.userSlots none "ann"⟩ "id" (.text " +007\n") =
        .ok y ∧
      Sample.userMetadata.identityOf y = .ok key := by
  have hleast : Numeral (Text.trimBlanks "-9223372036854775808".toList) (-2 ^ 63) := by
    have htext : Text.trimBlanks "-9223372036854775808".toList =
        (toString (-2 ^ 63 : Int)).toList := by decide +kernel
    rw [htext]
    exact Literal.numeral_toString _
  have hseven : integer.coerce (.text " +007\n") = .ok (.int 7) := by rfl
  obtain ⟨f, hid, hinteger, hslot⟩ : ∃ f, Sample.userMetadata.field? "id" = some f ∧
      f.type = .integer ∧ f.accessor.slot = 0 := ⟨_, rfl, rfl, rfl⟩
  obtain ⟨hf, hname⟩ := Metadata.field?_eq_some_iff.mp hid
  obtain ⟨-, -, -, hreported⟩ := integer_of_text " +007\n"
  obtain ⟨key, hkey, -, hset⟩ := (hreported 7 hseven _ f hf hinteger).2 (by rw [hname]; rfl)
  have hfor : Sample.userMetadata.For Sample.user := by unfold Metadata.For; decide
  obtain ⟨y, hy, hykey⟩ := hset ⟨Sample.user, Sample.userSlots none "ann"⟩ hfor
    ⟨⟨.int64, true⟩, by rw [hslot]; rfl, trivial⟩
  exact ⟨((integer_of_text "-9223372036854775808").1 _).mpr ⟨hleast, by decide, by decide⟩,
    key, y, hkey, hname ▸ hy, hykey⟩

end Persistence
