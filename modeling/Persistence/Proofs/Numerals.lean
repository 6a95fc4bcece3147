import Mathlib.Algebra.Group.Int.Defs
import Mathlib.Algebra.Group.Nat.Defs
import Mathlib.Data.List.Basic
import Persistence.Number.Literal

/-!
Decimal numerals. What a row of digits denotes is said by `Nat.ofDigitChars`, with no bound on it.
A reader of bounded numbers accepts the numerals of the numbers within its bounds, and no other
text.
-/

namespace Persistence.Literal

variable {cs : List Char} {c : Char} {limit acc n : Nat} {beyond : NumberFault} {z : Int}

/-- Digits, at least one, and the number that they denote. -/
def Decimal (cs : List Char) (n : Nat) : Prop :=
  cs ≠ [] ∧ (∀ c ∈ cs, c.isDigit = true) ∧ Nat.ofDigitChars 10 cs 0 = n

/-- A decimal behind an optional sign, and the number that it denotes. -/
inductive Numeral : List Char → Int → Prop
  | unsigned {cs : List Char} {n : Nat} : Decimal cs n → Numeral cs n
  | positive {cs : List Char} {n : Nat} : Decimal cs n → Numeral ('+' :: cs) n
  | negative {cs : List Char} {n : Nat} : Decimal cs n → Numeral ('-' :: cs) (-n)

theorem digit?_eq (c : Char) :
    digit? c = if c.isDigit = true then some (c.toNat - '0'.toNat) else none :=
  if_congr (by simp only [Char.isDigit_iff_toNat, Char.le_def, UInt32.le_iff_toNat_le]; rfl) rfl rfl

theorem le_ofDigitChars (cs : List Char) (acc : Nat) : acc ≤ Nat.ofDigitChars 10 cs acc := by
  rw [Nat.ofDigitChars_eq_ofDigitChars_zero]
  exact Nat.le_add_right_of_le (Nat.le_mul_of_pos_left acc (Nat.pow_pos (by decide)))

theorem magnitude_eq_ok_iff (hacc : acc ≤ limit) : magnitude limit beyond acc cs = .ok n ↔
    (∀ c ∈ cs, c.isDigit = true) ∧ Nat.ofDigitChars 10 cs acc = n ∧ n ≤ limit := by
  induction cs generalizing acc with
  | nil =>
    simp only [magnitude, Except.ok.injEq, Nat.ofDigitChars_nil]
    constructor
    · rintro rfl
      exact ⟨by simp, rfl, hacc⟩
    · exact fun h => h.2.1
  | cons c rest ih =>
    rw [magnitude, digit?_eq, Nat.ofDigitChars_cons, List.forall_mem_cons]
    by_cases hc : c.isDigit = true
    · simp only [hc, if_true, true_and]
      split
      · rename_i hlarge
        have hgrows := le_ofDigitChars rest (10 * acc + (c.toNat - '0'.toNat))
        simp only [reduceCtorEq, false_iff]
        omega
      · rename_i hsmall
        exact ih (Nat.le_of_not_lt hsmall)
    · simp [hc]

theorem decimal_iff_of_ne_nil (hne : cs ≠ []) :
    magnitude limit beyond 0 cs = .ok n ↔ Decimal cs n ∧ n ≤ limit := by
  rw [magnitude_eq_ok_iff (Nat.zero_le limit), Decimal, and_assoc, and_assoc]
  exact (and_iff_right hne).symm

theorem not_decimal_nil : ¬ Decimal [] n := fun h => h.1 rfl

theorem Decimal.head (h : Decimal (c :: cs) n) : c.isDigit = true := h.2.1 c List.mem_cons_self

theorem numeral_positive_iff : Numeral ('+' :: cs) z ↔ ∃ n : Nat, Decimal cs n ∧ z = n := by
  constructor
  · intro h
    cases h with
    | unsigned h => exact absurd h.head (by decide)
    | positive h => exact ⟨_, h, rfl⟩
  · rintro ⟨n, h, rfl⟩
    exact .positive h

theorem numeral_negative_iff : Numeral ('-' :: cs) z ↔ ∃ n : Nat, Decimal cs n ∧ z = -n := by
  constructor
  · intro h
    cases h with
    | unsigned h => exact absurd h.head (by decide)
    | negative h => exact ⟨_, h, rfl⟩
  · rintro ⟨n, h, rfl⟩
    exact .negative h

theorem numeral_unsigned_iff (hplus : ∀ rest, cs ≠ '+' :: rest) (hminus : ∀ rest, cs ≠ '-' :: rest) :
    Numeral cs z ↔ ∃ n : Nat, Decimal cs n ∧ z = n := by
  constructor
  · intro h
    cases h with
    | unsigned h => exact ⟨_, h, rfl⟩
    | positive => exact absurd rfl (hplus _)
    | negative => exact absurd rfl (hminus _)
  · rintro ⟨n, h, rfl⟩
    exact .unsigned h

theorem signed_magnitude_eq_ok_iff {sign : Int → Int} (hne : cs ≠ [])
    (hlimit : ∀ n : Nat, n ≤ limit ↔ -2 ^ 63 ≤ sign n ∧ sign n ≤ 2 ^ 63 - 1) :
    Except.map sign (do let n ← magnitude limit beyond 0 cs; pure (n : Int)) = .ok z ↔
      (∃ n : Nat, Decimal cs n ∧ z = sign n) ∧ -2 ^ 63 ≤ z ∧ z ≤ 2 ^ 63 - 1 := by
  constructor
  · intro h
    cases hm : magnitude limit beyond 0 cs with
    | error fault => simp [hm, bind, Except.bind, Except.map] at h
    | ok n =>
      obtain ⟨hn, hle⟩ := (decimal_iff_of_ne_nil hne).mp hm
      rw [hm] at h
      obtain rfl : sign n = z := Except.ok.inj h
      exact ⟨⟨n, hn, rfl⟩, (hlimit n).mp hle⟩
  · rintro ⟨⟨n, hn, rfl⟩, hrange⟩
    rw [(decimal_iff_of_ne_nil hne).mpr ⟨hn, (hlimit n).mpr hrange⟩]
    rfl

/-- An integer is read exactly if its text is the numeral of one of sixty-four bits. The greatest
magnitude depends on the sign. -/
theorem integer_eq_ok_iff :
    integer cs = .ok z ↔ Numeral cs z ∧ -2 ^ 63 ≤ z ∧ z ≤ 2 ^ 63 - 1 := by
  have hmax (n : Nat) : n ≤ Nat.pow 2 63 - 1 ↔ -2 ^ 63 ≤ (n : Int) ∧ (n : Int) ≤ 2 ^ 63 - 1 := by
    rw [Nat.pow_eq]
    omega
  have hmin (n : Nat) : n ≤ Nat.pow 2 63 ↔ -2 ^ 63 ≤ -(n : Int) ∧ -(n : Int) ≤ 2 ^ 63 - 1 := by
    rw [Nat.pow_eq]
    omega
  unfold integer
  split
  case h_1 => simp [numeral_unsigned_iff, not_decimal_nil]
  case h_2 | h_3 => simp [numeral_positive_iff, numeral_negative_iff, not_decimal_nil]
  case h_4 rest hne => rw [signed_magnitude_eq_ok_iff hne hmax, numeral_positive_iff]
  case h_5 rest hne => rw [signed_magnitude_eq_ok_iff hne hmin, numeral_negative_iff]
  case h_6 hne _ _ hplus hminus =>
    rw [signed_magnitude_eq_ok_iff hne hmax, numeral_unsigned_iff hplus hminus]

theorem le_of_count (h : count cs = .ok n) : n ≤ 2 ^ 64 - 1 := by
  unfold count at h
  split at h
  case h_1 | h_2 => simp at h
  case h_3 | h_4 => exact ((magnitude_eq_ok_iff (Nat.zero_le _)).mp h).2.2

theorem decimal_toDigits (n : Nat) : Decimal (Nat.toDigits 10 n) n :=
  ⟨Nat.toDigits_ne_nil, fun _ => Nat.isDigit_of_mem_toDigits (by decide) (by decide),
    Nat.ofDigitChars_ten_toDigits⟩

theorem numeral_toString (z : Int) : Numeral (toString z).toList z := by
  cases z with
  | ofNat n =>
    change Numeral n.repr.toList n
    rw [Nat.toList_repr]
    exact .unsigned (decimal_toDigits n)
  | negSucc n =>
    change Numeral ("-" ++ (n + 1).repr).toList (-(n + 1 : Nat))
    rw [String.toList_append, Nat.toList_repr]
    exact .negative (decimal_toDigits (n + 1))

end Persistence.Literal
