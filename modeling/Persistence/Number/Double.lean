/-!
Double-precision numbers, held as their sixty-four bits.

Two doubles are equal here when their bits are, so `0` and `-0` differ and a NaN equals itself;
that is what makes a double usable as part of a key. Everything that depends on the number
meant goes through `shape`, which reads the bits as a mantissa and a power of two.
-/

namespace Persistence

structure Double where
  bits : UInt64
deriving DecidableEq, Inhabited

namespace Double

/-- What the bits stand for, apart from the sign: a finite value is `mantissa * 2 ^ exponent`. -/
inductive Shape
  | nan
  | infinite
  | finite (mantissa : Nat) (exponent : Int)

def isNegative (x : Double) : Bool := x.bits.toNat / Nat.pow 2 63 == 1

def magnitudeBits (x : Double) : Nat := x.bits.toNat % Nat.pow 2 63

def ofMagnitudeBits (negative : Bool) (m : Nat) : Double :=
  ⟨UInt64.ofNat (if negative then Nat.pow 2 63 + m else m)⟩

/-- The bits of infinity. Larger ones belong to NaN. -/
def infinityBits : Nat := 2047 * Nat.pow 2 52

def infinity (negative : Bool) : Double := ofMagnitudeBits negative infinityBits

def nan (negative : Bool) : Double := ofMagnitudeBits negative (infinityBits + Nat.pow 2 51)

/-- Exponent zero is read with the exponent of one and without the leading bit. -/
def shape (x : Double) : Shape :=
  let exponent : Nat := x.magnitudeBits / Nat.pow 2 52
  let fraction : Nat := x.magnitudeBits % Nat.pow 2 52
  if exponent = 2047 then (if fraction = 0 then .infinite else .nan)
  else if exponent = 0 then .finite fraction (-1074)
  else .finite (Nat.pow 2 52 + fraction) ((exponent : Int) - 1075)

def roundHalfEven (num den : Nat) : Nat :=
  let q := num / den
  let twice := 2 * (num % den)
  if twice < den then q else if twice = den then q + q % 2 else q + 1

/-- The greatest `t` with `2 ^ t ≤ num / den`, for positive `num` and `den`. -/
def floorLog (num den : Nat) : Int :=
  let t : Int := num.log2 - den.log2
  if den * Nat.pow 2 t.toNat ≤ num * Nat.pow 2 (-t).toNat then t else t - 1

/-- The double nearest to `num / den`, a tie to the even mantissa, and infinity from half a unit
above the greatest double on. -/
def ofRatio (negative : Bool) (num den : Nat) : Double :=
  if num = 0 then ofMagnitudeBits negative 0
  else
    let e : Int := max (floorLog num den - 52) (-1074)
    let m := roundHalfEven (num * Nat.pow 2 (-e).toNat) (den * Nat.pow 2 e.toNat)
    -- a mantissa of 2 ^ 53 carries into the exponent by itself
    ofMagnitudeBits negative (min (m + (e + 1074).toNat * Nat.pow 2 52) infinityBits)

def ofInt (n : Int) : Double := ofRatio (n < 0) n.natAbs 1

/-- The integer part, dropped toward zero and held within the range of sixty-four bits. NaN gives
zero. -/
def truncate (x : Double) : Int :=
  let top : Nat := Nat.pow 2 63
  let size := match x.shape with
    | .nan => 0
    | .infinite => top
    | .finite m e => m * Nat.pow 2 e.toNat / Nat.pow 2 (-e).toNat
  if x.isNegative then - (min size top : Nat) else (min size (top - 1) : Nat)

end Double
end Persistence
