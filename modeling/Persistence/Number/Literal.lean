import Persistence.Number.Double

/-!
Reading numbers from text.

An integer is an optional sign and one or more digits; a double is a decimal with an optional
exponent, or one of the words `inf`, `infinity` and `nan`. A text is read in full or refused with
the first fault met from the left.
-/

namespace Persistence

inductive NumberFault
  | emptyInteger
  | invalidDigit
  | tooLarge
  | tooSmall
  | emptyDouble
  | invalidDouble
deriving DecidableEq

def NumberFault.message : NumberFault → String
  | .emptyInteger => "cannot parse integer from empty string"
  | .invalidDigit => "invalid digit found in string"
  | .tooLarge => "number too large to fit in target type"
  | .tooSmall => "number too small to fit in target type"
  | .emptyDouble => "cannot parse float from empty string"
  | .invalidDouble => "invalid float literal"

namespace Literal

def digit? (c : Char) : Option Nat :=
  if '0' ≤ c ∧ c ≤ '9' then some (c.toNat - '0'.toNat) else none

/-- Reads digits on from `acc`; `beyond` is the fault of a value above `limit`. -/
def magnitude (limit : Nat) (beyond : NumberFault) : Nat → List Char → Except NumberFault Nat
  | acc, [] => .ok acc
  | acc, c :: rest =>
    match digit? c with
    | none => .error .invalidDigit
    | some d =>
      if limit < 10 * acc + d then .error beyond
      else magnitude limit beyond (10 * acc + d) rest

def integer : List Char → Except NumberFault Int
  | [] => .error .emptyInteger
  | ['+'] => .error .invalidDigit
  | ['-'] => .error .invalidDigit
  | '+' :: rest => (magnitude (Nat.pow 2 63 - 1) .tooLarge 0 rest).map fun n => n
  | '-' :: rest => (magnitude (Nat.pow 2 63) .tooSmall 0 rest).map fun n => - n
  | cs => (magnitude (Nat.pow 2 63 - 1) .tooLarge 0 cs).map fun n => n

/-- An unsigned integer of sixty-four bits. A minus sign is not accepted. -/
def count : List Char → Except NumberFault Nat
  | [] => .error .emptyInteger
  | ['+'] => .error .invalidDigit
  | '+' :: rest => magnitude (Nat.pow 2 64 - 1) .tooLarge 0 rest
  | cs => magnitude (Nat.pow 2 64 - 1) .tooLarge 0 cs

def isDigit (c : Char) : Bool := (digit? c).isSome

def digitsValue (cs : List Char) : Nat := cs.foldl (fun acc c => 10 * acc + (digit? c).getD 0) 0

/-- The value of exponent digits. It stops growing once no double can tell the difference. -/
def exponentValue (cs : List Char) : Nat :=
  cs.foldl (fun acc c => if acc < 65536 then 10 * acc + (digit? c).getD 0 else acc) 0

def exponent? (cs : List Char) : Option Int :=
  let (negative, digits) := match cs with
    | '-' :: rest => (true, rest)
    | '+' :: rest => (false, rest)
    | _ => (false, cs)
  if digits.isEmpty || !digits.all isDigit then none
  else some (if negative then - (exponentValue digits : Int) else exponentValue digits)

/-- The double nearest to `m * 10 ^ e`. Values beyond the range are decided by their number of
digits, so that no large power is formed. -/
def ofDecimal (negative : Bool) (m : Nat) (e : Int) : Double :=
  let digits : Int := (Nat.toDigits 10 m).length
  if m = 0 ∨ digits + e < -324 then Double.ofRatio negative 0 1
  else if 310 < digits + e then Double.infinity negative
  else Double.ofRatio negative (m * Nat.pow 10 e.toNat) (Nat.pow 10 (-e).toNat)

def decimal? (negative : Bool) (cs : List Char) : Option Double :=
  let whole := cs.takeWhile isDigit
  let (places, rest) := match cs.dropWhile isDigit with
    | '.' :: after => (after.takeWhile isDigit, after.dropWhile isDigit)
    | after => ([], after)
  if whole.isEmpty && places.isEmpty then none
  else
    let exponent := match rest with
      | [] => some 0
      | c :: digits => if c == 'e' || c == 'E' then exponent? digits else none
    exponent.map fun e => ofDecimal negative (digitsValue (whole ++ places)) (e - places.length)

def word? (negative : Bool) (cs : List Char) : Option Double :=
  let w := cs.map Char.toLower
  if w = "inf".toList ∨ w = "infinity".toList then some (Double.infinity negative)
  else if w = "nan".toList then some (Double.nan negative)
  else none

def double (cs : List Char) : Except NumberFault Double :=
  let read (negative : Bool) (body : List Char) : Except NumberFault Double :=
    match (decimal? negative body).or (word? negative body) with
    | some x => .ok x
    | none => .error .invalidDouble
  match cs with
  | [] => .error .emptyDouble
  | '-' :: body => read true body
  | '+' :: body => read false body
  | body => read false body

end Literal
end Persistence
