import Persistence.Number.Double

/-!
The shortest decimal text of a double, always in positional notation.

The reals that round to a given double form an interval around it. The text shows the point of
the coarsest decimal grid `c * 10 ^ q` that has a point inside that interval, so it has the fewest
digits that read back as the same double. Of two points of that grid the nearer is shown, and of
two equally near ones the greater.
-/

namespace Persistence.Double

/-- The point `c` of the grid `10 ^ q` that rounds to `m * 2 ^ e` and lies nearest to it. -/
def gridPoint? (m : Nat) (e q : Int) : Option Nat :=
  let unit := Nat.pow 2 (e - 2).toNat * Nat.pow 10 (-q).toNat
  let step := Nat.pow 2 (2 - e).toNat * Nat.pow 10 q.toNat
  let value := 4 * m * unit
  -- below a power of two the spacing of doubles halves
  let low := value - (if m = Nat.pow 2 52 ∧ -1074 < e then 1 else 2) * unit
  let high := value + 2 * unit
  let inside (point : Nat) : Bool :=
    if m % 2 = 0 then low ≤ point && point ≤ high else low < point && point < high
  let c := value / step
  let below := inside (c * step)
  let above := inside ((c + 1) * step)
  if above && (!below || step ≤ 2 * (value - c * step)) then some (c + 1)
  else if below then some c
  else none

/-- Decimal exponents from that of the greatest double down to that of the least. -/
def gridExponents : List Int := (List.range 633).map fun (i : Nat) => 308 - (i : Int)

/-- Digits and decimal exponent of the shortest decimal that reads back. -/
def shortest (m : Nat) (e : Int) : Nat × Int :=
  (gridExponents.findSome? fun q => (gridPoint? m e q).map fun c => (c, q)).getD (0, 0)

def positional (c : Nat) (q : Int) : List Char :=
  let digits := Nat.toDigits 10 c
  if 0 ≤ q then digits ++ List.replicate q.toNat '0'
  else
    let places := (-q).toNat
    let padded := List.replicate (places + 1 - digits.length) '0' ++ digits
    let whole := padded.length - places
    padded.take whole ++ '.' :: padded.drop whole

/-- Zero keeps its sign, whole numbers have no point, and NaN has no sign. -/
def text (x : Double) : String :=
  let unsigned := match x.shape with
    | .nan => "NaN".toList
    | .infinite => "inf".toList
    | .finite 0 _ => ['0']
    | .finite m e => positional (shortest m e).1 (shortest m e).2
  match x.shape with
  | .nan => String.ofList unsigned
  | _ => String.ofList (if x.isNegative then '-' :: unsigned else unsigned)

end Persistence.Double
