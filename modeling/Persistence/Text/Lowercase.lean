import Persistence.Text.CaseTable

/-!
Lower-casing of a whole text, as the default table name of a class needs it.

Every character is replaced by its lower-case form. Two letters need more than a table: U+0130
becomes two characters, and a capital sigma that ends a word becomes the final small sigma.
-/

namespace Persistence.Text

def inRanges (rs : List (Nat × Nat)) (c : Char) : Bool :=
  rs.any fun r => r.1 ≤ c.toNat && c.toNat ≤ r.2

def lowerChar (c : Char) : Char :=
  let n := c.toNat
  match lowerRuns.find? fun r => r.1 ≤ n && n ≤ r.2.1 && (n - r.1) % r.2.2.1 == 0 with
  | some r => Char.ofNat (n + r.2.2.2).toNat
  | none => c

def nextIsCased (cs : List Char) : Bool :=
  match cs.dropWhile (inRanges caseIgnorableRanges) with
  | c :: _ => inRanges casedRanges c
  | [] => false

/-- Lower-cases `cs`; `before` holds the characters in front of it, the nearest first. -/
def lowerFrom (before : List Char) : List Char → List Char
  | [] => []
  | c :: rest =>
    let here :=
      if c.toNat = 0x3A3 then
        [if nextIsCased before && !nextIsCased rest then Char.ofNat 0x3C2 else Char.ofNat 0x3C3]
      else if c.toNat = 0x130 then ['i', Char.ofNat 0x307]
      else [lowerChar c]
    here ++ lowerFrom (c :: before) rest

def lowercase (s : String) : String := String.ofList (lowerFrom [] s.toList)

end Persistence.Text
