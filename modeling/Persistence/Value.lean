import Persistence.Number.Shortest

/-!
The values that a database column can hold.

Integers have sixty-four bits, decimals travel as doubles, and dates and times as text. Values are
compared by kind and content, doubles by their bits, so every value can be part of a key.
-/

namespace Persistence

instance (priority := high) decidableEqBytes : DecidableEq ByteArray := ByteArray.decEq

inductive Value
  | bool (b : Bool)
  | int (n : Int64)
  | double (x : Double)
  | null
  | text (s : String)
  | bytes (b : ByteArray)
deriving DecidableEq

namespace Value

instance : Inhabited Value := ⟨null⟩

inductive Kind
  | bool
  | int
  | double
  | null
  | text
  | bytes
deriving DecidableEq

def Kind.name : Kind → String
  | .bool => "Bool"
  | .int => "I64"
  | .double => "F64"
  | .null => "Null"
  | .text => "String"
  | .bytes => "Bytes"

def kind : Value → Kind
  | bool _ => .bool
  | int _ => .int
  | double _ => .double
  | null => .null
  | text _ => .text
  | bytes _ => .bytes

def isNull : Value → Bool
  | null => true
  | _ => false

/-- Null and the empty text cannot identify anything. -/
def isBlank : Value → Bool
  | null => true
  | text s => s.isEmpty
  | _ => false

def asText? : Value → Option String
  | text s => some s
  | _ => none

def asInt? : Value → Option Int64
  | int n => some n
  | _ => none

def asDouble? : Value → Option Double
  | double x => some x
  | int n => some (Double.ofInt n.toInt)
  | _ => none

def asBool? : Value → Option Bool
  | bool b => some b
  | _ => none

def take (v : Value) : Value × Value := (v, null)

/-- Integers in decimal, doubles in their shortest text, bytes by their number only. -/
def display : Value → String
  | bool b => if b then "true" else "false"
  | int n => toString n.toInt
  | double x => x.text
  | null => "NULL"
  | text s => s
  | bytes b => "<" ++ toString b.size ++ " bytes>"

end Value
end Persistence
