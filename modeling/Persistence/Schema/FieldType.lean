import Persistence.Text.Ascii

/-!
The types a mapped column can have, and their names.
-/

namespace Persistence.Schema

inductive FieldType
  | string
  | text
  | integer
  | float
  | decimal
  | boolean
  | datetime
  | date
  | time
  | blob
deriving DecidableEq

namespace FieldType

def name : FieldType → String
  | string => "string"
  | text => "text"
  | integer => "integer"
  | float => "float"
  | decimal => "decimal"
  | boolean => "boolean"
  | datetime => "datetime"
  | date => "date"
  | time => "time"
  | blob => "blob"

def acceptsLength : FieldType → Bool
  | string | text | decimal => true
  | _ => false

def maxLength : Nat := 8000

def names : List (String × FieldType) :=
  [("string", string), ("text", text), ("integer", integer), ("int", integer), ("float", float),
    ("decimal", decimal), ("boolean", boolean), ("bool", boolean), ("datetime", datetime),
    ("date", date), ("time", time), ("blob", blob)]

def ofName? (s : String) : Option FieldType :=
  (names.find? fun e => e.1 == Text.asciiLower s).map Prod.snd

end FieldType
end Persistence.Schema
