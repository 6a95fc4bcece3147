import Persistence.Error
import Persistence.Text.Blank

/-!
Coercion: a value read from a database, turned into the representation of a field type.

Null passes through every type. Numbers are read from text with the blanks around them dropped,
text types show numbers and truth values in their usual text, and a blob takes the bytes of a
text.
-/

namespace Persistence.Schema.FieldType

def truth? (s : String) : Option Bool :=
  let w := Text.asciiLower (Text.trim s)
  if w ∈ ["1", "true", "t", "yes"] then some true
  else if w ∈ ["0", "false", "f", "no", ""] then some false
  else none

def coerceInteger (v : Value) : Except Error Value :=
  match v with
  | .int n => .ok (.int n)
  | .double x => .ok (.int (Int64.ofInt x.truncate))
  | .bool b => .ok (.int (if b then 1 else 0))
  | .text s =>
    match Literal.integer (Text.trimBlanks s.toList) with
    | .ok n => .ok (.int (Int64.ofInt n))
    | .error f => .error (.number f)
  | _ => .error (.conversion v integer.name)

def coerceDouble (type : FieldType) (v : Value) : Except Error Value :=
  match v with
  | .double x => .ok (.double x)
  | .int n => .ok (.double (Double.ofInt n.toInt))
  | .text s =>
    match Literal.double (Text.trimBlanks s.toList) with
    | .ok x => .ok (.double x)
    | .error f => .error (.number f)
  | _ => .error (.conversion v type.name)

def coerceBoolean (v : Value) : Except Error Value :=
  match v with
  | .bool b => .ok (.bool b)
  | .int n => .ok (.bool (n ≠ 0))
  | .text s =>
    match truth? s with
    | some b => .ok (.bool b)
    | none => .error (.conversion v boolean.name)
  | _ => .error (.conversion v boolean.name)

def coerceBlob (v : Value) : Except Error Value :=
  match v with
  | .bytes b => .ok (.bytes b)
  | .text s => .ok (.bytes s.toUTF8)
  | _ => .error (.conversion v blob.name)

/-- Bytes become text if they are UTF-8. -/
def coerceText (v : Value) : Except Error Value :=
  match v with
  | .bytes b =>
    match String.fromUTF8? b with
    | some s => .ok (.text s)
    | none => .error (.conversion v string.name)
  | _ => .ok (.text v.display)

def coerce (type : FieldType) (v : Value) : Except Error Value :=
  if v = .null then .ok .null
  else match type with
    | integer => coerceInteger v
    | float | decimal => type.coerceDouble v
    | boolean => coerceBoolean v
    | blob => coerceBlob v
    | string | text | datetime | date | time => coerceText v

def ofName (s : String) : Except Error FieldType :=
  match ofName? s with
  | some t => .ok t
  | none => .error (.mapping (.unknownFieldType s))

end Persistence.Schema.FieldType
