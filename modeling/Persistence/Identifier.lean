import Persistence.OrderedMap
import Persistence.Value

/-!
Identifiers as callers write them: one value, or one value for each identifier field by name.
-/

namespace Persistence

inductive Identifier
  | scalar (v : Value)
  | composite (fields : OrderedMap String Value)
deriving DecidableEq

namespace Identifier

def isComposite : Identifier → Bool
  | scalar _ => false
  | composite _ => true

def scalar? : Identifier → Option Value
  | scalar v => some v
  | composite _ => none

def display : Identifier → String
  | scalar v => v.display
  | composite fields =>
    let parts := fields.toList.map fun (name, v) => name ++ ": " ++ v.display
    "\x7b" ++ ", ".intercalate parts ++ "\x7d"

end Identifier
end Persistence
