import Persistence.OrderedMap
import Persistence.Text.Ascii
import Persistence.Value

/-!
Result rows: column names with their values, in the order the columns were selected.

Databases differ in the case they report column names in, so a look-up that finds no column of
the exact name takes the first whose name differs in case only.
-/

namespace Persistence

structure Row where
  columns : OrderedMap String Value
deriving DecidableEq

namespace Row

def ofList (columns : List (String × Value)) : Row := ⟨.ofList columns⟩

def get? (row : Row) (column : String) : Option Value :=
  (row.columns.get? column).or
    ((row.columns.toList.find? fun e => Text.sameName e.1 column).map Prod.snd)

def first? (row : Row) : Option Value := row.columns.values.head?

def size (row : Row) : Nat := row.columns.size

def isEmpty (row : Row) : Bool := row.columns.isEmpty

end Row
end Persistence
