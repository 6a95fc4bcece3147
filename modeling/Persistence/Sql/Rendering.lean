import Persistence.Sql.Statement

/-!
Rendering of statements as SQL text with placeholders.

A statement is rendered as a list of pieces, each either text or a value in the place it is
needed. The text shows `?` for every value, and the parameters are the values in order, so the two
agree by construction and no value is ever part of the text.
-/

namespace Persistence.Sql

inductive Piece
  | text (s : String)
  | value (v : Value)

namespace Piece

def sql : Piece → String
  | text s => s
  | value _ => "?"

def parameter? : Piece → Option Value
  | text _ => none
  | value v => some v

end Piece

def sqlOf (ps : List Piece) : String := String.join (ps.map Piece.sql)

def parametersOf (ps : List Piece) : List Value := ps.filterMap Piece.parameter?

/-- Joins groups of pieces by a separating text. -/
def separated (separator : String) (groups : List (List Piece)) : List Piece :=
  List.intercalate [.text separator] groups

def assignment (e : String × Value) : List Piece := [.text e.1, .text " = ", .value e.2]

def condition (e : String × Value) : List Piece :=
  if e.2 = .null then [.text e.1, .text " IS NULL"] else assignment e

/-- The `WHERE` clause, which is absent if there is no condition. -/
def Filter.pieces (f : Filter) : List Piece :=
  if f.isEmpty then [] else .text " WHERE " :: separated " AND " (f.map condition)

def Projection.pieces : Projection → List Piece
  | columns names => separated ", " (names.map fun n => [.text n])
  | count => [.text "COUNT(*)"]
  | aggregate f column => [.text f.name, .text "(", .text column, .text ")"]

/-- An offset needs a limit in front of it; `-1` is the limit that leaves all rows. -/
def window (limit offset : Option Nat) : List Piece :=
  let cut := match limit, offset with
    | some n, _ => [.text " LIMIT ", .text (toString n)]
    | none, some _ => [.text " LIMIT -1"]
    | none, none => []
  let skip := match offset with
    | some n => [.text " OFFSET ", .text (toString n)]
    | none => []
  cut ++ skip

def Select.pieces (s : Select) : List Piece :=
  let order :=
    if s.order.isEmpty then []
    else .text " ORDER BY " ::
      separated ", " (s.order.map fun (c, d) => [.text c, .text " ", .text d.name])
  [.text "SELECT "] ++ s.projection.pieces ++ [.text " FROM ", .text s.table] ++
    Filter.pieces s.filter ++ order ++ window s.limit s.offset

def Statement.pieces : Statement → List Piece
  | insert table values =>
    if values.isEmpty then [.text "INSERT INTO ", .text table, .text " DEFAULT VALUES"]
    else
      [.text "INSERT INTO ", .text table, .text " ("] ++
        separated ", " (values.map fun e => [.text e.1]) ++ [.text ") VALUES ("] ++
        separated ", " (values.map fun e => [.value e.2]) ++ [.text ")"]
  | update table assignments filter =>
    [.text "UPDATE ", .text table, .text " SET "] ++
      separated ", " (assignments.map assignment) ++ Filter.pieces filter
  | delete table filter => [.text "DELETE FROM ", .text table] ++ Filter.pieces filter
  | select query => query.pieces

def Statement.sql (s : Statement) : String := sqlOf s.pieces

def Statement.parameters (s : Statement) : List Value := parametersOf s.pieces

end Persistence.Sql
