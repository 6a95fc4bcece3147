import Persistence.Proofs.Transactions

/-!
The texts of changes. Inserts, updates and deletes are told in full, with placeholders for the
values, which are the parameters in order.
-/

namespace Persistence

namespace Sql

theorem sqlOf_append (ps qs : List Piece) : sqlOf (ps ++ qs) = sqlOf ps ++ sqlOf qs := by
  rw [sqlOf, List.map_append, String.join_append]
  rfl

theorem sqlOf_cons (p : Piece) (ps : List Piece) : sqlOf (p :: ps) = p.sql ++ sqlOf ps :=
  sqlOf_append [p] ps

theorem parametersOf_append (ps qs : List Piece) :
    parametersOf (ps ++ qs) = parametersOf ps ++ parametersOf qs := List.filterMap_append

theorem parametersOf_text (s : String) (ps : List Piece) :
    parametersOf (.text s :: ps) = parametersOf ps := rfl

theorem separated_cons_cons (separator : String) (g g' : List Piece) (gs : List (List Piece)) :
    separated separator (g :: g' :: gs) =
      g ++ (.text separator :: separated separator (g' :: gs)) := by
  simp [separated, List.intercalate]

theorem sqlOf_separated (separator : String) (gs : List (List Piece)) :
    sqlOf (separated separator gs) = separator.intercalate (gs.map sqlOf) := by
  induction gs with
  | nil => rfl
  | cons g gs ih =>
    cases gs with
    | nil => simp [separated]
    | cons g' gs =>
      rw [separated_cons_cons, sqlOf_append, sqlOf_cons, ih, List.map_cons, List.map_cons,
        List.map_cons, String.intercalate_cons_cons, String.append_assoc]
      rfl

theorem parametersOf_separated (separator : String) (gs : List (List Piece)) :
    parametersOf (separated separator gs) = gs.flatMap parametersOf := by
  induction gs with
  | nil => rfl
  | cons g gs ih =>
    cases gs with
    | nil => simp [separated]
    | cons g' gs =>
      rw [separated_cons_cons, parametersOf_append, List.flatMap_cons, ← ih]
      rfl

end Sql

def equalities (separator : String) (es : List (String × Value)) : String :=
  separator.intercalate (es.map fun e => e.1 ++ " = ?")

namespace Call

def insert (table : String) (values : List (String × Value)) : Call :=
  .update
    (if values = [] then "INSERT INTO " ++ table ++ " DEFAULT VALUES"
    else "INSERT INTO " ++ table ++ " (" ++ ", ".intercalate (values.map Prod.fst) ++
      ") VALUES (" ++ ", ".intercalate (values.map fun _ => "?") ++ ")")
    (values.map Prod.snd)

def assign (table : String) (assignments conditions : List (String × Value)) : Call :=
  .update
    ("UPDATE " ++ table ++ " SET " ++ equalities ", " assignments ++ " WHERE " ++
      equalities " AND " conditions)
    (assignments.map Prod.snd ++ conditions.map Prod.snd)

def delete (table : String) (conditions : List (String × Value)) : Call :=
  .update ("DELETE FROM " ++ table ++ " WHERE " ++ equalities " AND " conditions)
    (conditions.map Prod.snd)

end Call

def Sql.Statement.call (s : Sql.Statement) : Call := .update s.sql s.parameters

namespace Sql

theorem sqlOf_assignments (separator : String) (es : List (String × Value)) :
    sqlOf (separated separator (es.map assignment)) = equalities separator es := by
  rw [sqlOf_separated, List.map_map, equalities]
  congr 1
  refine List.map_congr_left fun e _ => ?_
  simp [assignment, Piece.sql, sqlOf]

theorem parametersOf_assignments (separator : String) (es : List (String × Value)) :
    parametersOf (separated separator (es.map assignment)) = es.map Prod.snd := by
  rw [parametersOf_separated, List.flatMap_map, List.map_eq_flatMap]
  rfl

theorem pieces_of_ne_null {es : List (String × Value)} (hne : es ≠ [])
    (hnull : ∀ e ∈ es, e.2 ≠ .null) :
    Filter.pieces es = .text " WHERE " :: separated " AND " (es.map assignment) := by
  rw [Filter.pieces, List.isEmpty_eq_false_iff.mpr hne]
  simp only [Bool.false_eq_true, if_false]
  rw [List.map_congr_left fun e he => show condition e = assignment e from if_neg (hnull e he)]

theorem Statement.call_insert (table : String) (values : List (String × Value)) :
    (Statement.insert table values).call = Call.insert table values := by
  by_cases hv : values = []
  · subst hv
    simp [call, sql, parameters, pieces, Call.insert, sqlOf, parametersOf, Piece.sql,
      Piece.parameter?, String.append_assoc]
  have hcolumns : (values.map fun e => [Piece.text e.1]).map sqlOf = values.map Prod.fst := by
    rw [List.map_map]
    exact List.map_congr_left fun e _ => by simp [sqlOf, Piece.sql]
  have hmarks : (values.map fun e => [Piece.value e.2]).map sqlOf = values.map fun _ => "?" := by
    rw [List.map_map]
    exact List.map_congr_left fun e _ => by simp [sqlOf, Piece.sql]
  have hvalues : (values.map fun e => [Piece.value e.2]).flatMap parametersOf =
      values.map Prod.snd := by
    rw [List.flatMap_map, List.map_eq_flatMap]
    rfl
  have hnone : (values.map fun e => [Piece.text e.1]).flatMap parametersOf = [] := by
    rw [List.flatMap_map]
    exact List.flatMap_eq_nil_iff.mpr fun _ _ => rfl
  simp only [call, sql, parameters, pieces, List.isEmpty_eq_false_iff.mpr hv, Call.insert, hv,
    Bool.false_eq_true, if_false, sqlOf_append, parametersOf_append, parametersOf_text,
    sqlOf_separated, parametersOf_separated, hcolumns, hmarks, hvalues, hnone]
  simp [sqlOf, parametersOf, Piece.sql, String.append_assoc]

theorem Statement.call_update (table : String) (assignments : List (String × Value))
    {conditions : List (String × Value)} (hne : conditions ≠ [])
    (hnull : ∀ e ∈ conditions, e.2 ≠ .null) :
    (Statement.update table assignments conditions).call =
      Call.assign table assignments conditions := by
  simp only [call, sql, parameters, pieces, Call.assign, pieces_of_ne_null hne hnull, sqlOf_append,
    parametersOf_append, parametersOf_text, sqlOf_cons, sqlOf_assignments, parametersOf_assignments]
  simp [sqlOf, parametersOf, Piece.sql, String.append_assoc]

theorem Statement.call_delete (table : String) {conditions : List (String × Value)}
    (hne : conditions ≠ []) (hnull : ∀ e ∈ conditions, e.2 ≠ .null) :
    (Statement.delete table conditions).call = Call.delete table conditions := by
  simp only [call, sql, parameters, pieces, Call.delete, pieces_of_ne_null hne hnull, sqlOf_append,
    parametersOf_append, parametersOf_text, sqlOf_cons, sqlOf_assignments, parametersOf_assignments]
  simp [sqlOf, parametersOf, Piece.sql, String.append_assoc]

end Sql
end Persistence
