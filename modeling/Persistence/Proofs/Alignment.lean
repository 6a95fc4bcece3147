import Persistence.Proofs.Texts

/-!
Question marks and parameters. A statement whose names have no question mark has one for each of its
parameters, and each stands where the statement needs the value that is bound to it: an inserted or
assigned value behind its column, a compared value in its condition. A comparison with null takes
neither.
-/

namespace Persistence.Sql

/-- The values a filter compares with. A null is not compared. -/
def Filter.values (f : Filter) : List Value := (f.filter fun e => e.2 ≠ .null).map Prod.snd

def Filter.written (shown : Value → String) (f : Filter) : String :=
  if f = [] then ""
  else " WHERE " ++ " AND ".intercalate (f.map fun e =>
    e.1 ++ if e.2 = .null then " IS NULL" else " = " ++ shown e.2)

def Projection.written : Projection → String
  | columns names => ", ".intercalate names
  | count => "COUNT(*)"
  | aggregate f column => f.name ++ "(" ++ column ++ ")"

def Projection.names : Projection → List String
  | columns names => names
  | count => []
  | aggregate _ column => [column]

def orderWritten (order : List (String × Direction)) : String :=
  if order = [] then ""
  else " ORDER BY " ++ ", ".intercalate (order.map fun e => e.1 ++ " " ++ e.2.name)

def windowWritten : Option Nat → Option Nat → String
  | none, none => ""
  | some n, none => " LIMIT " ++ toString n
  | none, some k => " LIMIT -1" ++ " OFFSET " ++ toString k
  | some n, some k => " LIMIT " ++ toString n ++ " OFFSET " ++ toString k

namespace Statement

variable {s : Statement} {shown : Value → String}

/-- The values of a statement in their order. -/
def values : Statement → List Value
  | insert _ values => values.map Prod.snd
  | update _ assignments filter => assignments.map Prod.snd ++ Filter.values filter
  | delete _ filter => Filter.values filter
  | select query => Filter.values query.filter

/-- The text of a statement with its values in it, each shown in some way. -/
def written (shown : Value → String) : Statement → String
  | insert table values =>
    if values = [] then "INSERT INTO " ++ table ++ " DEFAULT VALUES"
    else "INSERT INTO " ++ table ++ " (" ++ ", ".intercalate (values.map Prod.fst) ++
      ") VALUES (" ++ ", ".intercalate (values.map fun e => shown e.2) ++ ")"
  | update table assignments filter =>
    "UPDATE " ++ table ++ " SET " ++
      ", ".intercalate (assignments.map fun e => e.1 ++ " = " ++ shown e.2) ++
      Filter.written shown filter
  | delete table filter => "DELETE FROM " ++ table ++ Filter.written shown filter
  | select query =>
    "SELECT " ++ query.projection.written ++ " FROM " ++ query.table ++
      Filter.written shown query.filter ++ orderWritten query.order ++
      windowWritten query.limit query.offset

def names : Statement → List String
  | insert table values => table :: values.map Prod.fst
  | update table assignments filter => table :: (assignments.map Prod.fst ++ filter.map Prod.fst)
  | delete table filter => table :: filter.map Prod.fst
  | select query =>
    query.table ::
      (query.projection.names ++ query.filter.map Prod.fst ++ query.order.map Prod.fst)

/-- No name of the statement has a question mark. -/
def Unmarked (s : Statement) : Prop := ∀ name ∈ s.names, '?' ∉ name.toList

instance : Decidable s.Unmarked := inferInstanceAs (Decidable (∀ name ∈ s.names, _))

end Statement

variable {shown : Value → String}

def Piece.told (shown : Value → String) : Piece → Piece
  | text s => .text s
  | value v => .text (shown v)

theorem map_separated (h : Piece → Piece) (separator : String)
    (hs : h (.text separator) = .text separator) (gs : List (List Piece)) :
    (separated separator gs).map h = separated separator (gs.map (List.map h)) := by
  induction gs with
  | nil => rfl
  | cons g gs ih =>
    cases gs with
    | nil => simp [separated]
    | cons g' gs =>
      rw [separated_cons_cons, List.map_append, List.map_cons, ih, hs]
      exact (separated_cons_cons ..).symm

def toldOf (shown : Value → String) (ps : List Piece) : String := sqlOf (ps.map (Piece.told shown))

theorem toldOf_append (ps qs : List Piece) :
    toldOf shown (ps ++ qs) = toldOf shown ps ++ toldOf shown qs := by
  rw [toldOf, List.map_append, sqlOf_append]
  rfl

@[simp] theorem toldOf_nil : toldOf shown [] = "" := rfl

@[simp] theorem toldOf_text (t : String) (ps : List Piece) :
    toldOf shown (.text t :: ps) = t ++ toldOf shown ps := sqlOf_cons ..

@[simp] theorem toldOf_value (v : Value) (ps : List Piece) :
    toldOf shown (.value v :: ps) = shown v ++ toldOf shown ps := sqlOf_cons ..

theorem toldOf_separated {α : Type} (separator : String) (g : α → List Piece) (xs : List α) :
    toldOf shown (separated separator (xs.map g)) =
      separator.intercalate (xs.map fun x => toldOf shown (g x)) := by
  rw [toldOf, map_separated _ _ rfl, sqlOf_separated, List.map_map, List.map_map]
  rfl

theorem sqlOf_eq_toldOf (ps : List Piece) : sqlOf ps = toldOf (fun _ => "?") ps := by
  induction ps with
  | nil => rfl
  | cons p ps ih =>
    rw [sqlOf_cons, ih]
    cases p <;> simp [Piece.sql]

theorem toldOf_filter (f : Filter) : toldOf shown (Filter.pieces f) = Filter.written shown f := by
  rw [Filter.pieces, Filter.written]
  by_cases hf : f = []
  · simp [hf]
  have hcondition (e : String × Value) : toldOf shown (condition e) =
      e.1 ++ if e.2 = .null then " IS NULL" else " = " ++ shown e.2 := by
    rw [condition]
    split <;> simp [assignment]
  simp only [List.isEmpty_eq_false_iff.mpr hf, hf, Bool.false_eq_true, if_false, toldOf_text,
    toldOf_separated, hcondition]

theorem toldOf_projection (p : Projection) : toldOf shown p.pieces = p.written := by
  cases p with
  | columns names => simp [Projection.pieces, Projection.written, toldOf_separated]
  | count => rfl
  | aggregate f column => simp [Projection.pieces, Projection.written, String.append_assoc]

def orderPieces (order : List (String × Direction)) : List Piece :=
  if order = [] then []
  else .text " ORDER BY " ::
    separated ", " (order.map fun e => [.text e.1, .text " ", .text e.2.name])

theorem toldOf_order (order : List (String × Direction)) :
    toldOf shown (orderPieces order) = orderWritten order := by
  rw [orderPieces, orderWritten]
  split
  · rfl
  · simp [toldOf_separated, String.append_assoc]

theorem toldOf_window (limit offset : Option Nat) :
    toldOf shown (window limit offset) = windowWritten limit offset := by
  cases limit <;> cases offset <;>
    simp only [window, windowWritten, List.cons_append, List.nil_append, List.append_nil,
      toldOf_text, toldOf_nil, String.append_empty, String.append_assoc]

theorem Select.pieces_eq (q : Select) :
    q.pieces = .text "SELECT " :: (q.projection.pieces ++ .text " FROM " :: .text q.table ::
      (Filter.pieces q.filter ++ orderPieces q.order ++ window q.limit q.offset)) := by
  simp [Select.pieces, orderPieces]

namespace Statement

theorem toldOf_pieces (s : Statement) : toldOf shown s.pieces = s.written shown := by
  unfold pieces written
  cases s with
  | insert table values =>
    by_cases hv : values = []
    · simp [hv, String.append_assoc]
    · simp [hv, toldOf_append, toldOf_separated, String.append_assoc]
  | update table assignments filter =>
    simp [toldOf_append, toldOf_separated, toldOf_filter, assignment, String.append_assoc]
  | delete table filter => simp [toldOf_filter, String.append_assoc]
  | select q =>
    simp only [Select.pieces_eq, toldOf_append, toldOf_text, toldOf_projection, toldOf_filter,
      toldOf_order, toldOf_window, String.append_assoc]

theorem sql_eq_written (s : Statement) : s.sql = s.written fun _ => "?" := by
  rw [sql, sqlOf_eq_toldOf, toldOf_pieces]

end Statement

theorem parametersOf_value (v : Value) (ps : List Piece) :
    parametersOf (.value v :: ps) = v :: parametersOf ps := rfl

@[simp] theorem parametersOf_nil : parametersOf [] = [] := rfl

theorem parametersOf_separated_map {α : Type} (separator : String) (g : α → List Piece)
    (xs : List α) :
    parametersOf (separated separator (xs.map g)) = xs.flatMap fun x => parametersOf (g x) := by
  rw [parametersOf_separated, List.flatMap_map]

theorem parametersOf_condition (e : String × Value) :
    parametersOf (condition e) = if e.2 = .null then [] else [e.2] := by
  rw [condition]
  split <;> rfl

theorem parametersOf_filter (f : Filter) : parametersOf (Filter.pieces f) = f.values := by
  have hvalues : f.flatMap (fun e => parametersOf (condition e)) = f.values := by
    induction f with
    | nil => rfl
    | cons e f ih =>
      rw [List.flatMap_cons, ih, parametersOf_condition, Filter.values, Filter.values]
      by_cases he : e.2 = .null <;> simp [he]
  rw [Filter.pieces]
  by_cases hf : f = []
  · subst hf
    rfl
  · rw [List.isEmpty_eq_false_iff.mpr hf, if_neg Bool.false_ne_true, parametersOf_text,
      parametersOf_separated_map, hvalues]

theorem parametersOf_projection (p : Projection) : parametersOf p.pieces = [] := by
  cases p with
  | columns names => simp [Projection.pieces, parametersOf_separated_map, parametersOf_text]
  | count => rfl
  | aggregate f column => rfl

theorem parametersOf_order (order : List (String × Direction)) :
    parametersOf (orderPieces order) = [] := by
  rw [orderPieces]
  split
  · rfl
  · simp [parametersOf_separated_map, parametersOf_text]

theorem parametersOf_window (limit offset : Option Nat) :
    parametersOf (window limit offset) = [] := by
  cases limit <;> cases offset <;> rfl

namespace Statement

theorem parameters_eq_values (s : Statement) : s.parameters = s.values := by
  cases s with
  | insert table values =>
    have hvalues : values.flatMap (fun e => parametersOf [.value e.2]) = values.map Prod.snd :=
      List.map_eq_flatMap.symm
    rw [parameters, pieces, Statement.values]
    by_cases hv : values = []
    · subst hv
      rfl
    · simp [hv, parametersOf_append, parametersOf_text, parametersOf_separated_map, hvalues]
  | update table assignments filter =>
    simp [parameters, pieces, Statement.values, parametersOf_text, parametersOf_append,
      parametersOf_assignments, parametersOf_filter]
  | delete table filter =>
    simp [parameters, pieces, Statement.values, parametersOf_text, parametersOf_filter]
  | select q =>
    simp [parameters, pieces, Statement.values, Select.pieces_eq, parametersOf_append,
      parametersOf_text, parametersOf_projection, parametersOf_filter, parametersOf_order,
      parametersOf_window]

end Statement

variable {ps : List Piece}

def fillFrom : List Char → List String → List Char
  | [], _ => []
  | c :: cs, [] => c :: cs
  | c :: cs, v :: vs => if c = '?' then v.toList ++ fillFrom cs vs else c :: fillFrom cs (v :: vs)

def fill (text : String) (vs : List String) : String := String.ofList (fillFrom text.toList vs)

def marks (text : String) : Nat := text.toList.count '?'

theorem fillFrom_nil (cs : List Char) : fillFrom cs [] = cs := by cases cs <;> rfl

theorem fillFrom_append_of_notMem {cs : List Char} (h : '?' ∉ cs) (ds : List Char)
    (vs : List String) : fillFrom (cs ++ ds) vs = cs ++ fillFrom ds vs := by
  cases vs with
  | nil => rw [fillFrom_nil, fillFrom_nil]
  | cons v vs =>
    induction cs with
    | nil => rfl
    | cons c cs ih =>
      rw [List.mem_cons, not_or] at h
      rw [List.cons_append, fillFrom, if_neg (Ne.symm h.1), ih h.2, List.cons_append]

def Plain (ps : List Piece) : Prop := ∀ t, .text t ∈ ps → '?' ∉ t.toList

theorem plain_nil : Plain [] := by simp [Plain]

theorem plain_text {t : String} : Plain (.text t :: ps) ↔ '?' ∉ t.toList ∧ Plain ps := by
  simp [Plain]

theorem plain_value {v : Value} : Plain (.value v :: ps) ↔ Plain ps := by simp [Plain]

theorem plain_append {qs : List Piece} : Plain (ps ++ qs) ↔ Plain ps ∧ Plain qs := by
  simp [Plain, or_imp, forall_and]

theorem plain_separated {α : Type} {separator : String} {g : α → List Piece} {xs : List α}
    (hs : '?' ∉ separator.toList) (h : ∀ x ∈ xs, Plain (g x)) :
    Plain (separated separator (xs.map g)) := by
  induction xs with
  | nil => exact plain_nil
  | cons x xs ih =>
    obtain ⟨hx, hxs⟩ := List.forall_mem_cons.mp h
    cases xs with
    | nil => simpa [separated] using hx
    | cons x' xs =>
      rw [List.map_cons, List.map_cons, separated_cons_cons, plain_append, plain_text]
      exact ⟨hx, hs, ih hxs⟩

theorem marks_sqlOf (h : Plain ps) : marks (sqlOf ps) = (parametersOf ps).length := by
  induction ps with
  | nil => rfl
  | cons p ps ih =>
    rw [marks, sqlOf_cons, String.toList_append, List.count_append]
    cases p with
    | text t =>
      obtain ⟨ht, hps⟩ := plain_text.mp h
      rw [Piece.sql, List.count_eq_zero.mpr ht, Nat.zero_add, parametersOf_text, ← ih hps, marks]
    | value v =>
      have hmark : "?".toList.count '?' = 1 := by decide
      rw [Piece.sql, hmark, parametersOf_value, List.length_cons, ← ih (plain_value.mp h), marks, Nat.add_comm]

theorem fill_sqlOf (h : Plain ps) :
    fill (sqlOf ps) ((parametersOf ps).map shown) = toldOf shown ps := by
  induction ps with
  | nil => rfl
  | cons p ps ih =>
    cases p with
    | text t =>
      obtain ⟨ht, hps⟩ := plain_text.mp h
      rw [toldOf_text, ← ih hps, fill, sqlOf_cons, String.toList_append, parametersOf_text, Piece.sql,
        fillFrom_append_of_notMem ht, String.ofList_append, String.ofList_toList, fill]
    | value v =>
      have hmark : fillFrom ("?".toList ++ (sqlOf ps).toList) ((v :: parametersOf ps).map shown) =
          (shown v).toList ++ fillFrom (sqlOf ps).toList ((parametersOf ps).map shown) := rfl
      rw [toldOf_value, ← ih (plain_value.mp h), fill, sqlOf_cons, String.toList_append,
        parametersOf_value, Piece.sql, hmark, String.ofList_append, String.ofList_toList, fill]

theorem plain_filter {f : Filter} (h : ∀ e ∈ f, '?' ∉ e.1.toList) : Plain (Filter.pieces f) := by
  rw [Filter.pieces]
  split
  · exact plain_nil
  refine plain_text.mpr ⟨by decide, plain_separated (by decide) fun e he => ?_⟩
  rw [condition]
  split <;> simp [assignment, plain_text, plain_value, plain_nil, h e he]

theorem plain_projection {p : Projection} (h : ∀ name ∈ p.names, '?' ∉ name.toList) :
    Plain p.pieces := by
  cases p with
  | columns names =>
    exact plain_separated (by decide) fun name hname => plain_text.mpr ⟨h name hname, plain_nil⟩
  | count => simp [Projection.pieces, plain_text, plain_nil]
  | aggregate f column =>
    have hname : '?' ∉ f.name.toList := by cases f <;> decide
    simp [Projection.pieces, plain_text, plain_nil, hname, h column (List.mem_singleton_self column)]

theorem plain_order {order : List (String × Direction)} (h : ∀ e ∈ order, '?' ∉ e.1.toList) :
    Plain (orderPieces order) := by
  rw [orderPieces]
  split
  · exact plain_nil
  refine plain_text.mpr ⟨by decide, plain_separated (by decide) fun e he => ?_⟩
  have hname : '?' ∉ e.2.name.toList := by cases e.2 <;> decide
  simp [plain_text, plain_nil, hname, h e he]

theorem notMem_toString (n : Nat) : '?' ∉ (toString n).toList := by
  intro hn
  rw [Nat.toString_eq_repr, Nat.toList_repr] at hn
  exact absurd (Nat.isDigit_of_mem_toDigits (by decide) (by decide) hn) (by decide)

theorem plain_window (limit offset : Option Nat) : Plain (window limit offset) := by
  cases limit <;> cases offset <;>
    simp [window, plain_text, plain_nil, notMem_toString, -Nat.toString_eq_repr]

namespace Statement

theorem Unmarked.plain {s : Statement} (h : s.Unmarked) : Plain s.pieces := by
  simp only [Unmarked] at h
  cases s with
  | insert table values =>
    simp only [names, List.forall_mem_cons, List.forall_mem_map] at h
    obtain ⟨htable, hvalues⟩ := h
    rw [pieces]
    split
    · simp [plain_text, plain_nil, htable]
    · have hcolumns : Plain (separated ", " (values.map fun e => [.text e.1])) :=
        plain_separated (by decide) fun e he => plain_text.mpr ⟨hvalues e he, plain_nil⟩
      have hplaces : Plain (separated ", " (values.map fun e => [.value e.2])) :=
        plain_separated (by decide) fun e _ => plain_value.mpr plain_nil
      simp [plain_append, plain_text, plain_nil, htable, hcolumns, hplaces]
  | update table assignments filter =>
    simp only [names, List.forall_mem_cons, List.forall_mem_append, List.forall_mem_map] at h
    obtain ⟨htable, hassignments, hfilter⟩ := h
    have hset : Plain (separated ", " (assignments.map assignment)) :=
      plain_separated (by decide) fun e he => by
        simp [assignment, plain_text, plain_value, plain_nil, hassignments e he]
    simp [pieces, plain_append, plain_text, htable, hset, plain_filter hfilter]
  | delete table filter =>
    simp only [names, List.forall_mem_cons, List.forall_mem_map] at h
    simp [pieces, plain_text, h.1, plain_filter h.2]
  | select q =>
    simp only [names, List.forall_mem_cons, List.forall_mem_append, List.forall_mem_map] at h
    obtain ⟨htable, ⟨hprojection, hfilter⟩, horder⟩ := h
    simp [pieces, Select.pieces_eq, plain_append, plain_text, htable,
      plain_projection hprojection, plain_filter hfilter, plain_order horder, plain_window]

/-- The parameters are the values of the statement, and the text has one question mark for each of
them, in the place of that value. -/
theorem parameters_of_unmarked (s : Statement) (h : s.Unmarked) :
    s.parameters = s.values ∧ marks s.sql = s.parameters.length ∧
      ∀ shown : Value → String, fill s.sql (s.parameters.map shown) = s.written shown :=
  ⟨s.parameters_eq_values, marks_sqlOf h.plain, fun _ => by
    rw [sql, parameters, fill_sqlOf h.plain, toldOf_pieces]⟩

section Samples

def leaving : Statement :=
  .update "people" [("team", .null), ("note", .text "left?")] [("nickname", .null), ("id", .int 7)]

theorem parameters_of_unmarked_leaving :
    leaving.Unmarked ∧
      leaving.parameters = [.null, .text "left?", .int 7] ∧
      leaving.sql = "UPDATE people SET team = ?, note = ? WHERE nickname IS NULL AND id = ?" ∧
      marks leaving.sql = 3 ∧
      ∀ shown : Value → String, fill leaving.sql (leaving.parameters.map shown) =
        leaving.written shown := by
  have hunmarked : leaving.Unmarked := by decide
  obtain ⟨hparameters, hmarks, hfill⟩ := parameters_of_unmarked leaving hunmarked
  have hvalues : leaving.parameters = [.null, .text "left?", .int 7] := by
    rw [hparameters]
    decide
  exact ⟨hunmarked, hvalues, by decide +kernel, by rw [hmarks, hvalues]; rfl, hfill⟩

end Samples

end Statement

end Persistence.Sql
