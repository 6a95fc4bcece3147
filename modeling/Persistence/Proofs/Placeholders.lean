import Persistence.Proofs.Binding
import Persistence.Proofs.Joining

/-!
Placeholders. Outside of strings a compiled query has one question mark for each of its parameters, in
their order, and besides them those that stood in its text. So a query whose text has none is bound
with one value for each placeholder.
-/

namespace Persistence.ObjectQuery

open Schema (Metadata Registry)
open Token (Readable isQuote isWordChar)

variable {c quote : Char} {cs ds rest body : List Char} {o : Option Char} {s : String}

def quoteAfter (o : Option Char) (c : Char) : Option Char :=
  match o with
  | none => if isQuote c then some c else none
  | some quote => if c = quote then none else some quote

/-- The quote that is open behind a text. A quote written twice in a string closes and opens it. -/
def openAfter (o : Option Char) (cs : List Char) : Option Char := cs.foldl quoteAfter o

def marksFrom (o : Option Char) : List Char → Nat
  | [] => 0
  | c :: cs => (if o = none ∧ c = '?' then 1 else 0) + marksFrom (quoteAfter o c) cs

def placeholders (sql : String) : Nat := marksFrom none sql.toList

def fillFrom (o : Option Char) : List Char → List String → List Char
  | [], _ => []
  | c :: cs, [] => c :: fillFrom (quoteAfter o c) cs []
  | c :: cs, v :: vs =>
    if o = none ∧ c = '?' then v.toList ++ fillFrom (quoteAfter o c) cs vs
    else c :: fillFrom (quoteAfter o c) cs (v :: vs)

def fill (sql : String) (vs : List String) : String := String.ofList (fillFrom none sql.toList vs)

@[simp] theorem openAfter_nil (o : Option Char) : openAfter o [] = o := rfl

@[simp] theorem openAfter_cons (o : Option Char) (c : Char) (cs : List Char) :
    openAfter o (c :: cs) = openAfter (quoteAfter o c) cs := rfl

theorem openAfter_append (o : Option Char) (cs ds : List Char) :
    openAfter o (cs ++ ds) = openAfter (openAfter o cs) ds := List.foldl_append

theorem marksFrom_append (o : Option Char) (cs ds : List Char) :
    marksFrom o (cs ++ ds) = marksFrom o cs + marksFrom (openAfter o cs) ds := by
  induction cs generalizing o with
  | nil => simp [marksFrom]
  | cons c cs ih => simp only [List.cons_append, marksFrom, ih, openAfter_cons, Nat.add_assoc]

theorem fillFrom_append_of_marksFrom_eq_zero (h : marksFrom o cs = 0) (ds : List Char) (vs : List String) :
    fillFrom o (cs ++ ds) vs = cs ++ fillFrom (openAfter o cs) ds vs := by
  induction cs generalizing o with
  | nil => rfl
  | cons c cs ih =>
    obtain ⟨hc, hcs⟩ := Nat.add_eq_zero_iff.mp h
    have hnot : ¬ (o = none ∧ c = '?') := by simpa using hc
    cases vs with
    | nil => rw [List.cons_append, fillFrom, ih hcs]; rfl
    | cons v vs => rw [List.cons_append, fillFrom, if_neg hnot, ih hcs]; rfl

def Closed (s : String) : Prop := openAfter none s.toList = none

/-- The text can stand in SQL without opening a string or bringing a placeholder. -/
structure Quiet (s : String) : Prop where
  closed : Closed s
  placeholders_eq : placeholders s = 0

theorem Closed.append {t : String} (hs : Closed s) (ht : Closed t) : Closed (s ++ t) := by
  rw [Closed, String.toList_append, openAfter_append, hs]
  exact ht

theorem Closed.placeholders_append (hs : Closed s) (t : String) :
    placeholders (s ++ t) = placeholders s + placeholders t := by
  rw [placeholders, String.toList_append, marksFrom_append, hs]
  rfl

theorem Quiet.append {t : String} (hs : Quiet s) (ht : Quiet t) : Quiet (s ++ t) :=
  ⟨hs.closed.append ht.closed, by rw [hs.closed.placeholders_append, hs.placeholders_eq, ht.placeholders_eq]⟩

def IsQuietChar (c : Char) : Prop := isQuote c = false ∧ c ≠ '?'

theorem marks_of_forall (h : ∀ c ∈ cs, IsQuietChar c) :
    openAfter none cs = none ∧ marksFrom none cs = 0 := by
  induction cs with
  | nil => exact ⟨rfl, rfl⟩
  | cons c cs ih =>
    obtain ⟨⟨hquote, hmark⟩, hcs⟩ := List.forall_mem_cons.mp h
    have hnone : quoteAfter none c = none := by simp [quoteAfter, hquote]
    rw [openAfter_cons, marksFrom, hnone]
    simpa [hmark] using ih hcs

theorem quiet_of_forall (h : ∀ c ∈ s.toList, IsQuietChar c) : Quiet s :=
  ⟨(marks_of_forall h).1, (marks_of_forall h).2⟩

theorem isQuietChar_of {p : Char → Bool} (hp : ['\'', '"', '?'].any p = false) (h : p c = true) :
    IsQuietChar c := by
  rw [List.any_eq_false] at hp
  constructor
  · rw [Bool.eq_false_iff]
    intro hquote
    rcases Bool.or_eq_true_iff.mp hquote with hq | hq <;>
    · obtain rfl := eq_of_beq hq
      simp [hp] at h
  · rintro rfl
    simp [hp] at h

theorem isQuietChar_of_isWordChar (h : isWordChar c = true) : IsQuietChar c :=
  isQuietChar_of (by decide) h

theorem isQuietChar_of_isNumberChar (h : Token.isNumberChar c = true) : IsQuietChar c :=
  isQuietChar_of (by decide) h

instance : Decidable (Quiet s) :=
  decidable_of_iff (openAfter none s.toList = none ∧ placeholders s = 0)
    ⟨fun h => ⟨h.1, h.2⟩, fun h => ⟨h.1, h.2⟩⟩

theorem quiet_of_isWord (h : Token.isWord s = true) : Quiet s :=
  quiet_of_forall fun c hc => isQuietChar_of_isWordChar (Token.isWordChar_of_isWord h c hc)

theorem string_of_closing (hquote : isQuote quote = true)
    (h : Token.closing quote cs = some (body, rest)) :
    openAfter (some quote) body = none ∧ marksFrom (some quote) body = 0 := by
  fun_induction Token.closing quote cs generalizing body with
  | case1 => simp at h
  | case2 =>
    obtain ⟨rfl, rfl⟩ := Prod.mk.inj (Option.some.inj h)
    simp [quoteAfter, marksFrom]
  | case3 => simp at h
  | case4 tail ih =>
    -- the first quote closes the string for a moment, the second one opens it again
    obtain ⟨⟨b, r⟩, hr, he⟩ := Option.map_eq_some_iff.mp h
    obtain ⟨rfl, rfl⟩ := Prod.mk.inj he
    have hmark : quote ≠ '?' := by
      rintro rfl
      exact absurd hquote (by decide)
    simpa [quoteAfter, marksFrom, hquote, hmark] using ih hr
  | case5 d tail hne =>
    obtain ⟨rfl, rfl⟩ := Prod.mk.inj (Option.some.inj h)
    simp [quoteAfter, marksFrom]
  | case6 c d tail hne ih =>
    obtain ⟨⟨b, r⟩, hr, he⟩ := Option.map_eq_some_iff.mp h
    obtain ⟨rfl, rfl⟩ := Prod.mk.inj he
    simpa [quoteAfter, marksFrom, hne] using ih hr

/-- A question mark that names no parameter. -/
def isBareMark (t : Token) : Bool := t.isMark "?"

variable {t : Token} {ts : Tokens}

theorem marks_of_next {kind : Token.Kind} {text : List Char} (hk : kind ≠ .parameter)
    (h : Token.next c cs = some (kind, text, rest)) : openAfter none text = none ∧
      marksFrom none text = if kind = .mark ∧ text = ['?'] then 1 else 0 := by
  obtain ⟨body, -, h⟩ := Token.lexeme_of_next h
  cases h with
  | word hc hbody _ =>
    refine marks_of_forall (List.forall_mem_cons.mpr ⟨?_, fun d hd => ?_⟩)
    · exact isQuietChar_of (p := Token.isWordStart) (by decide) hc
    · exact isQuietChar_of_isWordChar (hbody d hd)
  | number _ hc hbody _ =>
    refine marks_of_forall (List.forall_mem_cons.mpr ⟨?_, fun d hd => ?_⟩)
    · exact isQuietChar_of (by decide) hc
    · exact isQuietChar_of_isNumberChar (hbody d hd)
  | string hquote hclosing =>
    have hmark : c ≠ '?' := by
      rintro rfl
      exact absurd hquote (by decide)
    simpa [marksFrom, quoteAfter, hquote, hmark] using string_of_closing hquote hclosing
  | parameter => exact absurd rfl hk
  | @pair d _ hpair =>
    have hpairs : ∀ p ∈ Token.pairs, openAfter none [p.1, p.2] = none ∧
        marksFrom none [p.1, p.2] = 0 := by decide
    simpa using hpairs (c, d) hpair
  | mark _ _ hquote _ => simp [marksFrom, quoteAfter, hquote]

theorem closed_of_reads {more : List Char} (h : t.Reads more) (hk : t.kind ≠ .parameter) :
    Closed t.text ∧ placeholders t.text = if isBareMark t then 1 else 0 := by
  obtain ⟨c, cs, hsource, -, hnext⟩ := h
  have hmarks := marks_of_next hk hnext
  have htext : t.text = "?" ↔ t.text.toList = ['?'] := by
    rw [← String.toList_inj]
    rfl
  refine ⟨hmarks.1, hmarks.2.trans ?_⟩
  simp [isBareMark, Token.isMark, htext]

inductive Brings : Nat → List Fragment → Prop
  | nil : Brings 0 []
  | text {n : Nat} {s : String} {fs : List Fragment} : Closed s → Brings n fs →
      Brings (placeholders s + n) (.text s :: fs)
  | parameter {n : Nat} {name : String} {fs : List Fragment} : Brings n fs →
      Brings n (.parameter name :: fs)

variable {n : Nat} {fs gs : List Fragment}

theorem Brings.append {k : Nat} (hfs : Brings n fs) (hgs : Brings k gs) : Brings (n + k) (fs ++ gs) := by
  induction hfs with
  | nil => rwa [Nat.zero_add, List.nil_append]
  | text hs _ ih => exact Nat.add_assoc .. ▸ .text hs ih
  | parameter _ ih => exact .parameter ih

theorem Brings.cons (hs : Quiet s) (hfs : Brings n fs) : Brings n (.text s :: fs) := by
  simpa [hs.placeholders_eq] using hfs.text hs.closed

theorem brings_quiet (hs : Quiet s) : Brings 0 [.text s] := .cons hs .nil

theorem Brings.flatMap {α : Type} {f : α → List Fragment} {l : List α} (h : ∀ x ∈ l, Brings 0 (f x)) :
    Brings 0 (l.flatMap f) := by
  induction l with
  | nil => exact .nil
  | cons x l ih =>
    obtain ⟨hx, hl⟩ := List.forall_mem_cons.mp h
    exact hx.append (ih hl)

/-- What is written for a fragment, with given texts in place of parameters. -/
def Fragment.write (g : String → String) : Fragment → String
  | .text s => s
  | .parameter name => g name

theorem Brings.placeholders_eq (h : Brings n fs) :
    placeholders (Compiled.ofFragments fs).sql = (parametersOf fs).length + n := by
  induction h with
  | nil => rfl
  | text hs _ ih =>
    rw [sql_cons, Fragment.sql, hs.placeholders_append, ih, parametersOf_text]
    omega
  | @parameter n name fs _ ih =>
    have hmark : Closed "?" := (by decide : openAfter none "?".toList = none)
    have hparameters : parametersOf (.parameter name :: fs) = name :: parametersOf fs := rfl
    rw [sql_cons, Fragment.sql, hmark.placeholders_append, ih, hparameters, List.length_cons,
      show placeholders "?" = 1 by decide]
    omega

theorem Brings.fill_eq (h : Brings 0 fs) (g : String → String) :
    fill (Compiled.ofFragments fs).sql ((parametersOf fs).map g) =
      String.join (fs.map (Fragment.write g)) := by
  suffices hchars : fillFrom none (Compiled.ofFragments fs).sql.toList ((parametersOf fs).map g) =
      (String.join (fs.map (Fragment.write g))).toList by rw [fill, hchars, String.ofList_toList]
  generalize hn : 0 = n at h
  induction h with
  | nil => rfl
  | @text n s fs hs _ ih =>
    obtain ⟨hmarks, hrest⟩ := Nat.add_eq_zero_iff.mp hn.symm
    rw [sql_cons, String.toList_append, List.map_cons, String.join_cons, String.toList_append,
      ← ih hrest.symm, Fragment.sql, fillFrom_append_of_marksFrom_eq_zero hmarks, hs]
    rfl
  | @parameter n name fs _ ih =>
    have hparameters : parametersOf (.parameter name :: fs) = name :: parametersOf fs := rfl
    rw [sql_cons, String.toList_append, List.map_cons, String.join_cons, String.toList_append, ← ih hn,
      hparameters, show (Fragment.parameter name).sql.toList = ['?'] by simp [Fragment.sql], List.map_cons,
      List.singleton_append, fillFrom, if_pos ⟨rfl, rfl⟩]
    rfl

structure EachName (P : String → Prop) (m : Metadata) : Prop where
  table : P m.fullTableName
  columns : ∀ f ∈ m.fields, P f.column
  joinColumns : ∀ a ∈ m.associations, ∀ c ∈ a.joinColumn, P c.name ∧ P c.referenced
  joinTables : ∀ a ∈ m.associations, ∀ t ∈ a.joinTable, P t.fullName ∧
    ∀ c ∈ t.joinColumns ++ t.inverseColumns, P c.name ∧ P c.referenced

abbrev QuietNames (m : Metadata) : Prop := EachName Quiet m

variable {scope : Scope} {m : Metadata}

theorem isBareMark_of_ne (h : t.kind ≠ .mark) : isBareMark t = false := by
  simp [isBareMark, Token.isMark, h]

theorem brings_ofToken {more : List Char} (h : t.Reads more) :
    Brings (if isBareMark t then 1 else 0) [Fragment.ofToken t] := by
  rw [Fragment.ofToken]
  by_cases hk : t.kind = .parameter
  · rw [if_pos hk, isBareMark_of_ne (by simp [hk])]
    exact .parameter .nil
  · obtain ⟨hclosed, hmarks⟩ := closed_of_reads h hk
    rw [if_neg hk, ← hmarks]
    exact .text hclosed .nil

theorem quiet_gap (t : Token) : Quiet t.gap := by
  rw [Token.gap]
  split <;> decide

theorem EachName.column {P : String → Prop} {name column : String} (hm : EachName P m)
    (h : Names m name column) : P column := by
  rcases h with ⟨f, hf, -, rfl⟩ | ⟨-, rfl, f, hf, rfl⟩
  · exact hm.columns f hf
  · exact hm.columns f hf

theorem brings_of_fragmentsOfTokens (hscope : ∀ a m, scope.get? a = some m → QuietNames m)
    (hts : Readable ts) (h : fragmentsOfTokens scope ts = .ok fs) : Brings (ts.countP isBareMark) fs := by
  induction ts using reading_induction scope generalizing fs with
  | nil =>
    obtain rfl := Except.ok.inj h
    exact .nil
  | reference owner dot field rest m href ih =>
    rw [fragmentsOfTokens_reference href] at h
    obtain ⟨column, hcolumn, h⟩ := bind_eq_ok h
    obtain ⟨gs, hgs, hfs⟩ := bind_eq_ok h
    obtain rfl := Except.ok.inj hfs
    obtain ⟨⟨howner, hdot, -, hfield, -⟩, hm⟩ := reference?_eq_some_iff.mp href
    have hdot' : isBareMark dot = false := by
      simp [isBareMark, Token.isMark, text_of_isMark hdot]
    have hcolumn' := (hscope _ m hm).column (columnFor_eq_ok_iff.mp hcolumn)
    have hquiet := ((quiet_of_isWord (hts.1.isWord (.inl howner))).append
      (show Quiet "." by decide)).append hcolumn'
    rw [List.countP_cons_of_neg (by simp [isBareMark_of_ne, howner]),
      List.countP_cons_of_neg (by simp [hdot']),
      List.countP_cons_of_neg (by simp [isBareMark_of_ne, hfield])]
    exact .cons (quiet_gap owner) (.cons hquiet (ih hts.2.2.2 hgs))
  | cons t ts hlead ih =>
    rw [fragmentsOfTokens_cons hlead] at h
    obtain ⟨gs, hgs, rfl⟩ := map_eq_ok h
    have htail := (brings_ofToken hts.1).append (ih hts.2 hgs)
    rw [List.countP_cons, Nat.add_comm]
    exact Brings.cons (quiet_gap t) htail

theorem countP_unspaceHead (ts : Tokens) :
    (Token.unspaceHead ts).countP isBareMark = ts.countP isBareMark := by
  cases ts <;> rfl

def QuietScope (scope : Scope) : Prop := ∀ a m, scope.get? a = some m → QuietNames m

theorem brings_of_fragmentsOfText (hscope : QuietScope scope) (hts : Readable ts)
    (h : fragmentsOfText scope (Token.join ts) = .ok fs) : Brings (ts.countP isBareMark) fs := by
  rw [fragmentsOfText_join hts] at h
  exact countP_unspaceHead ts ▸ brings_of_fragmentsOfTokens hscope hts.unspaceHead h

def bareMarks (clauses : List Tokens) : Nat := clauses.flatten.countP isBareMark

theorem brings_of_optionalClause {keyword : String} {text : Option String} {clause : Option Tokens}
    {found : Option (List Fragment)} (hscope : QuietScope scope) (hkeyword : Quiet keyword)
    (hclause : Spells text clause) (h : optionalClause scope text = .ok found) :
    Brings (bareMarks clause.toList) (found.elim [] (.text keyword :: ·)) := by
  rw [hclause.text_eq] at h
  cases clause with
  | none =>
    obtain rfl := Except.ok.inj h
    exact .nil
  | some ts =>
    obtain ⟨gs, hgs, rfl⟩ := map_eq_ok h
    have hgs := brings_of_fragmentsOfText hscope (hclause.readable ts rfl) hgs
    simpa [bareMarks] using hgs.cons hkeyword

theorem quiet_intercalate {separator : String} {l : List String} (hseparator : Quiet separator)
    (h : ∀ s ∈ l, Quiet s) : Quiet (separator.intercalate l) := by
  induction l with
  | nil =>
    rw [String.intercalate_nil]
    decide
  | cons s l ih =>
    obtain ⟨hs, hl⟩ := List.forall_mem_cons.mp h
    cases l with
    | nil => simpa using hs
    | cons u l =>
      rw [String.intercalate_cons_cons]
      exact (hs.append hseparator).append (ih hl)

theorem quiet_qualifiedColumn {qc : Schema.QualifiedColumn} (ha : Quiet qc.aliasName) (hc : Quiet qc.column) :
    Quiet qc.text :=
  (ha.append (show Quiet "." by decide)).append hc

structure QuietStep (step : Schema.JoinStep) : Prop where
  table : Quiet step.table
  aliasName : Quiet step.aliasName
  condition : Quiet step.condition

variable {a b : Schema.Association} {target : Metadata} {sourceAlias targetAlias : String}
  {joined : Schema.AssociationJoin}

theorem quiet_condition {step : Schema.JoinStep} (h : ∀ e ∈ step.equalities, Quiet e.left.text ∧
    Quiet e.right.text) : Quiet step.condition := by
  refine quiet_intercalate (by decide) (List.forall_mem_map.mpr fun e he => ?_)
  exact ((h e he).1.append (show Quiet " = " by decide)).append (h e he).2

theorem EachName.of_storedBy {P : String → Prop} (hm : EachName P m) (ha : a ∈ m.associations)
    (htarget : EachName P target) (hb : a.StoredBy target b) :
    (∀ c ∈ b.joinColumn, P c.name ∧ P c.referenced) ∧ ∀ t ∈ b.joinTable,
      P t.fullName ∧ ∀ c ∈ t.joinColumns ++ t.inverseColumns, P c.name ∧ P c.referenced := by
  rcases hb with rfl | hb
  · exact ⟨hm.joinColumns b ha, hm.joinTables b ha⟩
  · exact ⟨htarget.joinColumns b hb, htarget.joinTables b hb⟩

theorem quietSteps_of_joinsBy (h : a.JoinsBy target sourceAlias targetAlias joined)
    (hm : QuietNames m) (ha : a ∈ m.associations) (htarget : QuietNames target)
    (hsource : Quiet sourceAlias) (halias : Quiet targetAlias) : ∀ step ∈ joined.steps, QuietStep step := by
  have hlink : Quiet (Schema.linkAlias sourceAlias targetAlias) :=
    (hsource.append (show Quiet "_" by decide)).append halias
  cases h with
  | @direct b c e _ hb hc he =>
    have hcolumn := (hm.of_storedBy ha htarget hb).1 c hc
    have hstep : QuietStep ⟨target.fullTableName, targetAlias, [e]⟩ := by
      refine ⟨htarget.table, halias, quiet_condition (List.forall_mem_singleton.mpr ?_)⟩
      rcases he with rfl | rfl
      · exact ⟨quiet_qualifiedColumn hsource hcolumn.1, quiet_qualifiedColumn halias hcolumn.2⟩
      · exact ⟨quiet_qualifiedColumn halias hcolumn.1, quiet_qualifiedColumn hsource hcolumn.2⟩
    exact List.forall_mem_singleton.mpr hstep
  | @through b t toSource toTarget _ hb ht hcolumns =>
    obtain ⟨htable, htables⟩ := (hm.of_storedBy ha htarget hb).2 t ht
    obtain ⟨htoSource, htoTarget⟩ := List.forall_mem_append.mp fun c hc => htables c (hcolumns c hc)
    refine List.forall_mem_cons.mpr ⟨⟨htable, hlink, ?_⟩, List.forall_mem_singleton.mpr
      ⟨htarget.table, halias, ?_⟩⟩
    · refine quiet_condition (List.forall_mem_map.mpr fun c hc => ?_)
      exact ⟨quiet_qualifiedColumn hlink (htoSource c hc).1,
        quiet_qualifiedColumn hsource (htoSource c hc).2⟩
    · refine quiet_condition (List.forall_mem_map.mpr fun c hc => ?_)
      exact ⟨quiet_qualifiedColumn halias (htoTarget c hc).2,
        quiet_qualifiedColumn hlink (htoTarget c hc).1⟩

/-- All that is described has names that can stand in SQL. -/
def QuietView (view : String → Except Error Metadata) : Prop := ∀ c m, view c = .ok m → QuietNames m

variable {view : String → Except Error Metadata} {aliases : OrderedMap String String} {j : Join}
  {x : JoinAnswer} {clause : Option Tokens} {tables : List TableJoin}

theorem quietSteps_of_associationJoinBy {source association : String} (hview : QuietView view)
    (h : associationJoinBy view source association sourceAlias targetAlias = .ok joined)
    (hsource : Quiet sourceAlias) (halias : Quiet targetAlias) : ∀ step ∈ joined.steps, QuietStep step := by
  obtain ⟨m, hm, h⟩ := bind_eq_ok h
  split at h
  · simp at h
  · rename_i a ha
    obtain ⟨target, htarget, h⟩ := bind_eq_ok h
    exact quietSteps_of_joinsBy (Schema.Association.joinsBy_of_join h) (hview source m hm)
      (List.mem_of_find?_eq_some ha) (hview _ target htarget) hsource halias

theorem brings_fragments {t : TableJoin} (htable : Quiet t.table) (halias : Quiet t.aliasName)
    (hcondition : Brings n t.condition) : Brings n t.fragments := by
  refine hcondition.cons (Quiet.append ?_ (by decide))
  refine ((Quiet.append ?_ htable).append (by decide)).append halias
  cases t.kind <;> decide

theorem brings_ofStep {kind : JoinKind} {step : Schema.JoinStep} (h : QuietStep step)
    (hfs : Brings n fs) : Brings n (TableJoin.ofStep kind step fs).fragments :=
  brings_fragments h.table h.aliasName (hfs.cons h.condition)

theorem brings_of_joinTables (hview : QuietView view) (hscope : QuietScope scope)
    (haliases : ∀ a ∈ aliases.keys, Quiet a) (halias : Quiet j.aliasName) (hj : j.Spells clause)
    (hx : JoinResolves view aliases j x) (h : joinTables scope j x = .ok tables) :
    Brings (bareMarks clause.toList) (tables.flatMap TableJoin.fragments) := by
  cases hx with
  | @explicit m hnone hm =>
    obtain ⟨ts, rfl⟩ := Option.isSome_iff_exists.mp (hj.required hnone)
    obtain ⟨fs, hfs, htables⟩ := bind_eq_ok h
    obtain rfl := Except.ok.inj htables
    rw [hj.text.text_eq] at hfs
    have hfs := brings_of_fragmentsOfText hscope (hj.text.readable ts rfl) hfs
    have htable := brings_fragments (t := ⟨j.kind, m.fullTableName, j.aliasName, fs⟩)
      (hview _ _ hm).table halias hfs
    simpa [bareMarks] using htable
  | @associated m ref source joined _ hm hsource hjoined =>
    obtain ⟨extra, hextra, htables⟩ := bind_eq_ok h
    obtain rfl := Except.ok.inj htables
    have hsourceAlias : Quiet ref.source :=
      haliases _ ((aliases.get?_isSome_iff _).mp (by rw [hsource, Option.isSome_some]))
    obtain ⟨hlinks, htarget⟩ := List.forall_mem_append.mp
      (quietSteps_of_associationJoinBy hview hjoined hsourceAlias halias)
    have hextra' : Brings (bareMarks clause.toList) extra := by
      rw [hj.text.text_eq] at hextra
      cases clause with
      | none =>
        obtain rfl := Except.ok.inj hextra
        exact .nil
      | some ts =>
        obtain ⟨fs, hfs, hextra⟩ := bind_eq_ok hextra
        obtain rfl := Except.ok.inj hextra
        have hfs := brings_of_fragmentsOfText hscope (hj.text.readable ts rfl) hfs
        simpa [bareMarks] using (hfs.append (brings_quiet (show Quiet ")" by decide))).cons
          (show Quiet " AND (" by decide)
    have hbefore : Brings 0 ((joined.links.map (TableJoin.ofStep j.kind · [])).flatMap TableJoin.fragments) :=
      .flatMap (List.forall_mem_map.mpr fun step hstep => brings_ofStep (hlinks step hstep) .nil)
    have hlast : Brings _ (TableJoin.ofStep j.kind joined.targetStep extra).fragments :=
      brings_ofStep (htarget _ (List.mem_singleton_self _)) hextra'
    simpa [List.flatMap_append] using hbefore.append hlast

theorem QuietScope.insert (hscope : QuietScope scope) (hm : QuietNames m) (a : String) :
    QuietScope (scope.insert a m) := by
  intro b md hmd
  rw [OrderedMap.get?_insert] at hmd
  split at hmd
  · exact Option.some.inj hmd ▸ hm
  · exact hscope b md hmd

theorem QuietScope.extend {ds : List (Join × Metadata)} (hscope : QuietScope scope)
    (hds : ∀ d ∈ ds, QuietNames d.2) : QuietScope (extend scope ds) := by
  induction ds generalizing scope with
  | nil => exact hscope
  | cons d ds ih =>
    obtain ⟨hd, hds⟩ := List.forall_mem_cons.mp hds
    exact ih (hscope.insert hd d.1.aliasName) hds

theorem brings_of_tablesOfJoins {js : List Join} {xs : List JoinAnswer} {cs : List (Option Tokens)}
    {blocks : List (List TableJoin)} (hview : QuietView view) (hscope : QuietScope scope)
    (haliases : ∀ a ∈ aliases.keys, Quiet a) (hnames : ∀ j ∈ js, Quiet j.aliasName)
    (hcs : List.Forall₂ Join.Spells js cs) (hxs : List.Forall₂ (JoinResolves view aliases) js xs)
    (h : tablesOfJoins scope (js.zip xs) = .ok blocks) :
    Brings (bareMarks cs.reduceOption) (blocks.flatten.flatMap TableJoin.fragments) := by
  induction hcs generalizing scope xs blocks with
  | nil =>
    obtain rfl := Except.ok.inj h
    exact .nil
  | @cons j c js cs hc _ ih =>
    cases hxs with
    | cons hx hxs =>
      obtain ⟨hj, hjs⟩ := List.forall_mem_cons.mp hnames
      obtain ⟨here, hhere, h⟩ := bind_eq_ok h
      obtain ⟨more, hmore, h⟩ := bind_eq_ok h
      obtain rfl := Except.ok.inj h
      have hscope' := hscope.insert (hview _ _ hx.view_className) j.aliasName
      have hbrings := (brings_of_joinTables hview hscope' haliases hj hc hx hhere).append
        (ih hscope' hjs hxs hmore)
      rw [List.flatten_cons, List.flatMap_append]
      cases c <;> simpa [bareMarks] using hbrings

variable {q : ObjectQuery} {cl : Clauses} {source : String} {y : Answers} {st : Statement}

theorem quiet_of_plain {more : List Char} (h : t.Reads more) (ht : IsPlain t) : Quiet t.text := by
  rcases ht with hk | hdot
  · exact quiet_of_isWord (h.isWord (.inl hk))
  · rw [text_of_isMark hdot]
    decide

theorem JoinsLie.quiet_aliasNames {js : List Join} {cs : List (Option Tokens)} (h : JoinsLie js cs ts)
    (hts : Readable ts) : ∀ j ∈ js, Quiet j.aliasName := by
  induction h with
  | nil => simp
  | @cons j c ts js cs us hj _ ih =>
    obtain ⟨start, names, behind, rfl, -, hnames, hplain, -⟩ := hj.tokens
    refine List.forall_mem_cons.mpr ⟨?_, ih hts.of_append_right⟩
    obtain ⟨t, ht, htext⟩ : ∃ t ∈ names, t.text = j.aliasName := by
      refine List.mem_map.mp ?_
      rw [hnames]
      exact List.mem_append_right _ (List.mem_singleton_self _)
    have hquiet := hts.of_append_left.of_append_left.of_append_right.forall_mem
      (P := fun t => IsPlain t → Quiet t.text) (fun _ _ hreads => quiet_of_plain hreads) t ht (hplain t ht)
    exact htext ▸ hquiet

theorem Source.quiet_aliasNames (h : Source source q ts cl) : ∀ a ∈ q.aliasNames, Quiet a := by
  have hts := (Token.readable_of_scan h.tokens).1
  refine List.forall_mem_append.mpr ⟨fun a ha => ?_, List.forall_mem_map.mpr ?_⟩
  · exact quiet_of_isWord (h.isWord_aliasName a (Option.mem_toList.mp ha))
  · obtain ⟨select, from', names, joins, filter, order, rfl, -, -, -, hjoins, -⟩ := h.laid.tokens
    exact hjoins.quiet_aliasNames
      hts.of_append_right.of_append_right.of_append_right.of_append_right.of_append_left

theorem Source.bareMarks_projection (h : Source source q ts cl) (hroot : selectsRoot q = true) :
    cl.projection.countP isBareMark = 0 := by
  rw [List.countP_eq_zero]
  intro t ht hmark
  have hsource : t.source = "?" := source_of_isMark hmark
  refine h.not_mem_projection hroot (c := '?') (by decide) ?_
  rw [h.laid.projection]
  exact Token.mem_join ht (by simp [hsource])

theorem Laid.bareMarks_eq (h : Laid ts q cl) : ts.countP isBareMark = bareMarks cl.all := by
  have hplain (t : Token) (ht : IsPlain t) : isBareMark t = false := by
    rcases ht with hk | hdot
    · exact isBareMark_of_ne (by simp [hk])
    · simp [isBareMark, Token.isMark, text_of_isMark hdot]
  rw [bareMarks, List.countP_eq_length_filter, List.countP_eq_length_filter, h.filter_eq hplain,
    List.filter_flatten, List.flatMap_def]

theorem quiet_qualifiedColumns (hm : QuietNames m) {aliasName : Option String}
    (ha : ∀ a ∈ aliasName, Quiet a) : Quiet (qualifiedColumns m aliasName) := by
  refine quiet_intercalate (by decide) (List.forall_mem_map.mpr fun column hcolumn => ?_)
  obtain ⟨f, hf, rfl⟩ := List.mem_map.mp hcolumn
  cases aliasName with
  | none => exact hm.columns f hf
  | some a => exact ((ha a rfl).append (show Quiet "." by decide)).append (hm.columns f hf)

theorem quiet_underAlias {table : String} {aliasName : Option String} (htable : Quiet table)
    (ha : ∀ a ∈ aliasName, Quiet a) : Quiet (underAlias table aliasName) := by
  refine htable.append ?_
  cases aliasName with
  | none => decide
  | some a => exact (show Quiet " " by decide).append (ha a rfl)

theorem quietScope_rootScope (q : ObjectQuery) (hm : QuietNames m) : QuietScope (q.rootScope m) := by
  have hempty : QuietScope .empty := fun a m h => by simp at h
  rw [rootScope]
  cases q.aliasName with
  | none => exact hempty
  | some a => exact hempty.insert hm a

theorem Resolves.quiet_describedJoins (hy : Resolves view q y) (hview : QuietView view) :
    ∀ d ∈ q.describedJoins y, QuietNames d.2 := by
  refine List.forall_mem_map.mpr fun p hp => ?_
  have hresolves := (List.forall₂_iff_zip.mp hy.joins).2 hp
  exact hview _ _ hresolves.view_className

theorem brings_of_statement (hq : Source source q ts cl) (hview : QuietView view)
    (hy : Resolves view q y) (h : q.statement y = .ok st) :
    Brings (ts.countP isBareMark) st.fragments := by
  have hspelled := hq.spelled
  have hnames := hq.quiet_aliasNames
  have hkeys : ∀ a ∈ q.aliases.keys, Quiet a := hq.introduces.keys_eq ▸ hnames
  have hroot := hview _ _ hy.root
  have halias : ∀ a ∈ q.aliasName, Quiet a := fun a ha =>
    hnames a (List.mem_append_left _ (Option.mem_toList.mpr ha))
  have hjoinNames : ∀ j ∈ q.joins, Quiet j.aliasName := fun j hj =>
    hnames _ (List.mem_append_right _ (List.mem_map_of_mem hj))
  have hrootScope := quietScope_rootScope q hroot
  have hfull := hrootScope.extend (hy.quiet_describedJoins hview)
  obtain ⟨hprojection, htable, hname, hjoins, hfilter, horder⟩ := statement_eq_ok h
  have hbringsProjection : Brings (cl.projection.countP isBareMark) st.projection := by
    rw [projectionFragments] at hprojection
    split at hprojection
    · rename_i hselects
      rw [← Except.ok.inj hprojection, hq.bareMarks_projection hselects]
      exact brings_quiet (quiet_qualifiedColumns hroot halias)
    · rw [hspelled.projection] at hprojection
      exact brings_of_fragmentsOfText hfull hspelled.readable hprojection
  have hbringsJoins := brings_of_tablesOfJoins hview hrootScope hkeys hjoinNames hspelled.joins hy.joins hjoins
  have hbringsFilter := brings_of_optionalClause hfull (show Quiet " WHERE " by decide) hspelled.filter hfilter
  have hbringsOrder := brings_of_optionalClause hfull (show Quiet " ORDER BY " by decide) hspelled.order horder
  have hbringsTable : Brings 0 [.text " FROM ", .text (underAlias y.root.fullTableName q.aliasName)] :=
    .cons (by decide) (brings_quiet (quiet_underAlias hroot.table halias))
  have hcount : ts.countP isBareMark = 0 + cl.projection.countP isBareMark + 0 +
      bareMarks cl.conditions.reduceOption + bareMarks cl.filter.toList + bareMarks cl.order.toList := by
    rw [hq.laid.bareMarks_eq, Clauses.all, List.reduceOption_append]
    cases cl.filter <;> cases cl.order <;> simp [bareMarks, Nat.add_assoc]
  rw [hcount, Statement.fragments, htable, hname]
  exact (((((brings_quiet (by decide)).append hbringsProjection).append hbringsTable).append
    hbringsJoins).append hbringsFilter).append hbringsOrder

theorem Compiled.getElem?_of_bind {c : Compiled} {values : OrderedMap String Value} {vs : List Value}
    (h : c.bind values = .ok vs) (k : Nat) : vs[k]? = c.parameters[k]?.bind values.get? := by
  have hk := congrArg (·[k]?) (Compiled.bind_eq_ok_iff.mp h)
  simp only [List.getElem?_map] at hk
  cases hparameter : c.parameters[k]? <;> cases hvalue : vs[k]? <;> simp_all

/-- A compiled query has one placeholder for each of its parameters and for each question mark that
stood in its text. If there was none there, its placeholders are those of its parameters in their
order, and it is bound with one value for each. -/
theorem placeholders_of_compile {c : Compiled} {r r' s s' : Registry}
    (hparse : (parse source).run r = (.ok q, r')) (hcompile : (compile q).run s = (.ok c, s'))
    (hview : QuietView s.view) :
    ∃ ts cl, Source source q ts cl ∧
      placeholders c.sql = c.parameters.length + ts.countP isBareMark ∧
      ((∀ t ∈ ts, isBareMark t = false) →
        (∃ y st, Resolves s.view q y ∧ q.statement y = .ok st ∧ c = .ofFragments st.fragments ∧
          ∀ g : String → String, fill c.sql (c.parameters.map g) =
            String.join (st.fragments.map (Fragment.write g))) ∧
        ∀ (values : OrderedMap String Value) (vs : List Value), c.bind values = .ok vs →
          vs.length = placeholders c.sql ∧
          ∀ k : Nat, vs[k]? = c.parameters[k]?.bind values.get?) := by
  obtain ⟨ts, cl, hsource⟩ := exists_source hparse
  obtain ⟨-, y, st, hy, hst, rfl⟩ := (post_compile hsource s).of_run_ok hcompile
  have hbrings := brings_of_statement hsource hview hy hst
  have hcount := hbrings.placeholders_eq
  refine ⟨ts, cl, hsource, hcount, fun hnone => ?_⟩
  have hzero : ts.countP isBareMark = 0 := List.countP_eq_zero.mpr fun t ht => by simp [hnone t ht]
  rw [hzero] at hbrings hcount
  refine ⟨⟨y, st, hy, hst, rfl, hbrings.fill_eq⟩, fun values vs hvs => ⟨?_, Compiled.getElem?_of_bind hvs⟩⟩
  have hlength := congrArg List.length (Compiled.bind_eq_ok_iff.mp hvs)
  rw [List.length_map, List.length_map] at hlength
  exact hlength.symm.trans hcount.symm

theorem eachName_users {P : String → Prop} (h : P "users" ∧ P "id" ∧ P "name") (c : String) (m : Metadata)
    (hm : BoundQuery.usersManager.registry.view c = .ok m) : EachName P m := by
  by_cases hc : "User" = c
  · subst hc
    obtain rfl : Sample.userMetadata = m := Except.ok.inj hm
    have hnone : Sample.userMetadata.associations = [] := rfl
    refine ⟨h.1, ?_, by simp [hnone], by simp [hnone]⟩
    exact List.forall_mem_cons.mpr ⟨h.2.1, List.forall_mem_singleton.mpr h.2.2⟩
  · have hmapping : BoundQuery.usersManager.registry.mappings.get? c = none := by
      simp [BoundQuery.usersManager, Sample.manager, Registry.register, Registry.empty,
        OrderedMap.get?_insert, hc]
    rw [Registry.view] at hm
    split at hm
    · simp at hm
    · rw [show BoundQuery.usersManager.registry.memo.get? c = none from rfl] at hm
      simp [Registry.build, hmapping] at hm

theorem quietView_users : QuietView BoundQuery.usersManager.registry.view :=
  eachName_users (by decide)

theorem placeholders_of_compile_users :
    ((parse BoundQuery.users).run BoundQuery.usersManager.registry).1 = .ok BoundQuery.usersRead ∧
    ((compile BoundQuery.usersRead).run BoundQuery.usersManager.registry).1 = .ok BoundQuery.usersCompiled ∧
    QuietView BoundQuery.usersManager.registry.view ∧
    placeholders BoundQuery.usersCompiled.sql = 3 ∧
    (∃ y st, Resolves BoundQuery.usersManager.registry.view BoundQuery.usersRead y ∧
      BoundQuery.usersRead.statement y = .ok st ∧ BoundQuery.usersCompiled = .ofFragments st.fragments ∧
      fill BoundQuery.usersCompiled.sql [":name", ":id", ":name"] =
        String.join (st.fragments.map (Fragment.write (":" ++ ·)))) := by
  obtain ⟨ts, cl, hsource, -, hquiet⟩ :=
    placeholders_of_compile BoundQuery.parse_users BoundQuery.compile_users quietView_users
  have hmarks : ∀ t ∈ ts, isBareMark t = false := by
    have hall : (Token.tokenize (Text.trim BoundQuery.users)).toOption.all
        (fun us => us.all fun t => !isBareMark t) = true := by
      decide +kernel
    rw [hsource.tokens] at hall
    simpa [Except.toOption] using hall
  obtain ⟨⟨y, st, hy, hst, hsql, hfill⟩, -⟩ := hquiet hmarks
  exact ⟨congrArg Prod.fst BoundQuery.parse_users, congrArg Prod.fst BoundQuery.compile_users,
    quietView_users, by decide +kernel, y, st, hy, hst, hsql, hfill (":" ++ ·)⟩

def marked : String := "SELECT u FROM User u WHERE u.id = ? AND u.name = :name"

def markedRead : ObjectQuery where
  projection := "u"
  root := "User"
  aliasName := some "u"
  joins := []
  filter := some "u.id = ? AND u.name = :name"
  order := none
  aliases := .ofList [("u", "User")]

def markedCompiled : Compiled where
  sql := "SELECT u.id, u.name FROM users u WHERE u.id = ? AND u.name = ?"
  parameters := ["name"]

/-- The question mark is a placeholder without a parameter, in front of the one that has one. -/
theorem placeholders_marked :
    ((parse marked).run BoundQuery.usersManager.registry).1 = .ok markedRead ∧
    ((compile markedRead).run BoundQuery.usersManager.registry).1 = .ok markedCompiled ∧
    (∀ c m, BoundQuery.usersManager.registry.view c = .ok m → EachName (fun s => '?' ∉ s.toList) m) ∧
    placeholders markedCompiled.sql = 2 ∧ markedCompiled.parameters.length = 1 := by
  refine ⟨?_, by decide +kernel, eachName_users (by decide), by decide +kernel, rfl⟩
  rw [marked, parse_ofList (by decide)]
  decide +kernel

end Persistence.ObjectQuery
