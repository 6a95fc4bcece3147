import Persistence.Proofs.Rewriting
import Persistence.Proofs.Statements

/-!
Queries in SQL. Each clause of a compiled query is a clause of its text, rewritten with the aliases
that are in scope there: all of them for the projection, the condition and the order, and for the
condition of a join those up to its own. Nothing but a field that stands for no column can keep a
query from being compiled whose classes and associations resolve.
-/

namespace Persistence.ObjectQuery

open Schema (Metadata Registry)
open Token (Readable)

variable {q : ObjectQuery} {scope : Scope} {ts : Tokens} {cl : Clauses} {source : String}
  {view : String → Except Error Metadata} {x : Answers} {st : Statement}

structure Spells (text : Option String) (clause : Option Tokens) : Prop where
  text_eq : text = clause.map Token.join
  readable : ∀ ts ∈ clause, Readable ts

structure Join.Spells (j : Join) (condition : Option Tokens) : Prop where
  text : ObjectQuery.Spells j.condition condition
  required : j.association = none → condition.isSome

structure Spelled (q : ObjectQuery) (cl : Clauses) : Prop where
  projection : q.projection = Token.join cl.projection
  readable : Readable cl.projection
  joins : List.Forall₂ Join.Spells q.joins cl.conditions
  filter : Spells q.filter cl.filter
  order : Spells q.order cl.order

theorem Behind.spells {keywords : List String} {text : Option String} {clause : Option Tokens}
    (h : Behind keywords text clause ts) (hts : Readable ts) : Spells text clause where
  text_eq := by
    cases clause with
    | none => exact h.1
    | some body => exact h.1
  readable := h.readable hts

theorem JoinsLie.spells {js : List Join} {cs : List (Option Tokens)} (h : JoinsLie js cs ts)
    (hts : Readable ts) : List.Forall₂ Join.Spells js cs := by
  induction h with
  | nil => exact .nil
  | cons hj _ ih =>
    obtain ⟨start, names, behind, rfl, -, -, -, hbehind⟩ := hj.tokens
    exact .cons ⟨hbehind.spells hts.of_append_left.of_append_right, hj.explicit⟩ (ih hts.of_append_right)

theorem Source.spelled (h : Source source q ts cl) : q.Spelled cl := by
  have hts := (Token.readable_of_scan h.tokens).1
  obtain ⟨select, from', names, joins, filter, order, rfl, -, -, -, hjoins, hfilter, horder⟩ :=
    h.laid.tokens
  have hprojection := hts.of_append_right
  have hnames := hprojection.of_append_right.of_append_right
  have hends := hnames.of_append_right.of_append_right
  exact ⟨h.laid.projection, hprojection.of_append_left, hjoins.spells hnames.of_append_right.of_append_left,
    hfilter.spells hends.of_append_left, horder.spells hends.of_append_right⟩

/-- The tables of a join, with its condition. -/
inductive JoinRenders (scope : Scope) (j : Join) (x : JoinAnswer) : Option Tokens → List TableJoin → Prop
  | explicit {ts : Tokens} {fs : List Fragment} : x.association = none → Renders scope ts fs →
      JoinRenders scope j x (some ts) [⟨j.kind, x.metadata.fullTableName, j.aliasName, fs⟩]
  | associated {joined : Schema.AssociationJoin} : x.association = some joined →
      JoinRenders scope j x none (joined.links.map (TableJoin.ofStep j.kind · []) ++
        [.ofStep j.kind joined.targetStep []])
  | asking {joined : Schema.AssociationJoin} {ts : Tokens} {fs : List Fragment} :
      x.association = some joined → Renders scope ts fs →
      JoinRenders scope j x (some ts) (joined.links.map (TableJoin.ofStep j.kind · []) ++
        [.ofStep j.kind joined.targetStep (.text " AND (" :: fs ++ [.text ")"])])

inductive JoinsRender : Scope → List (Join × JoinAnswer) → List (Option Tokens) →
    List (List TableJoin) → Prop
  | nil {scope : Scope} : JoinsRender scope [] [] []
  | cons {scope : Scope} {j : Join} {x : JoinAnswer} {rest : List (Join × JoinAnswer)}
      {c : Option Tokens} {cs : List (Option Tokens)} {tables : List TableJoin}
      {more : List (List TableJoin)} :
      JoinRenders (scope.insert j.aliasName x.metadata) j x c tables →
      JoinsRender (scope.insert j.aliasName x.metadata) rest cs more →
      JoinsRender scope ((j, x) :: rest) (c :: cs) (tables :: more)

/-- The clauses of a statement are those of the query. -/
structure Translates (q : ObjectQuery) (x : Answers) (cl : Clauses) (st : Statement) : Prop where
  projection : if selectsRoot q then st.projection = [.text (qualifiedColumns x.root q.aliasName)]
    else Renders (q.fullScope x) cl.projection st.projection
  table : st.table = x.root.fullTableName
  aliasName : st.aliasName = q.aliasName
  joins : JoinsRender (q.rootScope x.root) (q.answeredJoins x) cl.conditions st.joins
  filter : Option.Rel (Renders (q.fullScope x)) cl.filter st.filter
  order : Option.Rel (Renders (q.fullScope x)) cl.order st.order

/-- The conditions of joins, each with the aliases that it sees. -/
def scopedConditions : Scope → List (Join × JoinAnswer) → List (Option Tokens) → List (Scope × Tokens)
  | scope, (j, x) :: rest, c :: cs =>
    let scope := scope.insert j.aliasName x.metadata
    c.toList.map (scope, ·) ++ scopedConditions scope rest cs
  | _, _, _ => []

/-- The clauses that are written as they stand in the text, each with the aliases that it sees. -/
def emitted (q : ObjectQuery) (x : Answers) (cl : Clauses) : List (Scope × Tokens) :=
  (if selectsRoot q then [] else [(q.fullScope x, cl.projection)]) ++
    scopedConditions (q.rootScope x.root) (q.answeredJoins x) cl.conditions ++
    (cl.filter.toList ++ cl.order.toList).map (q.fullScope x, ·)

theorem bind_eq_error {α β : Type} {f : α → Except Error β} {x : Except Error α} {e : Error}
    (h : (x >>= f) = .error e) : x = .error e ∨ ∃ y, x = .ok y ∧ f y = .error e := by
  cases x with
  | error e' => exact .inl (congrArg _ (Except.error.inj h))
  | ok y => exact .inr ⟨y, rfl, h⟩

theorem renders_of_optionalClause {text : Option String} {c : Option Tokens}
    {fs : Option (List Fragment)} (hc : Spells text c) (h : optionalClause scope text = .ok fs) :
    Option.Rel (Renders scope) c fs := by
  rw [hc.text_eq] at h
  cases c with
  | none =>
    obtain rfl := Except.ok.inj h
    exact .none
  | some ts =>
    obtain ⟨gs, hgs, rfl⟩ := map_eq_ok h
    exact .some (renders_of_fragmentsOfText (hc.readable ts rfl) hgs)

theorem blames_of_optionalClause {text : Option String} {c : Option Tokens} {e : Error}
    (hc : Spells text c) (h : optionalClause scope text = .error e) : ∃ ts ∈ c, Blames scope ts e := by
  rw [hc.text_eq] at h
  cases c with
  | none => simp [optionalClause] at h
  | some ts => exact ⟨ts, rfl, blames_of_fragmentsOfText (hc.readable ts rfl) (map_eq_error h)⟩

variable {aliases : OrderedMap String String} {j : Join} {a : JoinAnswer} {c : Option Tokens}

theorem joinRenders_of_joinTables {tables : List TableJoin} (hc : j.Spells c)
    (ha : JoinResolves view aliases j a) (h : joinTables scope j a = .ok tables) :
    JoinRenders scope j a c tables := by
  cases ha with
  | explicit hj =>
    obtain ⟨ts, rfl⟩ := Option.isSome_iff_exists.mp (hc.required hj)
    obtain ⟨fs, hfs, htables⟩ := bind_eq_ok h
    obtain rfl := Except.ok.inj htables
    rw [hc.text.text_eq] at hfs
    exact .explicit rfl (renders_of_fragmentsOfText (hc.text.readable ts rfl) hfs)
  | associated =>
    obtain ⟨extra, hextra, htables⟩ := bind_eq_ok h
    obtain rfl := Except.ok.inj htables
    rw [hc.text.text_eq] at hextra
    cases c with
    | none =>
      obtain rfl := Except.ok.inj hextra
      exact .associated rfl
    | some ts =>
      obtain ⟨fs, hfs, hextra⟩ := bind_eq_ok hextra
      obtain rfl := Except.ok.inj hextra
      exact .asking rfl (renders_of_fragmentsOfText (hc.text.readable ts rfl) hfs)

theorem blames_of_joinTables {e : Error} (hc : j.Spells c) (ha : JoinResolves view aliases j a)
    (h : joinTables scope j a = .error e) : ∃ ts ∈ c, Blames scope ts e := by
  cases ha with
  | explicit hj =>
    obtain ⟨ts, rfl⟩ := Option.isSome_iff_exists.mp (hc.required hj)
    obtain he | ⟨fs, -, he⟩ := bind_eq_error h
    · rw [hc.text.text_eq] at he
      exact ⟨ts, rfl, blames_of_fragmentsOfText (hc.text.readable ts rfl) he⟩
    · simp [pure, Except.pure] at he
  | associated =>
    obtain he | ⟨fs, -, he⟩ := bind_eq_error h
    · rw [hc.text.text_eq] at he
      cases c with
      | none => simp [extraCondition] at he
      | some ts =>
        obtain he | ⟨fs, -, he⟩ := bind_eq_error he
        · exact ⟨ts, rfl, blames_of_fragmentsOfText (hc.text.readable ts rfl) he⟩
        · simp [pure, Except.pure] at he
    · simp [pure, Except.pure] at he

theorem joinsRender_of_tablesOfJoins {js : List Join} {xs : List JoinAnswer} {cs : List (Option Tokens)}
    {blocks : List (List TableJoin)} (hcs : List.Forall₂ Join.Spells js cs)
    (hxs : List.Forall₂ (JoinResolves view aliases) js xs)
    (h : tablesOfJoins scope (js.zip xs) = .ok blocks) : JoinsRender scope (js.zip xs) cs blocks := by
  induction hcs generalizing scope xs blocks with
  | nil =>
    obtain rfl := Except.ok.inj h
    exact .nil
  | cons hc _ ih =>
    cases hxs with
    | cons hx hxs =>
      obtain ⟨here, hhere, h⟩ := bind_eq_ok h
      obtain ⟨more, hmore, h⟩ := bind_eq_ok h
      obtain rfl := Except.ok.inj h
      exact .cons (joinRenders_of_joinTables hc hx hhere) (ih hxs hmore)

theorem blames_of_tablesOfJoins {js : List Join} {xs : List JoinAnswer} {cs : List (Option Tokens)}
    {e : Error} (hcs : List.Forall₂ Join.Spells js cs)
    (hxs : List.Forall₂ (JoinResolves view aliases) js xs)
    (h : tablesOfJoins scope (js.zip xs) = .error e) :
    ∃ clause ∈ scopedConditions scope (js.zip xs) cs, Blames clause.1 clause.2 e := by
  induction hcs generalizing scope xs with
  | nil => simp [tablesOfJoins] at h
  | cons hc _ ih =>
    cases hxs with
    | cons hx hxs =>
      obtain he | ⟨here, -, h⟩ := bind_eq_error h
      · obtain ⟨ts, hts, he⟩ := blames_of_joinTables hc hx he
        exact ⟨(_, ts), List.mem_append_left _ (List.mem_map_of_mem (Option.mem_toList.mpr hts)), he⟩
      · obtain he | ⟨more, -, h⟩ := bind_eq_error h
        · obtain ⟨clause, hclause, he⟩ := ih hxs he
          exact ⟨clause, List.mem_append_right _ hclause, he⟩
        · simp [pure, Except.pure] at h

theorem translates_of_statement (hq : q.Spelled cl) (hx : Resolves view q x)
    (h : q.statement x = .ok st) : q.Translates x cl st := by
  obtain ⟨hprojection, htable, halias, hjoins, hfilter, horder⟩ := statement_eq_ok h
  refine ⟨?_, htable, halias, joinsRender_of_tablesOfJoins hq.joins hx.joins hjoins,
    renders_of_optionalClause hq.filter hfilter, renders_of_optionalClause hq.order horder⟩
  rw [projectionFragments] at hprojection
  split
  · rename_i hroot
    rw [if_pos hroot] at hprojection
    exact (Except.ok.inj hprojection).symm
  · rename_i hroot
    rw [if_neg hroot, hq.projection] at hprojection
    exact renders_of_fragmentsOfText hq.readable hprojection

theorem blames_of_statement {e : Error} (hq : q.Spelled cl) (hx : Resolves view q x)
    (h : q.statement x = .error e) : ∃ clause ∈ q.emitted x cl, Blames clause.1 clause.2 e := by
  obtain he | ⟨projection, -, h⟩ := bind_eq_error h
  · rw [projectionFragments] at he
    split at he
    · simp at he
    · rename_i hroot
      rw [hq.projection] at he
      exact ⟨(q.fullScope x, cl.projection), by simp [emitted, hroot],
        blames_of_fragmentsOfText hq.readable he⟩
  obtain he | ⟨joins, -, h⟩ := bind_eq_error h
  · obtain ⟨clause, hclause, he⟩ := blames_of_tablesOfJoins hq.joins hx.joins he
    exact ⟨clause, List.mem_append_left _ (List.mem_append_right _ hclause), he⟩
  obtain he | ⟨filter, -, h⟩ := bind_eq_error h
  · obtain ⟨ts, hts, he⟩ := blames_of_optionalClause hq.filter he
    exact ⟨(q.fullScope x, ts), by simp [emitted, Option.mem_def.mp hts], he⟩
  obtain he | ⟨order, -, h⟩ := bind_eq_error h
  · obtain ⟨ts, hts, he⟩ := blames_of_optionalClause hq.order he
    exact ⟨(q.fullScope x, ts), by simp [emitted, Option.mem_def.mp hts], he⟩
  · simp [pure, Except.pure] at h

theorem JoinsRender.resolved {l : List (Join × JoinAnswer)} {cs : List (Option Tokens)}
    {blocks : List (List TableJoin)} (h : JoinsRender scope l cs blocks) :
    ∀ clause ∈ scopedConditions scope l cs, Resolved clause.1 clause.2 := by
  induction h with
  | nil => simp [scopedConditions]
  | cons hj _ ih =>
    refine List.forall_mem_append.mpr ⟨?_, ih⟩
    cases hj with
    | explicit _ h => simpa using h.resolved
    | associated => simp
    | asking _ h => simpa using h.resolved

theorem Translates.resolved (h : q.Translates x cl st) :
    ∀ clause ∈ q.emitted x cl, Resolved clause.1 clause.2 := by
  have hoption {c : Option Tokens} {fs : Option (List Fragment)}
      (hc : Option.Rel (Renders (q.fullScope x)) c fs) : ∀ ts ∈ c, Resolved (q.fullScope x) ts := by
    cases hc with
    | some hts => simpa using hts.resolved
    | none => simp
  refine List.forall_mem_append.mpr ⟨List.forall_mem_append.mpr ⟨?_, h.joins.resolved⟩, ?_⟩
  · have hprojection := h.projection
    split at hprojection
    · rename_i hroot
      simp [hroot]
    · rename_i hroot
      simpa [hroot] using hprojection.resolved
  · rw [List.forall_mem_map, List.forall_mem_append]
    exact ⟨fun ts hts => hoption h.filter ts (Option.mem_toList.mp hts),
      fun ts hts => hoption h.order ts (Option.mem_toList.mp hts)⟩

theorem tablesOfJoins_append {l l' : List (Join × JoinAnswer)} {blocks : List (List TableJoin)}
    (h : tablesOfJoins scope (l ++ l') = .ok blocks) :
    ∃ here more, tablesOfJoins scope l = .ok here ∧ blocks = here ++ more := by
  induction l generalizing scope blocks with
  | nil => exact ⟨[], blocks, rfl, rfl⟩
  | cons p l ih =>
    obtain ⟨first, hfirst, h⟩ := bind_eq_ok h
    obtain ⟨rest, hrest, h⟩ := bind_eq_ok h
    obtain rfl := Except.ok.inj h
    obtain ⟨here, more, hhere, rfl⟩ := ih hrest
    refine ⟨first :: here, more, ?_, rfl⟩
    obtain ⟨j, a⟩ := p
    simp only [tablesOfJoins, hfirst, hhere]
    rfl

theorem JoinResolves.mono {aliases' : OrderedMap String String} (h : JoinResolves view aliases j a)
    (haliases : ∀ s c, aliases.get? s = some c → aliases'.get? s = some c) :
    JoinResolves view aliases' j a := by
  cases h with
  | explicit hj hm => exact .explicit hj hm
  | associated hj hm hs hjoined => exact .associated hj hm (haliases _ _ hs) hjoined

/-- A query with some more joins at its end. -/
structure Extends (q q' : ObjectQuery) : Prop where
  root : q'.root = q.root
  aliasName : q'.aliasName = q.aliasName
  joins : q.joins <+: q'.joins

theorem Extends.joins_prefix {q' : ObjectQuery} {x' : Answers} {st' : Statement} (h : q.Extends q')
    (hq : q.Introduces) (hq' : q'.Introduces) (hx : Resolves view q x) (hx' : Resolves view q' x')
    (hst : q.statement x = .ok st) (hst' : q'.statement x' = .ok st') : st.joins <+: st'.joins := by
  obtain ⟨more, hmore⟩ := h.joins
  have haliases (s c : String) (hs : q.aliases.get? s = some c) : q'.aliases.get? s = some c := by
    rw [OrderedMap.get?_eq_some_iff] at hs ⊢
    rw [hq'.aliases, h.aliasName, h.root, ← hmore, introduced, List.map_append, ← List.append_assoc]
    rw [hq.aliases] at hs
    exact List.mem_append_left _ hs
  have hroot : x'.root = x.root :=
    Except.ok.inj (hx'.root.symm.trans ((congrArg view h.root).trans hx.root))
  have hlength : q.joins.length = x.joins.length := hx.joins.length_eq
  -- the registry gives the earlier joins the same answers, as they see the same aliases
  have htake : x'.joins.take q.joins.length = x.joins := by
    have htaken := List.forall₂_take q.joins.length hx'.joins
    rw [← hmore, List.take_left' rfl] at htaken
    have hsame := hx.joins.imp fun j a hja => hja.mono haliases
    exact List.right_unique_forall₂' (fun _ _ _ h h' => h.unique h') htaken hsame
  have hjoined : q'.answeredJoins x' =
      q.answeredJoins x ++ more.zip (x'.joins.drop q.joins.length) := by
    rw [answeredJoins, ← List.take_append_drop q.joins.length x'.joins, htake, ← hmore,
      List.zip_append hlength, answeredJoins]
    simp [hlength]
  obtain ⟨-, -, -, htables', -⟩ := statement_eq_ok hst'
  obtain ⟨-, -, -, htables, -⟩ := statement_eq_ok hst
  rw [hjoined, hroot, show q'.rootScope x.root = q.rootScope x.root by rw [rootScope, h.aliasName, rootScope]]
    at htables'
  obtain ⟨here, rest, hhere, hblocks⟩ := tablesOfJoins_append htables'
  obtain rfl := Except.ok.inj (hhere.symm.trans htables)
  exact hblocks ▸ List.prefix_append _ _

/-- Each clause of a query becomes a clause of SQL, by its own references and parameters alone, and
only a field that stands for no column keeps a query from being compiled that resolves otherwise. -/
theorem compile_rewrites {r r' : Registry} (h : (parse source).run r = (.ok q, r')) :
    ∃ ts cl, Source source q ts cl ∧ ∀ s : Registry,
      (∀ c s', (compile q).run s = (.ok c, s') → ∃ x st, Resolves s.view q x ∧
        q.statement x = .ok st ∧ c = .ofFragments st.fragments ∧ q.Translates x cl st) ∧
      (∀ x, Resolves s.view q x →
        ((∃ e s', (compile q).run s = (.error e, s')) ↔
          ∃ clause ∈ q.emitted x cl, ¬ Resolved clause.1 clause.2) ∧
        ∀ e s', (compile q).run s = (.error e, s') →
          ∃ clause ∈ q.emitted x cl, Blames clause.1 clause.2 e) ∧
      ∀ source' q' t t' x x' st st', (parse source').run t = (.ok q', t') → q.Extends q' →
        Resolves s.view q x → Resolves s.view q' x' → q.statement x = .ok st →
        q'.statement x' = .ok st' → st.joins <+: st'.joins := by
  obtain ⟨ts, cl, hsource⟩ := exists_source h
  have hspelled := hsource.spelled
  refine ⟨ts, cl, hsource, fun s => ?_⟩
  have hok (c : Compiled) (s' : Registry) (hc : (compile q).run s = (.ok c, s')) :
      ∃ x st, Resolves s.view q x ∧ q.statement x = .ok st ∧ c = .ofFragments st.fragments ∧
        q.Translates x cl st := by
    obtain ⟨-, x, st, hx, hst, rfl⟩ := (post_compile hsource s).of_run_ok hc
    exact ⟨x, st, hx, hst, rfl, translates_of_statement hspelled hx hst⟩
  refine ⟨hok, fun x hx => ?_, ?_⟩
  · have hblames (e : Error) (s' : Registry) (he : (compile q).run s = (.error e, s')) :
        ∃ clause ∈ q.emitted x cl, Blames clause.1 clause.2 e :=
      blames_of_statement hspelled hx ((Action.post_iff.mp (post_compile hsource s)).2 e s' he x hx)
    refine ⟨⟨?_, ?_⟩, hblames⟩
    · rintro ⟨e, s', he⟩
      obtain ⟨clause, hclause, hnot⟩ := hblames e s' he
      exact ⟨clause, hclause, hnot.not_resolved⟩
    · rintro ⟨clause, hclause, hnot⟩
      rcases hrun : (compile q).run s with ⟨e | c, s'⟩
      · exact ⟨e, s', rfl⟩
      · obtain ⟨y, st, hy, -, -, htranslates⟩ := hok c s' hrun
        obtain rfl := hx.unique hy
        exact absurd (htranslates.resolved clause hclause) hnot
  · intro source' q' t t' x x' st st' h' hextends hx hx' hst hst'
    obtain ⟨ts', cl', hsource'⟩ := exists_source h'
    exact hextends.joins_prefix hsource.introduces hsource'.introduces hx hx' hst hst'

def members : String := "SELECT m.name FROM Member m JOIN m.roles r WITH r.title <> 'r.title'
  WHERE xm.name = :name  AND m.full_name = m . name"

def membersRead : ObjectQuery where
  projection := "m.name"
  root := "Member"
  aliasName := some "m"
  joins := [⟨.inner, "Role", "r", some "r.title <> 'r.title'", some ⟨"m", "roles"⟩⟩]
  filter := some "xm.name = :name AND m.full_name = m . name"
  order := none
  aliases := .ofList [("m", "Member"), ("r", "Role")]

def membersCompiled : Compiled where
  sql := "SELECT m.full_name FROM members m INNER JOIN member_roles m_r ON m_r.member_id = m.id" ++
    " INNER JOIN roles r ON r.id = m_r.role_id AND (r.label <> 'r.title')" ++
    " WHERE xm.name = ? AND m.full_name = m . name"
  parameters := ["name"]

theorem parse_members : (parse members).run Sample.forum =
    (.ok membersRead, ((parse members).run Sample.forum).2) := by
  refine Action.run_eq_of_fst ?_
  rw [members, parse_ofList (by decide)]
  decide +kernel

theorem compile_members : (compile membersRead).run Sample.forum =
    (.ok membersCompiled, ((compile membersRead).run Sample.forum).2) := by
  refine Action.run_eq_of_fst ?_
  decide +kernel

theorem compile_rewrites_members :
    ((parse members).run Sample.forum).1 = .ok membersRead ∧
    ((compile membersRead).run Sample.forum).1 = .ok membersCompiled ∧
    ∃ ts cl x st, Source members membersRead ts cl ∧ Resolves Sample.forum.view membersRead x ∧
      membersCompiled = .ofFragments st.fragments ∧ membersRead.Translates x cl st := by
  obtain ⟨ts, cl, hsource, hcompile⟩ := compile_rewrites parse_members
  obtain ⟨x, st, hx, -, hst, htranslates⟩ := (hcompile Sample.forum).1 _ _ compile_members
  exact ⟨congrArg Prod.fst parse_members, congrArg Prod.fst compile_members, ts, cl, x, st, hsource, hx,
    hst, htranslates⟩

end Persistence.ObjectQuery
