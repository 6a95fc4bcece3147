import Mathlib.Data.List.Forall2
import Persistence.ObjectQuery.Compilation
import Persistence.Proofs.Layout

/-!
Compiled queries as statements. Once a registry has answered for the classes and associations of a
query, what the query is compiled to is a function of the query and these answers: a statement, with
its clauses and the tables of its joins apart.
-/

namespace Persistence.ObjectQuery

open Schema (Metadata Registry AssociationJoin)

variable {q : ObjectQuery} {j : Join} {scope full : Scope} {r s : Registry}
  {view : String → Except Error Metadata}

/-- A table joined to those before it. -/
structure TableJoin where
  kind : JoinKind
  table : String
  aliasName : String
  condition : List Fragment

def TableJoin.fragments (t : TableJoin) : List Fragment :=
  joinStep t.kind t.table t.aliasName t.condition

def TableJoin.ofStep (kind : JoinKind) (step : Schema.JoinStep) (extra : List Fragment) : TableJoin :=
  ⟨kind, step.table, step.aliasName, .text step.condition :: extra⟩

structure Statement where
  projection : List Fragment
  table : String
  aliasName : Option String
  /-- The tables of each join of the query, those that lead to its own first. -/
  joins : List (List TableJoin)
  filter : Option (List Fragment)
  order : Option (List Fragment)

def underAlias (table : String) (aliasName : Option String) : String :=
  table ++ match aliasName with
    | some a => " " ++ a
    | none => ""

def Statement.fragments (st : Statement) : List Fragment :=
  [.text "SELECT "] ++ st.projection ++ [.text " FROM ", .text (underAlias st.table st.aliasName)] ++
    st.joins.flatten.flatMap TableJoin.fragments ++ st.filter.elim [] (.text " WHERE " :: ·) ++
    st.order.elim [] (.text " ORDER BY " :: ·)

structure JoinAnswer where
  metadata : Metadata
  association : Option AssociationJoin

/-- What a registry answers about a query. -/
structure Answers where
  root : Metadata
  joins : List JoinAnswer

def associationJoinBy (view : String → Except Error Metadata)
    (source association sourceAlias targetAlias : String) : Except Error AssociationJoin := do
  let m ← view source
  match m.association? association with
  | none => .error (.mapping (.noAssociation source association))
  | some a => do
    let target ← view a.target
    a.join source target sourceAlias targetAlias

inductive JoinResolves (view : String → Except Error Metadata) (aliases : OrderedMap String String)
    (j : Join) : JoinAnswer → Prop
  | explicit {m : Metadata} : j.association = none → view j.className = .ok m →
      JoinResolves view aliases j ⟨m, none⟩
  | associated {m : Metadata} {a : AssociationRef} {source : String} {joined : AssociationJoin} :
      j.association = some a → view j.className = .ok m → aliases.get? a.source = some source →
      associationJoinBy view source a.name a.source j.aliasName = .ok joined →
      JoinResolves view aliases j ⟨m, some joined⟩

/-- All classes and associations of the query resolve. -/
structure Resolves (view : String → Except Error Metadata) (q : ObjectQuery) (x : Answers) : Prop where
  root : view q.root = .ok x.root
  joins : List.Forall₂ (JoinResolves view q.aliases) q.joins x.joins

theorem JoinResolves.view_className {aliases : OrderedMap String String} {x : JoinAnswer}
    (h : JoinResolves view aliases j x) : view j.className = .ok x.metadata := by
  cases h with
  | explicit _ hm => exact hm
  | associated _ hm => exact hm

def joinTables (scope : Scope) (j : Join) (x : JoinAnswer) : Except Error (List TableJoin) :=
  match x.association with
  | some joined => do
    let extra ← extraCondition scope j.condition
    return joined.links.map (TableJoin.ofStep j.kind · []) ++ [.ofStep j.kind joined.targetStep extra]
  | none => do
    let condition ← fragmentsOfText scope (j.condition.getD "")
    return [⟨j.kind, x.metadata.fullTableName, j.aliasName, condition⟩]

def tablesOfJoins : Scope → List (Join × JoinAnswer) → Except Error (List (List TableJoin))
  | _, [] => .ok []
  | scope, (j, x) :: rest => do
    let scope := scope.insert j.aliasName x.metadata
    let here ← joinTables scope j x
    let more ← tablesOfJoins scope rest
    return here :: more

def optionalClause (scope : Scope) : Option String → Except Error (Option (List Fragment))
  | none => .ok none
  | some text => (fragmentsOfText scope text).map some

def rootScope (q : ObjectQuery) (root : Metadata) : Scope :=
  OrderedMap.ofList (q.aliasName.toList.map fun a => (a, root))

def answeredJoins (q : ObjectQuery) (x : Answers) : List (Join × JoinAnswer) := q.joins.zip x.joins

def describedJoins (q : ObjectQuery) (x : Answers) : List (Join × Metadata) :=
  (q.answeredJoins x).map fun p => (p.1, p.2.metadata)

def fullScope (q : ObjectQuery) (x : Answers) : Scope := extend (q.rootScope x.root) (q.describedJoins x)

def projectionFragments (q : ObjectQuery) (root : Metadata) (full : Scope) :
    Except Error (List Fragment) :=
  if selectsRoot q then .ok [.text (qualifiedColumns root q.aliasName)]
  else fragmentsOfText full q.projection

/-- The statement of a query by the answers of a registry. -/
def statement (q : ObjectQuery) (x : Answers) : Except Error Statement := do
  let projection ← q.projectionFragments x.root (q.fullScope x)
  let joins ← tablesOfJoins (q.rootScope x.root) (q.answeredJoins x)
  let filter ← optionalClause (q.fullScope x) q.filter
  let order ← optionalClause (q.fullScope x) q.order
  return ⟨projection, x.root.fullTableName, q.aliasName, joins, filter, order⟩

theorem statement_eq_ok {x : Answers} {st : Statement} (h : q.statement x = .ok st) :
    q.projectionFragments x.root (q.fullScope x) = .ok st.projection ∧
    st.table = x.root.fullTableName ∧ st.aliasName = q.aliasName ∧
    tablesOfJoins (q.rootScope x.root) (q.answeredJoins x) = .ok st.joins ∧
    optionalClause (q.fullScope x) q.filter = .ok st.filter ∧
    optionalClause (q.fullScope x) q.order = .ok st.order := by
  obtain ⟨projection, hprojection, h⟩ := bind_eq_ok h
  obtain ⟨joins, hjoins, h⟩ := bind_eq_ok h
  obtain ⟨filter, hfilter, h⟩ := bind_eq_ok h
  obtain ⟨order, horder, h⟩ := bind_eq_ok h
  obtain rfl := Except.ok.inj h
  exact ⟨hprojection, rfl, rfl, hjoins, hfilter, horder⟩

theorem post_describe (className : String) (r : Registry) :
    (Registry.describe className).Post (fun m t => r.view className = .ok m ∧ t.view = r.view)
      (fun e _ => r.view className = .error e) r := by
  refine Action.post_iff.mpr ⟨fun m t h => ?_, fun e t h => ?_⟩
  · exact ⟨(Registry.describe_fst className r).symm.trans (congrArg Prod.fst h),
      congrArg (fun p => p.2.view) h ▸ Registry.view_describe_snd className r⟩
  · exact (Registry.describe_fst className r).symm.trans (congrArg Prod.fst h)

theorem post_associationJoin (source association sourceAlias targetAlias : String) (r : Registry) :
    (Schema.associationJoin source association sourceAlias targetAlias).Post
      (fun x t => associationJoinBy r.view source association sourceAlias targetAlias = .ok x ∧
        t.view = r.view)
      (fun e _ => associationJoinBy r.view source association sourceAlias targetAlias = .error e) r := by
  rw [Schema.associationJoin, associationJoinBy, Action.post_bind]
  refine (post_describe source r).mono (fun m t hm => ?_) fun e _ he => by rw [he]; rfl
  obtain ⟨hm, ht⟩ := hm
  rw [hm]
  cases ha : m.association? association with
  | none => simp [bind, Except.bind, ha]
  | some a =>
    rw [Action.post_bind]
    refine (post_describe a.target t).mono (fun target u htarget => ?_) fun e _ he => ?_
    · rw [ht] at htarget
      simp only [Action.post_liftExcept]
      exact ⟨fun x hx => ⟨by simp [bind, Except.bind, ha, htarget.1, hx], htarget.2⟩,
        fun e he => by simp [bind, Except.bind, ha, htarget.1, he]⟩
    · rw [ht] at he
      simp [bind, Except.bind, ha, he]

theorem post_describeJoins (js : List Join) (r : Registry) :
    (describeJoins js).Post (fun ds t => t.view = r.view ∧ ds.map Prod.fst = js ∧
        ∀ d ∈ ds, r.view d.1.className = .ok d.2)
      (fun e _ => ∃ j ∈ js, r.view j.className = .error e) r := by
  induction js generalizing r with
  | nil => exact ⟨rfl, rfl, by simp⟩
  | cons j js ih =>
    simp only [describeJoins, Action.post_bind, Action.post_pure]
    refine (post_describe j.className r).mono (fun m t hm => ?_) fun e _ he => ⟨j, by simp, he⟩
    obtain ⟨hm, ht⟩ := hm
    refine (ih t).mono (fun ds u hds => ?_) fun e _ he => ?_
    · rw [ht] at hds
      obtain ⟨hu, hjs, hds⟩ := hds
      exact ⟨hu, by rw [List.map_cons, hjs], List.forall_mem_cons.mpr ⟨hm, hds⟩⟩
    · rw [ht] at he
      obtain ⟨k, hk, he⟩ := he
      exact ⟨k, List.mem_cons_of_mem _ hk, he⟩

theorem get?_extend_of_not_mem {ds : List (Join × Metadata)} {a : String} (scope : Scope)
    (h : a ∉ ds.map (·.1.aliasName)) : (extend scope ds).get? a = scope.get? a := by
  induction ds generalizing scope with
  | nil => rfl
  | cons d ds ih =>
    rw [List.map_cons, List.mem_cons, not_or] at h
    rw [extend, List.foldl_cons, ← extend, ih _ h.2, OrderedMap.get?_insert, if_neg (Ne.symm h.1)]

theorem get?_extend {ds : List (Join × Metadata)} (scope : Scope)
    (h : (ds.map (·.1.aliasName)).Nodup) : ∀ d ∈ ds, (extend scope ds).get? d.1.aliasName = some d.2 := by
  induction ds generalizing scope with
  | nil => simp
  | cons d ds ih =>
    obtain ⟨hd, hds⟩ := List.nodup_cons.mp h
    refine List.forall_mem_cons.mpr ⟨?_, ih _ hds⟩
    rw [extend, List.foldl_cons, ← extend, get?_extend_of_not_mem _ hd, OrderedMap.get?_insert, if_pos rfl]

theorem JoinResolves.of_association {aliases : OrderedMap String String} {x : JoinAnswer}
    {a : AssociationRef} (h : JoinResolves view aliases j x) (hj : j.association = some a) :
    ∃ source joined, x.association = some joined ∧ aliases.get? a.source = some source ∧
      associationJoinBy view source a.name a.source j.aliasName = .ok joined := by
  cases h with
  | explicit hk => simp [hj] at hk
  | @associated m b source joined hk _ hsource hjoined =>
    obtain rfl := Option.some.inj (hj.symm.trans hk)
    exact ⟨source, joined, rfl, hsource, hjoined⟩

theorem JoinResolves.unique {aliases : OrderedMap String String} {x y : JoinAnswer}
    (hx : JoinResolves view aliases j x) (hy : JoinResolves view aliases j y) : x = y := by
  have hm : x.metadata = y.metadata :=
    Except.ok.inj (hx.view_className.symm.trans hy.view_className)
  cases hx with
  | explicit hj =>
    cases hy with
    | explicit => exact congrArg (JoinAnswer.mk · none) hm
    | associated hk => simp [hj] at hk
  | associated hj _ hsource hjoined =>
    obtain ⟨_, _, hassociation, hsource', hjoined'⟩ := hy.of_association hj
    obtain rfl := Option.some.inj (hsource.symm.trans hsource')
    rw [← Except.ok.inj (hjoined.symm.trans hjoined')] at hassociation
    exact (JoinAnswer.mk.injEq ..).mpr ⟨hm, hassociation.symm⟩

theorem fragments_ofStep (kind : JoinKind) (step : Schema.JoinStep) (extra : List Fragment) :
    (TableJoin.ofStep kind step extra).fragments = Fragment.ofStep kind step ++ extra := rfl

theorem post_compileJoin {m : Metadata} (hc : j.association = none → j.condition.isSome)
    (hm : r.view j.className = .ok m) :
    (compileJoin q scope m j).Post (fun fs t => t.view = r.view ∧ ∃ x tables,
        JoinResolves r.view q.aliases j x ∧ x.metadata = m ∧ joinTables scope j x = .ok tables ∧
        fs = tables.flatMap TableJoin.fragments)
      (fun e _ => ∀ x, JoinResolves r.view q.aliases j x → joinTables scope j x = .error e) r := by
  unfold compileJoin
  cases ha : j.association with
  | none =>
    obtain ⟨text, htext⟩ := Option.isSome_iff_exists.mp (hc ha)
    have hx : JoinResolves r.view q.aliases j ⟨m, none⟩ := .explicit ha hm
    simp only [htext, Action.post_bind, Action.post_liftExcept, Action.post_pure]
    refine ⟨fun fs hfs => ⟨trivial, _, [⟨j.kind, m.fullTableName, j.aliasName, fs⟩], hx, rfl, ?_, ?_⟩,
      fun e he y hy => ?_⟩
    · simp only [joinTables, htext, Option.getD_some, hfs]
      rfl
    · simp [TableJoin.fragments]
    · rw [hy.unique hx, joinTables, htext, Option.getD_some, he]
      rfl
  | some a =>
    cases hs : q.aliases.get? a.source with
    | none =>
      simp only [hs, Action.post_throw]
      intro y hy
      obtain ⟨_, _, -, hsource, -⟩ := hy.of_association ha
      simp [hs] at hsource
    | some source =>
      simp only [hs, Action.post_bind, Action.post_liftExcept, Action.post_pure]
      refine (post_associationJoin source a.name a.source j.aliasName r).mono (fun joined t hj => ?_)
        fun e t he y hy => ?_
      · obtain ⟨hj, ht⟩ := hj
        have hx := JoinResolves.associated ha hm hs hj
        refine ⟨fun extra hextra => ⟨ht, _, joined.links.map (TableJoin.ofStep j.kind · []) ++
          [.ofStep j.kind joined.targetStep extra], hx, rfl, ?_, ?_⟩, fun e he y hy => ?_⟩
        · simp only [joinTables, hextra]
          rfl
        · simp [Schema.AssociationJoin.steps, fragments_ofStep, List.flatMap_def, Function.comp_def]
        · rw [hy.unique hx, joinTables, he]
          rfl
      · obtain ⟨_, _, -, hsource, hjoined⟩ := hy.of_association ha
        obtain rfl := Option.some.inj (hs.symm.trans hsource)
        simp [he] at hjoined

theorem post_compileJoins {ds : List (Join × Metadata)}
    (hfull : ∀ d ∈ ds, full.get? d.1.aliasName = some d.2)
    (hc : ∀ d ∈ ds, d.1.association = none → d.1.condition.isSome)
    (hview : ∀ d ∈ ds, r.view d.1.className = .ok d.2) :
    (compileJoins q full scope ds).Post (fun fs t => t.view = r.view ∧ ∃ xs blocks,
        List.Forall₂ (JoinResolves r.view q.aliases) (ds.map Prod.fst) xs ∧
        xs.map JoinAnswer.metadata = ds.map Prod.snd ∧
        tablesOfJoins scope ((ds.map Prod.fst).zip xs) = .ok blocks ∧
        fs = blocks.flatten.flatMap TableJoin.fragments)
      (fun e _ => ∀ xs, List.Forall₂ (JoinResolves r.view q.aliases) (ds.map Prod.fst) xs →
        tablesOfJoins scope ((ds.map Prod.fst).zip xs) = .error e) r := by
  -- compiling a join may change the registry, but not what it answers to the later joins
  induction ds generalizing scope r with
  | nil => exact ⟨rfl, [], [], .nil, rfl, rfl, rfl⟩
  | cons d ds ih =>
    obtain ⟨j, m⟩ := d
    obtain ⟨hj, hfulls⟩ := List.forall_mem_cons.mp hfull
    obtain ⟨hcj, hcs⟩ := List.forall_mem_cons.mp hc
    obtain ⟨hm, hviews⟩ := List.forall_mem_cons.mp hview
    simp only [compileJoins, hj, Option.getD_some, Action.post_bind, Action.post_pure, List.map_cons]
    refine (post_compileJoin hcj hm).mono (fun here t hhere => ?_) fun e t he xs hxs => ?_
    · obtain ⟨ht, x, tables, hx, rfl, htables, rfl⟩ := hhere
      refine (ih hfulls hcs (ht ▸ hviews)).mono (fun more u hmore => ?_) fun e u he ys hys => ?_
      · rw [ht] at hmore
        obtain ⟨hu, xs, blocks, hxs, hmetadata, hblocks, rfl⟩ := hmore
        refine ⟨hu, x :: xs, tables :: blocks, .cons hx hxs, by rw [List.map_cons, hmetadata], ?_, ?_⟩
        · simp only [List.zip_cons_cons, tablesOfJoins, htables, hblocks]
          rfl
        · rw [List.flatten_cons, List.flatMap_append]
      · rw [ht] at he
        cases hys with
        | cons hy hys =>
          obtain rfl := hy.unique hx
          simp only [List.zip_cons_cons, tablesOfJoins, htables, he _ hys]
          rfl
    · cases hxs with
      | cons hx hxs =>
        obtain rfl := Except.ok.inj (hm.symm.trans hx.view_className)
        simp only [List.zip_cons_cons, tablesOfJoins, he _ hx]
        rfl

theorem JoinsLie.condition_isSome {js : List Join} {cs : List (Option Tokens)} {ts : Tokens}
    (h : JoinsLie js cs ts) : ∀ j ∈ js, j.association = none → j.condition.isSome := by
  induction h with
  | nil => simp
  | @cons j c ts js cs us hj _ ih =>
    refine List.forall_mem_cons.mpr ⟨fun ha => ?_, ih⟩
    obtain ⟨body, rfl⟩ := Option.isSome_iff_exists.mp (hj.explicit ha)
    obtain ⟨start, names, behind, -, -, -, -, hcondition, -⟩ := hj.tokens
    rw [hcondition, Option.isSome_some]

theorem map_zip_of_resolves {aliases : OrderedMap String String} {ds : List (Join × Metadata)}
    {xs : List JoinAnswer} (h : List.Forall₂ (JoinResolves view aliases) (ds.map Prod.fst) xs)
    (hds : ∀ d ∈ ds, view d.1.className = .ok d.2) :
    ((ds.map Prod.fst).zip xs).map (fun p => (p.1, p.2.metadata)) = ds := by
  induction ds generalizing xs with
  | nil => rfl
  | cons d ds ih =>
    obtain ⟨hd, hds⟩ := List.forall_mem_cons.mp hds
    cases h with
    | cons hx hxs =>
      rw [List.map_cons, List.zip_cons_cons, List.map_cons, ih hxs hds]
      rw [show _ = d.2 from Except.ok.inj (hx.view_className.symm.trans hd)]

theorem map_eq_error {α β : Type} {f : α → β} {x : Except Error α} {e : Error} (h : x.map f = .error e) :
    x = .error e := by
  cases x with
  | error e' => exact congrArg _ (Except.error.inj h)
  | ok y => simp [Except.map] at h

theorem compileClause_eq (scope : Scope) (keyword : String) (text : Option String) :
    compileClause scope keyword text =
      (optionalClause scope text).map fun fs => fs.elim [] (.text keyword :: ·) := by
  cases text with
  | none => rfl
  | some text =>
    rw [compileClause, optionalClause]
    cases fragmentsOfText scope text <;> rfl

theorem compile_eq (q : ObjectQuery) : compile q = (do
    let root ← Registry.describe q.root
    let described ← describeJoins q.joins
    let full := extend (q.rootScope root) described
    let projection ← q.projectionFragments root full
    let joins ← compileJoins q full (q.rootScope root) described
    let filter ← compileClause full " WHERE " q.filter
    let order ← compileClause full " ORDER BY " q.order
    return .ofFragments ([.text "SELECT "] ++ projection ++
      [.text " FROM ", .text (underAlias root.fullTableName q.aliasName)] ++ joins ++ filter ++ order)) := by
  refine bind_congr fun root => bind_congr fun described => ?_
  dsimp only
  rw [projectionFragments]
  split <;> rfl

theorem Resolves.unique {x y : Answers} (hx : Resolves view q x) (hy : Resolves view q y) : x = y := by
  obtain ⟨root, xs⟩ := x
  obtain ⟨root', ys⟩ := y
  obtain rfl : root = root' := Except.ok.inj (hx.root.symm.trans hy.root)
  obtain rfl : xs = ys := List.right_unique_forall₂' (fun _ _ _ h h' => h.unique h') hx.joins hy.joins
  rfl

theorem Resolves.exists_view {x : Answers} (h : Resolves view q x) :
    ∀ j ∈ q.joins, ∃ m, view j.className = .ok m := by
  have hjoins := h.joins
  generalize q.joins = js, x.joins = xs at hjoins
  induction hjoins with
  | nil => simp
  | cons hj _ ih => exact List.forall_mem_cons.mpr ⟨⟨_, hj.view_className⟩, ih⟩

theorem Resolves.fullScope_eq {x : Answers} {root : Metadata} {ds : List (Join × Metadata)}
    (hx : Resolves view q x) (hroot : view q.root = .ok root) (hjoins : ds.map Prod.fst = q.joins)
    (hds : ∀ d ∈ ds, view d.1.className = .ok d.2) :
    x.root = root ∧ q.fullScope x = extend (q.rootScope root) ds := by
  have hxroot : x.root = root := Except.ok.inj (hx.root.symm.trans hroot)
  have hxjoins := map_zip_of_resolves (hjoins ▸ hx.joins) hds
  rw [hjoins] at hxjoins
  exact ⟨hxroot, by rw [fullScope, describedJoins, answeredJoins, hxjoins, hxroot]⟩

variable {ts : Tokens} {cl : Clauses} {source : String}

theorem Source.condition_isSome (hq : Source source q ts cl) :
    ∀ j ∈ q.joins, j.association = none → j.condition.isSome := by
  obtain ⟨_, _, _, joins, _, _, -, -, -, -, hlie, -⟩ := hq.laid.tokens
  exact hlie.condition_isSome

/-- A query that was read is compiled to its statement, if its classes and associations resolve. -/
theorem post_compile (hq : Source source q ts cl) (s : Registry) :
    (compile q).Post (fun c t => t.view = s.view ∧ ∃ x st, Resolves s.view q x ∧
        q.statement x = .ok st ∧ c = .ofFragments st.fragments)
      (fun e _ => ∀ x, Resolves s.view q x → q.statement x = .error e) s := by
  rw [compile_eq, Action.post_bind]
  refine (post_describe q.root s).mono (fun root t hroot => ?_) fun e _ he x hx => ?_
  swap
  · simp [hx.root] at he
  obtain ⟨hroot, ht⟩ := hroot
  rw [Action.post_bind]
  refine (post_describeJoins q.joins t).mono (fun ds u hds => ?_) fun e _ he x hx => ?_
  swap
  · obtain ⟨j, hj, he⟩ := he
    obtain ⟨m, hm⟩ := hx.exists_view j hj
    simp [ht, hm] at he
  rw [ht] at hds
  obtain ⟨hu, hjs, hds⟩ := hds
  have hget : ∀ d ∈ ds, (extend (q.rootScope root) ds).get? d.1.aliasName = some d.2 := by
    refine get?_extend _ ?_
    have hnodup := hq.introduces.nodup_joins
    rwa [← hjs, List.map_map] at hnodup
  have hcondition : ∀ d ∈ ds, d.1.association = none → d.1.condition.isSome := fun d hd =>
    hq.condition_isSome d.1 (hjs ▸ List.mem_map_of_mem hd)
  have hsame (x : Answers) (hx : Resolves s.view q x) := hx.fullScope_eq hroot hjs hds
  -- from here on only the answers to the joins and the clauses are left
  generalize extend (q.rootScope root) ds = full at hget hsame
  simp only [Action.post_bind, Action.post_liftExcept, Action.post_pure, compileClause_eq]
  refine ⟨fun projection hprojection => ?_, fun e he x hx => ?_⟩
  swap
  · rw [statement, (hsame x hx).1, (hsame x hx).2, he]
    rfl
  refine (post_compileJoins hget hcondition (hu ▸ hds)).mono (fun fs v hfs => ?_) fun e _ he x hx => ?_
  swap
  · rw [hjs, hu] at he
    rw [statement, (hsame x hx).1, (hsame x hx).2, hprojection, answeredJoins, he _ hx.joins]
    rfl
  rw [hjs, hu] at hfs
  obtain ⟨hv, xs, blocks, hxs, -, hblocks, rfl⟩ := hfs
  have hx : Resolves s.view q ⟨root, xs⟩ := ⟨hroot, hxs⟩
  have hstatement : q.statement ⟨root, xs⟩ = (do
      let filter ← optionalClause full q.filter
      let order ← optionalClause full q.order
      return ⟨projection, root.fullTableName, q.aliasName, blocks, filter, order⟩) := by
    rw [statement, (hsame _ hx).2, hprojection, answeredJoins, hblocks]
    rfl
  refine ⟨fun filter hfilter => ⟨fun order horder => ?_, fun e he y hy => ?_⟩, fun e he y hy => ?_⟩
  · obtain ⟨fs, hfs, rfl⟩ := map_eq_ok hfilter
    obtain ⟨gs, hgs, rfl⟩ := map_eq_ok horder
    rw [hfs, hgs] at hstatement
    exact ⟨hv, _, _, hx, hstatement, rfl⟩
  · obtain ⟨fs, hfs, -⟩ := map_eq_ok hfilter
    rw [hy.unique hx, hstatement, hfs, map_eq_error he]
    rfl
  · rw [hy.unique hx, hstatement, map_eq_error he]
    rfl

end Persistence.ObjectQuery
