import Mathlib.Data.List.Nodup
import Persistence.Proofs.Joining
import Persistence.Proofs.Translation

/-!
Table aliases. A compiled query brings the aliases of the query and one more for each join through a
join table, made of the aliases of both sides. The aliases of a query are distinct; those of the join
tables may be one of them, or the same twice, where aliases have underscores.
-/

namespace Persistence.ObjectQuery

open Schema (Metadata Registry linkAlias)

variable {q : ObjectQuery} {scope : Scope} {j : Join} {x : JoinAnswer} {tables : List TableJoin}
  {view : String → Except Error Metadata} {aliases : OrderedMap String String} {a : String}

/-- The aliases that a statement gives to tables, in the order of its text. -/
def Statement.tableAliases (st : Statement) : List String :=
  st.aliasName.toList ++ st.joins.flatten.map TableJoin.aliasName

def linkOf (view : String → Except Error Metadata) (aliases : OrderedMap String String) (j : Join) :
    Option String := do
  let a ← j.association
  let source ← aliases.get? a.source
  let m ← (view source).toOption
  let b ← m.association? a.name
  if b.kind = .manyToMany then some (linkAlias a.source j.aliasName) else none

/-- The aliases of the join tables that a query goes through. -/
def linkAliases (view : String → Except Error Metadata) (q : ObjectQuery) : List String :=
  q.joins.filterMap (linkOf view q.aliases)

theorem linkAlias_inj {s t s' t' : String} (hs : '_' ∉ s.toList) (ht : '_' ∉ t.toList) :
    linkAlias s' t' = linkAlias s t ↔ s' = s ∧ t' = t := by
  simp only [linkAlias, ← String.toList_inj, String.toList_append]
  rw [show "_".toList = ['_'] from rfl, List.append_assoc, List.append_assoc, eq_comm]
  refine (List.append_cons_inj_of_notMem hs ht).trans ?_
  simp [eq_comm]

theorem mem_toList_linkAlias (s t : String) : '_' ∈ (linkAlias s t).toList := by
  simp [linkAlias]

theorem aliases_of_joinsBy {b : Schema.Association} {target : Metadata} {sourceAlias targetAlias : String}
    {joined : Schema.AssociationJoin} (h : b.JoinsBy target sourceAlias targetAlias joined) :
    joined.links.map Schema.JoinStep.aliasName =
        (if b.kind = .manyToMany then some (linkAlias sourceAlias targetAlias) else none).toList ∧
      joined.targetStep.aliasName = targetAlias := by
  cases h with
  | direct hkind => exact ⟨by rw [if_neg hkind]; rfl, rfl⟩
  | through hkind => exact ⟨by rw [if_pos hkind]; rfl, rfl⟩

theorem aliases_of_joinTables (hx : JoinResolves view aliases j x) (h : joinTables scope j x = .ok tables) :
    tables.map TableJoin.aliasName = (linkOf view aliases j).toList ++ [j.aliasName] := by
  cases hx with
  | explicit hj =>
    obtain ⟨fs, -, htables⟩ := bind_eq_ok h
    obtain rfl := Except.ok.inj htables
    simp [linkOf, hj]
  | @associated m ref source joined hj hm hsource hjoined =>
    obtain ⟨extra, -, htables⟩ := bind_eq_ok h
    obtain rfl := Except.ok.inj htables
    obtain ⟨md, hmd, hjoined⟩ := bind_eq_ok hjoined
    split at hjoined
    · simp at hjoined
    rename_i b hb
    obtain ⟨target, -, hjoined⟩ := bind_eq_ok hjoined
    obtain ⟨hlinks, htarget⟩ := aliases_of_joinsBy (Schema.Association.joinsBy_of_join hjoined)
    have hlink : linkOf view aliases j =
        if b.kind = .manyToMany then some (linkAlias ref.source j.aliasName) else none := by
      simp [linkOf, hj, hsource, hmd, hb, Except.toOption]
    rw [hlink, ← hlinks, List.map_append, List.map_map, List.map_singleton]
    exact congrArg (_ ++ [·]) htarget

theorem aliases_of_tablesOfJoins {js : List Join} {xs : List JoinAnswer} {blocks : List (List TableJoin)}
    (hx : List.Forall₂ (JoinResolves view aliases) js xs) (h : tablesOfJoins scope (js.zip xs) = .ok blocks) :
    (blocks.flatten.map TableJoin.aliasName).Perm
      (js.map Join.aliasName ++ js.filterMap (linkOf view aliases)) := by
  induction hx generalizing scope blocks with
  | nil => obtain rfl := Except.ok.inj h; exact .refl []
  | @cons j x js xs hj _ ih =>
    obtain ⟨here, hhere, h⟩ := bind_eq_ok h
    obtain ⟨more, hmore, h⟩ := bind_eq_ok h
    obtain rfl := Except.ok.inj h
    have hlinks : (j :: js).filterMap (linkOf view aliases) =
        (linkOf view aliases j).toList ++ js.filterMap (linkOf view aliases) := by
      simp only [List.filterMap_eq_flatMap_toList, List.flatMap_cons]
    rw [List.flatten_cons, List.map_append, aliases_of_joinTables hj hhere, hlinks, List.map_cons]
    -- the alias of the join goes to the front, and then those of the later joins before the link
    refine (List.perm_append_comm.append (ih hmore)).trans ?_
    exact (List.perm_append_comm_assoc _ _ _).cons _

theorem aliases_of_statement {x : Answers} {st : Statement} (hx : Resolves view q x)
    (h : q.statement x = .ok st) : st.tableAliases.Perm (q.aliasNames ++ linkAliases view q) := by
  obtain ⟨-, -, halias, hjoins, -, -⟩ := statement_eq_ok h
  rw [Statement.tableAliases, aliasNames, halias, List.append_assoc]
  exact (aliases_of_tablesOfJoins hx.joins hjoins).append_left _

theorem eq_of_linkOf (h : linkOf view aliases j = some a) :
    ∃ s ∈ aliases.keys, a = linkAlias s j.aliasName := by
  simp only [linkOf, Option.bind_eq_bind, Option.bind_eq_some_iff, Option.ite_none_right_eq_some,
    Option.some.injEq] at h
  obtain ⟨ref, -, source, hsource, m, -, b, -, -, rfl⟩ := h
  exact ⟨ref.source, (aliases.get?_isSome_iff _).mp (hsource ▸ rfl), rfl⟩

theorem nodup_tableAliases {x : Answers} {st : Statement} (hq : q.Introduces) (hx : Resolves view q x)
    (h : q.statement x = .ok st) : st.tableAliases.Nodup ↔
      (linkAliases view q).Nodup ∧ ∀ a ∈ linkAliases view q, a ∉ q.aliasNames := by
  rw [(aliases_of_statement hx h).nodup_iff, List.nodup_append', and_iff_right hq.nodup,
    List.disjoint_right]

theorem nodup_linkAliases (hq : q.Introduces) (h : ∀ a ∈ q.aliasNames, '_' ∉ a.toList) :
    (linkAliases view q).Nodup ∧ ∀ a ∈ linkAliases view q, a ∉ q.aliasNames := by
  refine ⟨?_, fun a ha hmem => ?_⟩
  · refine List.pairwise_filterMap.mpr ((List.pairwise_map.mp hq.nodup_joins).imp_of_mem ?_)
    intro j k hj hk hne a ha b hb
    obtain ⟨s, hs, rfl⟩ := eq_of_linkOf ha
    obtain ⟨t, ht, rfl⟩ := eq_of_linkOf hb
    rw [hq.keys_eq] at hs ht
    rw [Ne, linkAlias_inj (h t ht) (h _ (List.mem_append_right _ (List.mem_map_of_mem hk)))]
    exact fun heq => hne heq.2
  · obtain ⟨j, -, hj⟩ := List.mem_filterMap.mp ha
    obtain ⟨s, -, rfl⟩ := eq_of_linkOf hj
    exact h _ hmem (mem_toList_linkAlias s j.aliasName)

/-- A compiled query gives tables the aliases of the query and those of the join tables. No alias is
given twice just if the join tables have aliases of their own, as they have without underscores. -/
theorem tableAliases_of_compile {source : String} {r r' s s' : Registry} {c : Compiled}
    (hparse : (parse source).run r = (.ok q, r')) (hcompile : (compile q).run s = (.ok c, s')) :
    ∃ x st, Resolves s.view q x ∧ q.statement x = .ok st ∧ c = .ofFragments st.fragments ∧
      st.tableAliases.Perm (q.aliasNames ++ linkAliases s.view q) ∧
      (st.tableAliases.Nodup ↔
        (linkAliases s.view q).Nodup ∧ ∀ a ∈ linkAliases s.view q, a ∉ q.aliasNames) ∧
      ((∀ a ∈ q.aliasNames, '_' ∉ a.toList) → st.tableAliases.Nodup) := by
  obtain ⟨ts, cl, hsource⟩ := exists_source hparse
  obtain ⟨-, x, st, hx, hst, hc⟩ := (post_compile hsource s).of_run_ok hcompile
  have hiff := nodup_tableAliases hsource.introduces hx hst
  exact ⟨x, st, hx, hst, hc, aliases_of_statement hx hst, hiff,
    fun h => hiff.mpr (nodup_linkAliases hsource.introduces h)⟩

theorem tableAliases_of_compile_members :
    ((parse members).run Sample.forum).1 = .ok membersRead ∧
    ((compile membersRead).run Sample.forum).1 = .ok membersCompiled ∧
    ∃ x st, Resolves Sample.forum.view membersRead x ∧ membersRead.statement x = .ok st ∧
      membersCompiled = .ofFragments st.fragments ∧ st.tableAliases.Perm ["m", "r", "m_r"] ∧
      st.tableAliases.Nodup := by
  obtain ⟨x, st, hx, hst, hc, hperm, -, hnodup⟩ := tableAliases_of_compile parse_members compile_members
  have haliases : membersRead.aliasNames ++ linkAliases Sample.forum.view membersRead = ["m", "r", "m_r"] := by
    decide +kernel
  exact ⟨congrArg Prod.fst parse_members, congrArg Prod.fst compile_members, x, st, hx, hst, hc,
    haliases ▸ hperm, hnodup (by decide +kernel)⟩

def crossing : String := "SELECT m FROM Member m JOIN m.roles r JOIN Role m_r ON m_r.id = m.id"

def crossingRead : ObjectQuery where
  projection := "m"
  root := "Member"
  aliasName := some "m"
  joins :=
    [⟨.inner, "Role", "r", none, some ⟨"m", "roles"⟩⟩, ⟨.inner, "Role", "m_r", some "m_r.id = m.id", none⟩]
  filter := none
  order := none
  aliases := .ofList [("m", "Member"), ("r", "Role"), ("m_r", "Role")]

def crossingCompiled : Compiled where
  sql := "SELECT m.id, m.full_name FROM members m INNER JOIN member_roles m_r ON m_r.member_id = m.id" ++
    " INNER JOIN roles r ON r.id = m_r.role_id INNER JOIN roles m_r ON m_r.id = m.id"
  parameters := []

/-- The join table and the class after it share an alias in a query that is compiled. -/
theorem tableAliases_crossing :
    ((parse crossing).run Sample.forum).1 = .ok crossingRead ∧
    ((compile crossingRead).run Sample.forum).1 = .ok crossingCompiled ∧
    ∃ x st, Resolves Sample.forum.view crossingRead x ∧ crossingRead.statement x = .ok st ∧
      crossingCompiled = .ofFragments st.fragments ∧ ¬ st.tableAliases.Nodup := by
  have hparse : (parse crossing).run Sample.forum =
      (.ok crossingRead, ((parse crossing).run Sample.forum).2) := by
    refine Action.run_eq_of_fst ?_
    rw [crossing, parse_ofList (by decide)]
    decide +kernel
  have hcompile : (compile crossingRead).run Sample.forum =
      (.ok crossingCompiled, ((compile crossingRead).run Sample.forum).2) := by
    refine Action.run_eq_of_fst ?_
    decide +kernel
  obtain ⟨ts, cl, hsource⟩ := exists_source hparse
  obtain ⟨-, x, st, hx, hst, hc⟩ := (post_compile hsource Sample.forum).of_run_ok hcompile
  refine ⟨congrArg Prod.fst hparse, congrArg Prod.fst hcompile, x, st, hx, hst, hc, fun hnodup => ?_⟩
  have hlink : "m_r" ∈ linkAliases Sample.forum.view crossingRead := by
    decide +kernel
  exact ((nodup_tableAliases hsource.introduces hx hst).mp hnodup).2 "m_r" hlink (by decide +kernel)

end Persistence.ObjectQuery
