import Persistence.Proofs.Parentheses
import Persistence.Proofs.SharedCache

/-!
Queries that were read are well formed. Their aliases are distinct and no keywords, each association
belongs to an alias that stands before it and leads to the class of its join, and no clause is empty
or leaves a parenthesis open. So nothing in them but the name of a field can be at fault when they
are compiled.
-/

namespace Persistence.ObjectQuery

open Schema (Metadata Registry)
open Token (Readable)

variable {q : ObjectQuery} {j : Join} {ts rest : Tokens} {r r' : Registry} {source : String}
  {view : String → Except Error Metadata}

def clauseTexts (q : ObjectQuery) : List String :=
  q.projection :: (q.joins.filterMap Join.condition ++ (q.filter.toList ++ q.order.toList))

def Unreserved (name : String) : Prop := ∀ word ∈ reserved, Text.sameName name word = false

def bindings (q : ObjectQuery) (joins : List Join) : List (String × String) :=
  (q.aliasName.toList.map fun a => (a, q.root)) ++ introduced joins

/-- What holds of a query for a registry that has read it. -/
structure WellFormed (q : ObjectQuery) (view : String → Except Error Metadata) : Prop where
  aliases : q.aliases.toList = q.bindings q.joins
  nodup : (q.aliases.toList.map Prod.fst).Nodup
  unreserved : ∀ name ∈ q.aliases.toList.map Prod.fst, Unreserved name
  /-- An association belongs to an alias before it and exists on the class of that alias. -/
  association : ∀ before j after, q.joins = before ++ j :: after → ∀ a, j.association = some a →
    ∃ className m b, (a.source, className) ∈ q.bindings before ∧ view className = .ok m ∧
      m.association? a.name = some b ∧ j.className = b.target
  explicit : ∀ j ∈ q.joins, j.association = none → ∃ text, j.condition = some text
  clauses : ∀ text ∈ q.clauseTexts, text ≠ "" ∧ Balanced text

theorem unreserved_of_isAlias {t : Token} (h : isAlias t = true) : Unreserved t.text := by
  obtain ⟨hkind, hnot⟩ : t.kind = .word ∧ reserved.any t.isKeyword = false := by
    simpa [isAlias] using h
  intro word hword
  simpa [Token.isKeyword, hkind] using List.any_eq_false.mp hnot word hword

theorem unreserved_joinHead {head : JoinHead} (h : joinHead ts = .ok (head, rest)) :
    Unreserved head.aliasName := by
  cases headRead_of_joinHead h with
  | association _ _ _ ha => exact unreserved_of_isAlias ha
  | className _ _ ha => exact unreserved_of_isAlias ha

theorem unreserved_rootAlias {aliasName : Option String} (h : rootAlias ts = (aliasName, rest)) :
    ∀ name ∈ aliasName, Unreserved name := by
  unfold rootAlias at h
  split at h
  · split at h
    · rename_i ht
      obtain ⟨rfl, -⟩ := Prod.mk.inj h
      simpa using unreserved_of_isAlias ht
    · obtain ⟨rfl, -⟩ := Prod.mk.inj h
      simp
  · obtain ⟨rfl, -⟩ := Prod.mk.inj h
    simp

theorem isClause_of_condition {stop : Tokens → Bool} {starts : Bool} {behind : Tokens}
    {text : Option String} (hts : Readable ts) (hbehind : Readable behind)
    (h : (if starts then (condition stop behind).map fun r => (some r.1, r.2) else .ok (none, ts)) =
      .ok (text, rest)) : (∀ s ∈ text, IsClause s) ∧ Readable rest := by
  split at h
  · obtain ⟨⟨s, last⟩, hcondition, hlast⟩ := map_eq_ok h
    obtain ⟨rfl, rfl⟩ := Prod.mk.inj hlast
    obtain ⟨hs, hrest⟩ := isClause_of_nonempty hcondition hbehind
    exact ⟨by simpa using hs, hrest⟩
  · obtain ⟨rfl, rfl⟩ := Prod.mk.inj (Except.ok.inj h)
    exact ⟨by simp, hts⟩

theorem readable_drop (hts : Readable ts) (n : Nat) : Readable (ts.drop n) := by
  rw [← List.take_append_drop n ts] at hts
  exact hts.of_append_right

theorem isClause_of_joinCondition {target : String ⊕ AssociationRef} {text : Option String}
    (h : joinCondition target ts = .ok (text, rest)) (hts : Readable ts) :
    (∀ s ∈ text, IsClause s) ∧ Readable rest := by
  cases target with
  | inl className =>
    obtain ⟨more, hon, hmore⟩ := bind_eq_ok h
    obtain ⟨t, rfl, -⟩ := expect_eq_ok hon
    obtain ⟨⟨s, last⟩, hcondition, hlast⟩ := bind_eq_ok hmore
    obtain ⟨rfl, rfl⟩ := Prod.mk.inj (Except.ok.inj hlast)
    obtain ⟨hs, hrest⟩ := isClause_of_nonempty hcondition hts.2
    exact ⟨by simpa using hs, hrest⟩
  | inr a => exact isClause_of_condition hts (List.drop_one ▸ readable_drop hts 1) h

structure Join.Kept (j : Join) : Prop where
  unreserved : Unreserved j.aliasName
  condition : ∀ text ∈ j.condition, IsClause text

theorem JoinsRead.kept {aliases aliases' : OrderedMap String String} {joins : List Join}
    (h : JoinsRead aliases ts r joins aliases' rest r') (hts : Readable ts) :
    (∀ j ∈ joins, j.Kept) ∧ Readable rest := by
  induction h with
  | done => exact ⟨by simp, hts⟩
  | join hk hh _ hc _ _ ih =>
    obtain ⟨keywords, rfl, -⟩ := areKeywords_joinKind hk
    obtain ⟨names, rfl, -⟩ := names_joinHead hh
    obtain ⟨hclause, hmid⟩ := isClause_of_joinCondition hc hts.of_append_right.of_append_right
    obtain ⟨hjoins, hrest⟩ := ih hmid
    exact ⟨List.forall_mem_cons.mpr ⟨⟨unreserved_joinHead hh, hclause⟩, hjoins⟩, hrest⟩

structure Kept (q : ObjectQuery) : Prop where
  root : ∀ name ∈ q.aliasName, Unreserved name
  joins : ∀ j ∈ q.joins, j.Kept
  projection : IsClause q.projection
  filter : ∀ text ∈ q.filter, IsClause text
  order : ∀ text ∈ q.order, IsClause text

theorem QueryRead.kept (h : QueryRead ts r q r') (hts : Readable ts) : q.Kept := by
  obtain ⟨hselect, hprojection, hfrom, hroot, halias, hjoins, hfilter, horder⟩ := h
  obtain ⟨_, rfl, -⟩ := expect_eq_ok hselect
  obtain ⟨hprojection', hts₂⟩ := isClause_of_nonempty hprojection hts.2
  obtain ⟨_, rfl, -⟩ := expect_eq_ok hfrom
  obtain ⟨_, rfl, -⟩ := expectName_eq_ok hroot
  obtain ⟨names, rfl, -⟩ := areNames_rootAlias halias
  obtain ⟨hjoins', hts₆⟩ := hjoins.kept hts₂.2.2.of_append_right
  obtain ⟨hfilter', hts₇⟩ :=
    isClause_of_condition hts₆ (List.drop_one ▸ readable_drop hts₆ 1) hfilter
  obtain ⟨horder', -⟩ := isClause_of_condition hts₇ (readable_drop hts₇ 2) horder
  exact ⟨unreserved_rootAlias halias, hjoins', hprojection', hfilter', horder'⟩

theorem kept_of_parse (h : (parse source).run r = (.ok q, r')) : q.Kept := by
  obtain ⟨-, ts, hts, hread⟩ := exists_read h
  exact hread.kept (Token.readable_of_scan hts).1

theorem Kept.isClause (h : q.Kept) : ∀ text ∈ q.clauseTexts, IsClause text := by
  intro text htext
  simp only [clauseTexts, List.mem_cons, List.mem_append, List.mem_filterMap, Option.mem_toList] at htext
  rcases htext with rfl | ⟨j, hj, hcondition⟩ | hfilter | horder
  · exact h.projection
  · exact (h.joins j hj).condition text hcondition
  · exact h.filter text hfilter
  · exact h.order text horder

theorem Kept.unreserved (h : q.Kept) : ∀ name ∈ q.aliasNames, Unreserved name := by
  intro name hname
  rw [aliasNames, List.mem_append, Option.mem_toList, List.mem_map] at hname
  rcases hname with hroot | ⟨j, hj, rfl⟩
  · exact h.root name hroot
  · exact (h.joins j hj).unreserved

theorem Rooted.source_mem {names : List String} {before after : List Join} {a : AssociationRef}
    (h : Rooted names (before ++ j :: after)) (ha : j.association = some a) :
    a.source ∈ names ++ before.map Join.aliasName := by
  induction before generalizing names with
  | nil =>
    cases h with
    | cons hsource _ => simpa using hsource a ha
  | cons k before ih =>
    cases h with
    | cons _ hrest => simpa using ih hrest

theorem map_fst_bindings (q : ObjectQuery) (joins : List Join) :
    (q.bindings joins).map Prod.fst = q.aliasName.toList ++ joins.map Join.aliasName := by
  simp [bindings, introduced, Function.comp_def]

theorem Introduces.mem_bindings (h : q.Introduces) {before after : List Join} {a : AssociationRef}
    {className : String} (hjoins : q.joins = before ++ j :: after) (ha : j.association = some a)
    (hclass : q.aliases.get? a.source = some className) :
    (a.source, className) ∈ q.bindings before := by
  have hmem := (hjoins ▸ h.rooted).source_mem ha
  rw [← map_fst_bindings] at hmem
  obtain ⟨⟨name, c⟩, hc, hname⟩ := List.mem_map.mp hmem
  obtain rfl : name = a.source := hname
  have hall : (a.source, c) ∈ q.aliases.toList := by
    rw [h.aliases, introduced, hjoins, List.map_append, ← List.append_assoc]
    exact List.mem_append_left _ hc
  obtain rfl := Option.some.inj (hclass.symm.trans ((q.aliases.get?_eq_some_iff _ _).mpr hall))
  exact hc

theorem Target.association {aliases : OrderedMap String String} {a : AssociationRef} {c : String}
    (h : Target view aliases (.inr a) c) : ∃ className m b, aliases.get? a.source = some className ∧
      view className = .ok m ∧ m.association? a.name = some b ∧ c = b.target := by
  cases h with
  | associated hclass hm hb => exact ⟨_, _, _, hclass, hm, hb, rfl⟩

theorem wellFormed_of_source (h : (parse source).run r = (.ok q, r')) : q.WellFormed r.view := by
  obtain ⟨ts, cl, hsource⟩ := exists_source h
  have hintroduces := hsource.introduces
  have hkept := kept_of_parse h
  have hread : reading source r = .ok q := by rw [reading, h]
  have hled := (reading_eq_iff hread r).mp hread
  refine ⟨hintroduces.aliases, q.aliases.nodup, ?_, ?_, ?_, fun text htext => ?_⟩
  · rw [← OrderedMap.keys, hintroduces.keys_eq]
    exact hkept.unreserved
  · intro before j after hjoins a ha
    obtain ⟨className, m, b, hclass, hm, hb, htarget⟩ := (hled j (by simp [hjoins]) a ha).association
    exact ⟨className, m, b, hintroduces.mem_bindings hjoins ha hclass, hm, hb, htarget⟩
  · intro j hj hnone
    exact Option.isSome_iff_exists.mp (hsource.condition_isSome j hj hnone)
  · exact ⟨(hkept.isClause text htext).ne_empty, (hkept.isClause text htext).balanced⟩

def AboutField (e : Error) : Prop :=
  ∀ fault text, e = .query fault text → ∃ className name, fault = .noField className name

theorem aboutField_mapping (fault : MappingFault) : AboutField (.mapping fault) := by
  simp [AboutField, Error.mapping, Error.query]

theorem aboutField_validation (fault : ValidationFault) : AboutField (.validation fault) := by
  simp [AboutField, Error.validation, Error.query]

def FailsByField {α : Type} (x : Except Error α) : Prop := ∀ e, x = .error e → AboutField e

namespace FailsByField

variable {α β : Type} {x : Except Error α} {f : α → Except Error β} {e : Error}

theorem ok (y : α) : FailsByField (.ok y) := by simp [FailsByField]

theorem error (h : AboutField e) : FailsByField (.error e : Except Error α) :=
  fun _ he => Except.error.inj he ▸ h

theorem bind (hx : FailsByField x) (hf : ∀ y, FailsByField (f y)) : FailsByField (x >>= f) := by
  cases x with
  | ok y => exact hf y
  | error e => exact .error (hx e rfl)

end FailsByField

theorem failsByField_view (r : Registry) (className : String) : FailsByField (r.view className) := by
  unfold Registry.view Registry.build Schema.Mapping.build
  split
  · exact .error (aboutField_validation _)
  · split
    · exact .ok _
    · split
      · exact .error (aboutField_mapping _)
      · split
        · exact .ok _
        · exact .error (aboutField_mapping _)

theorem failsByField_inverse (a : Schema.Association) (className mappedBy : String) (target : Metadata) :
    FailsByField (a.inverse className target mappedBy) := by
  unfold Schema.Association.inverse
  split
  · exact .ok _
  · exact .error (aboutField_mapping _)

theorem failsByField_linkColumns (a : Schema.Association) (className : String) (target : Metadata) :
    FailsByField (a.linkColumns className target) := by
  unfold Schema.Association.linkColumns
  split
  · split
    · exact .ok _
    · exact .error (aboutField_mapping _)
  · refine .bind (failsByField_inverse _ _ _ _) fun b => ?_
    split
    · exact .ok _
    · exact .error (aboutField_mapping _)

theorem failsByField_join (a : Schema.Association) (className x y : String) (target : Metadata) :
    FailsByField (a.join className target x y) := by
  unfold Schema.Association.join
  split
  · exact .ok _
  · exact .ok _
  · refine .bind (failsByField_inverse _ _ _ _) fun b => ?_
    split
    · exact .ok _
    · exact .error (aboutField_mapping _)
  · refine .bind (failsByField_inverse _ _ _ _) fun b => ?_
    split
    · exact .ok _
    · exact .error (aboutField_mapping _)
  · exact .bind (failsByField_linkColumns _ _ _) fun _ => .ok _
  · exact .error (aboutField_mapping _)

theorem failsByField_associationJoinBy (r : Registry) (className association x y : String) :
    FailsByField (associationJoinBy r.view className association x y) := by
  refine .bind (failsByField_view r className) fun m => ?_
  split
  · exact .error (aboutField_mapping _)
  · exact .bind (failsByField_view r _) fun target => failsByField_join _ _ _ _ target

theorem failsByField_clause (scope : Scope) {text : String} (h : IsClause text) :
    FailsByField (fragmentsOfText scope text) := by
  obtain ⟨ts, hts, rfl, -⟩ := h.written
  intro e he
  obtain ⟨i, m, owner, t, -, -, -, -, rfl⟩ := blames_of_fragmentsOfText hts he
  intro fault text heq
  obtain ⟨rfl, -⟩ : .noField m.className t.text = fault ∧ _ := by simpa [Error.query] using heq
  exact ⟨_, _, rfl⟩

theorem failsByField_extraCondition (scope : Scope) {text : Option String}
    (h : ∀ s ∈ text, IsClause s) : FailsByField (extraCondition scope text) := by
  cases text with
  | none => exact .ok _
  | some s => exact .bind (failsByField_clause scope (h s rfl)) fun _ => .ok _

theorem failsByField_compileClause (scope : Scope) (keyword : String) {text : Option String}
    (h : ∀ s ∈ text, IsClause s) : FailsByField (compileClause scope keyword text) := by
  cases text with
  | none => exact .ok _
  | some s => exact .bind (failsByField_clause scope (h s rfl)) fun _ => .ok _

structure Join.Compilable (j : Join) (q : ObjectQuery) : Prop where
  source : ∀ a ∈ j.association, ∃ className, q.aliases.get? a.source = some className
  explicit : j.association = none → ∃ text, j.condition = some text
  condition : ∀ text ∈ j.condition, IsClause text

theorem post_compileJoin_fails {scope : Scope} {m : Metadata} (hj : j.Compilable q) (r : Registry) :
    (compileJoin q scope m j).Post (fun _ _ => True) (fun e _ => AboutField e) r := by
  unfold compileJoin
  cases ha : j.association with
  | none =>
    obtain ⟨text, htext⟩ := hj.explicit ha
    simp only [htext, Action.post_bind, Action.post_liftExcept, Action.post_pure]
    exact ⟨fun _ _ => trivial, failsByField_clause scope (hj.condition text htext)⟩
  | some a =>
    obtain ⟨className, hclass⟩ := hj.source a ha
    simp only [hclass, Action.post_bind, Action.post_liftExcept, Action.post_pure]
    refine (post_associationJoin className a.name a.source j.aliasName r).mono (fun joined t _ => ?_)
      fun e _ he => failsByField_associationJoinBy r _ _ _ _ e he
    exact ⟨fun _ _ => trivial, failsByField_extraCondition scope hj.condition⟩

theorem post_compileJoins_fails {full scope : Scope} {ds : List (Join × Metadata)}
    (hds : ∀ d ∈ ds, d.1.Compilable q) (r : Registry) :
    (compileJoins q full scope ds).Post (fun _ _ => True) (fun e _ => AboutField e) r := by
  induction ds generalizing scope r with
  | nil => trivial
  | cons d ds ih =>
    obtain ⟨hd, hmore⟩ := List.forall_mem_cons.mp hds
    obtain ⟨j, own⟩ := d
    simp only [compileJoins, Action.post_bind, Action.post_pure]
    exact (post_compileJoin_fails hd r).mono (fun _ t _ => ih hmore t) fun _ _ he => he

theorem post_compile_fails (hkept : q.Kept) (hjoins : ∀ j ∈ q.joins, j.Compilable q) (r : Registry) :
    (compile q).Post (fun _ _ => True) (fun e _ => AboutField e) r := by
  rw [compile_eq, Action.post_bind]
  refine (post_describe q.root r).mono (fun root t _ => ?_) fun e _ he => failsByField_view r _ e he
  rw [Action.post_bind]
  refine (post_describeJoins q.joins t).mono (fun ds u hds => ?_) fun e _ he => ?_
  swap
  · obtain ⟨j, -, he⟩ := he
    exact failsByField_view t _ e he
  obtain ⟨-, hjs, -⟩ := hds
  have hall : ∀ d ∈ ds, d.1.Compilable q := fun d hd => hjoins d.1 (hjs ▸ List.mem_map_of_mem hd)
  have hprojection (full : Scope) : FailsByField (q.projectionFragments root full) := by
    unfold projectionFragments
    split
    · exact .ok _
    · exact failsByField_clause full hkept.projection
  simp only [Action.post_bind, Action.post_liftExcept, Action.post_pure]
  refine ⟨fun projection _ => ?_, hprojection _⟩
  refine (post_compileJoins_fails hall u).mono (fun _ v _ => ?_) fun _ _ he => he
  exact ⟨fun _ _ => ⟨fun _ _ => trivial, failsByField_compileClause _ _ hkept.order⟩,
    failsByField_compileClause _ _ hkept.filter⟩

theorem WellFormed.compilable (h : q.WellFormed view) (hkept : q.Kept) :
    ∀ j ∈ q.joins, j.Compilable q := by
  intro j hj
  refine ⟨fun a ha => ?_, h.explicit j hj, (hkept.joins j hj).condition⟩
  obtain ⟨before, after, hjoins⟩ := List.append_of_mem hj
  obtain ⟨className, -, -, hmem, -⟩ := h.association before j after hjoins a ha
  refine ⟨className, (q.aliases.get?_eq_some_iff _ _).mpr ?_⟩
  rw [h.aliases, bindings, introduced, hjoins, List.map_append, ← List.append_assoc]
  exact List.mem_append_left _ hmem

/-- A query that was read is well formed, for the registry that has read it. No registry fails to
compile it for an alias that is not known or a condition that is missing; if one fails to for
anything in the query, then for a field that stands for no column. -/
theorem wellFormed_of_parse (h : (parse source).run r = (.ok q, r')) :
    q.WellFormed r.view ∧ ∀ s fault text, ((compile q).run s).1 = .error (.query fault text) →
      (∀ name, fault ≠ .unknownAlias name) ∧ fault ≠ .joinWithoutCondition ∧
        ∃ className name, fault = .noField className name := by
  have hkept := kept_of_parse h
  have hwell := wellFormed_of_source h
  refine ⟨hwell, fun s fault text hfault => ?_⟩
  have hfails := (Action.post_iff.mp (post_compile_fails hkept (hwell.compilable hkept) s)).2
  obtain ⟨className, name, rfl⟩ := hfails _ _ (Action.run_eq_of_fst hfault) fault text rfl
  exact ⟨by simp, by simp, className, name, rfl⟩

def namedPosts : String := "SELECT p FROM User u JOIN u.posts p WITH (p.id > 1) WHERE u.name = '('"

def namedPostsRead : ObjectQuery where
  projection := "p"
  root := "User"
  aliasName := some "u"
  joins := [⟨.inner, "Post", "p", some "(p.id > 1)", some ⟨"u", "posts"⟩⟩]
  filter := some "u.name = '('"
  order := none
  aliases := .ofList [("u", "User"), ("p", "Post")]

theorem reading_namedPosts : reading namedPosts blog = .ok namedPostsRead := by
  rw [reading, namedPosts, parse_ofList (by decide)]
  decide +kernel

theorem wellFormed_of_parse_namedPosts :
    namedPostsRead.WellFormed blog.view ∧ Balanced "u.name = '('" ∧
      ∀ text, ((compile namedPostsRead).run blog).1 ≠ .error (.query .joinWithoutCondition text) := by
  obtain ⟨hwell, hcompile⟩ := wellFormed_of_parse (Action.run_eq_of_fst reading_namedPosts)
  refine ⟨hwell, (hwell.clauses _ ?_).2, fun text htext => (hcompile blog _ text htext).2.1 rfl⟩
  simp [clauseTexts, namedPostsRead]

end Persistence.ObjectQuery
