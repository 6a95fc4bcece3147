import Mathlib.Data.List.ReduceOption
import Persistence.Proofs.RoundTrip

/-!
How a query lies in its text. The clauses of a query that was read are slices of the tokens of its
text, in the order of the text, and what stands between them are keywords, names and the dots of
associations. Each join brings an alias that no earlier one has, and an association belongs to an
alias that was there before.
-/

namespace Persistence

theorem putEntry_of_not_mem {κ α : Type} [DecidableEq κ] {k : κ} {es : List (κ × α)}
    (h : k ∉ es.map Prod.fst) (v : α) : putEntry k v es = es ++ [(k, v)] := by
  induction es with
  | nil => rfl
  | cons e es ih =>
    rw [List.map_cons, List.mem_cons, not_or] at h
    rw [putEntry, if_neg fun heq => h.1 heq.symm, ih h.2, List.cons_append]

theorem OrderedMap.toList_insert_of_not_contains {κ α : Type} [DecidableEq κ] {m : OrderedMap κ α}
    {k : κ} (h : m.contains k = false) (v : α) : (m.insert k v).toList = m.toList ++ [(k, v)] := by
  refine putEntry_of_not_mem (fun hmem => ?_) v
  rw [← Bool.not_eq_true, contains, m.get?_isSome_iff] at h
  exact h hmem

namespace ObjectQuery

open Token (Readable)

variable {ts us rest : Tokens} {text : String}

/-- The tokens of the clauses of a query. -/
structure Clauses where
  projection : Tokens
  /-- One for each join. -/
  conditions : List (Option Tokens)
  filter : Option Tokens
  order : Option Tokens

/-- The clauses that are there, in the order of the text. -/
def Clauses.all (cl : Clauses) : List Tokens :=
  cl.projection :: (cl.conditions ++ [cl.filter, cl.order]).reduceOption

def AreKeywords (keywords : List String) (ts : Tokens) : Prop :=
  List.Forall₂ (fun keyword t => t.isKeyword keyword = true) keywords ts

def AreNames (names : List String) (ts : Tokens) : Prop :=
  List.Forall₂ (fun name t => t.kind = .word ∧ t.text = name) names ts

def IsPlain (t : Token) : Prop := t.kind = .word ∨ t.isMark "." = true

theorem kind_of_isKeyword {t : Token} {keyword : String} (h : t.isKeyword keyword = true) :
    t.kind = .word := by
  rw [Token.isKeyword, decide_eq_true_eq] at h
  exact h.1

theorem AreKeywords.plain {keywords : List String} (h : AreKeywords keywords ts) :
    ∀ t ∈ ts, IsPlain t := by
  induction h with
  | nil => simp
  | cons hk _ ih => exact List.forall_mem_cons.mpr ⟨.inl (kind_of_isKeyword hk), ih⟩

theorem AreNames.plain {names : List String} (h : AreNames names ts) : ∀ t ∈ ts, IsPlain t := by
  induction h with
  | nil => simp
  | cons hn _ ih => exact List.forall_mem_cons.mpr ⟨.inl hn.1, ih⟩

def Behind (keywords : List String) (text : Option String) (clause : Option Tokens) (ts : Tokens) : Prop :=
  match clause with
  | none => text = none ∧ ts = []
  | some body => text = some (Token.join body) ∧ ∃ ks, AreKeywords keywords ks ∧ ts = ks ++ body

def JoinKind.spellings : JoinKind → List (List String)
  | .inner => [["JOIN"], ["INNER", "JOIN"]]
  | .left => [["LEFT", "JOIN"], ["LEFT", "OUTER", "JOIN"]]

def Join.names (j : Join) : List String :=
  (match j.association with
    | some a => [a.source, ".", a.name]
    | none => [j.className]) ++ [j.aliasName]

def Join.conditionKeyword (j : Join) : String := if j.association.isSome then "WITH" else "ON"

structure Join.Lies (j : Join) (condition : Option Tokens) (ts : Tokens) : Prop where
  tokens : ∃ start names behind, ts = start ++ names ++ behind ∧
    (∃ keywords ∈ j.kind.spellings, AreKeywords keywords start) ∧
    names.map Token.text = j.names ∧ (∀ t ∈ names, IsPlain t) ∧
    Behind [j.conditionKeyword] j.condition condition behind
  explicit : j.association = none → condition.isSome

inductive JoinsLie : List Join → List (Option Tokens) → Tokens → Prop
  | nil : JoinsLie [] [] []
  | cons {j : Join} {c : Option Tokens} {ts : Tokens} {js : List Join} {cs : List (Option Tokens)}
      {us : Tokens} : j.Lies c ts → JoinsLie js cs us → JoinsLie (j :: js) (c :: cs) (ts ++ us)

/-- A query lies in tokens, and its clauses in some of them. -/
structure Laid (ts : Tokens) (q : ObjectQuery) (cl : Clauses) : Prop where
  projection : q.projection = Token.join cl.projection
  tokens : ∃ select from' names joins filter order,
    ts = select ++ (cl.projection ++ (from' ++ (names ++ (joins ++ (filter ++ order))))) ∧
    AreKeywords ["SELECT"] select ∧ AreKeywords ["FROM"] from' ∧
    AreNames (q.root :: q.aliasName.toList) names ∧ JoinsLie q.joins cl.conditions joins ∧
    Behind ["WHERE"] q.filter cl.filter filter ∧ Behind ["ORDER", "BY"] q.order cl.order order

section Filter

variable {p : Token → Bool} (hp : ∀ t, IsPlain t → p t = false)

include hp

theorem filter_plain (h : ∀ t ∈ ts, IsPlain t) : ts.filter p = [] :=
  List.filter_eq_nil_iff.mpr fun t ht => by simp [hp t (h t ht)]

theorem Behind.filter_eq {keywords : List String} {text : Option String} {clause : Option Tokens}
    (h : Behind keywords text clause ts) : ts.filter p = clause.toList.flatMap (List.filter p) := by
  cases clause with
  | none => simp [h.2]
  | some body =>
    obtain ⟨-, ks, hks, rfl⟩ := h
    simp [filter_plain hp hks.plain]

theorem Join.Lies.filter_eq {j : Join} {condition : Option Tokens} (h : j.Lies condition ts) :
    ts.filter p = condition.toList.flatMap (List.filter p) := by
  obtain ⟨start, names, behind, rfl, ⟨keywords, -, hstart⟩, -, hnames, hbehind⟩ := h.tokens
  rw [List.filter_append, List.filter_append, filter_plain hp hstart.plain, filter_plain hp hnames,
    hbehind.filter_eq hp]
  rfl

theorem JoinsLie.filter_eq {js : List Join} {cs : List (Option Tokens)} (h : JoinsLie js cs ts) :
    ts.filter p = cs.reduceOption.flatMap (List.filter p) := by
  induction h with
  | nil => rfl
  | @cons j c ts js cs us hj _ ih =>
    rw [List.filter_append, hj.filter_eq hp, ih]
    cases c <;> simp

theorem Laid.filter_eq {q : ObjectQuery} {cl : Clauses} (h : Laid ts q cl) :
    ts.filter p = cl.all.flatMap (List.filter p) := by
  obtain ⟨select, from', names, joins, filter, order, rfl, hselect, hfrom, hnames, hjoins, hfilter,
    horder⟩ := h.tokens
  simp only [List.filter_append, filter_plain hp hselect.plain, filter_plain hp hfrom.plain,
    filter_plain hp hnames.plain, hjoins.filter_eq hp, hfilter.filter_eq hp, horder.filter_eq hp,
    Clauses.all, List.flatMap_cons, List.reduceOption_append, List.flatMap_append, List.nil_append]
  cases cl.filter <;> cases cl.order <;> simp

end Filter

theorem Behind.readable {keywords : List String} {text : Option String} {clause : Option Tokens}
    (h : Behind keywords text clause ts) (hts : Readable ts) : ∀ c ∈ clause, Readable c := by
  rintro c rfl
  obtain ⟨-, ks, -, rfl⟩ := h
  exact hts.of_append_right

theorem nonempty_eq_ok {fault : QueryFault} {stop : Tokens → Bool}
    (h : nonempty fault stop ts = .ok (text, rest)) :
    ∃ body, ts = body ++ rest ∧ text = Token.join body := by
  unfold nonempty clause at h
  obtain ⟨⟨joined, more⟩, hclause, hrest⟩ := bind_eq_ok h
  obtain ⟨⟨body, last⟩, hs, heq⟩ := map_eq_ok hclause
  obtain ⟨rfl, rfl⟩ := Prod.mk.inj heq
  dsimp only at hrest
  split at hrest
  · simp at hrest
  · obtain ⟨rfl, rfl⟩ := Prod.mk.inj (Except.ok.inj hrest)
    exact ⟨body, (append_of_splitClause hs).symm, rfl⟩

theorem areKeywords_expect {keyword : String} (h : expect keyword ts = .ok rest) :
    ∃ ks, ts = ks ++ rest ∧ AreKeywords [keyword] ks := by
  obtain ⟨t, rfl, ht⟩ := expect_eq_ok h
  exact ⟨[t], rfl, .cons ht .nil⟩

theorem behind_of_condition {stop : Tokens → Bool} {keyword : String} {c : Option String}
    (h : (if startsWith keyword ts then (condition stop ts.tail).map fun r => (some r.1, r.2)
      else .ok (none, ts)) = .ok (c, rest)) :
    ∃ clause behind, ts = behind ++ rest ∧ Behind [keyword] c clause behind := by
  split at h
  · rename_i hk
    obtain ⟨⟨text, last⟩, hcondition, hlast⟩ := map_eq_ok h
    obtain ⟨rfl, rfl⟩ := Prod.mk.inj hlast
    cases ts with
    | nil => simp [startsWith] at hk
    | cons t more =>
      obtain ⟨body, hmore, rfl⟩ := nonempty_eq_ok hcondition
      exact ⟨some body, t :: body, by rw [List.cons_append, ← hmore, List.tail_cons], rfl, [t],
        .cons hk .nil, rfl⟩
  · obtain ⟨rfl, rfl⟩ := Prod.mk.inj (Except.ok.inj h)
    exact ⟨none, [], rfl, rfl, rfl⟩

theorem behind_of_orderClause {order : Option String} (h : orderClause ts = .ok (order, rest)) :
    ∃ clause behind, ts = behind ++ rest ∧ Behind ["ORDER", "BY"] order clause behind := by
  rw [orderClause] at h
  split at h
  · rename_i horder
    obtain ⟨⟨text, last⟩, hcondition, hlast⟩ := map_eq_ok h
    obtain ⟨rfl, rfl⟩ := Prod.mk.inj hlast
    unfold startsOrder at horder
    split at horder
    · rename_i t u more
      obtain ⟨ht, hu⟩ := Bool.and_eq_true_iff.mp horder
      obtain ⟨body, hmore, rfl⟩ := nonempty_eq_ok hcondition
      exact ⟨some body, t :: u :: body, by
        rw [List.cons_append, List.cons_append, ← hmore]
        rfl, rfl, [t, u], .cons ht (.cons hu .nil), rfl⟩
    · simp at horder
  · obtain ⟨rfl, rfl⟩ := Prod.mk.inj (Except.ok.inj h)
    exact ⟨none, [], rfl, rfl, rfl⟩

theorem isKeyword_of_startsLeftJoin {t : Token} (h : startsLeftJoin (t :: ts) = true) :
    t.isKeyword "LEFT" = true := by
  unfold startsLeftJoin at h
  split at h
  · rename_i heq
    obtain rfl := (List.cons.inj heq).1
    exact (Bool.and_eq_true_iff.mp h).1
  · simp at h

theorem areKeywords_joinKind {kind : JoinKind} (h : joinKind ts = .ok (some (kind, rest))) :
    ∃ start, ts = start ++ rest ∧ ∃ keywords ∈ kind.spellings, AreKeywords keywords start := by
  unfold joinKind at h
  split at h
  · simp at h
  rename_i t tail
  split at h
  · rename_i hinner
    obtain ⟨more, hmore, heq⟩ := map_eq_ok h
    obtain ⟨rfl, rfl⟩ : JoinKind.inner = kind ∧ more = rest := by simpa using heq
    obtain ⟨ks, rfl, hks⟩ := areKeywords_expect hmore
    exact ⟨t :: ks, rfl, ["INNER", "JOIN"], by simp [JoinKind.spellings], .cons hinner hks⟩
  split at h
  · rename_i hleftJoin
    obtain ⟨more, hmore, heq⟩ := map_eq_ok h
    obtain ⟨rfl, rfl⟩ : JoinKind.left = kind ∧ more = rest := by simpa using heq
    obtain ⟨ks, hu, hks⟩ := areKeywords_expect hmore
    have hleft := isKeyword_of_startsLeftJoin hleftJoin
    split at hu
    · rename_i houter
      cases tail with
      | nil => simp [startsWith] at houter
      | cons v tail =>
        rw [List.tail_cons] at hu
        exact ⟨t :: v :: ks, by rw [hu]; rfl, ["LEFT", "OUTER", "JOIN"],
          by simp [JoinKind.spellings], .cons hleft (.cons houter hks)⟩
    · exact ⟨t :: ks, by rw [hu]; rfl, ["LEFT", "JOIN"], by simp [JoinKind.spellings],
        .cons hleft hks⟩
  split at h
  · rename_i hjoin
    obtain ⟨rfl, rfl⟩ : JoinKind.inner = kind ∧ tail = rest := by simpa using h
    exact ⟨[t], rfl, ["JOIN"], by simp [JoinKind.spellings], .cons hjoin .nil⟩
  · simp at h

def JoinHead.names (head : JoinHead) : List String :=
  (match head.target with
    | .inl className => [className]
    | .inr a => [a.source, ".", a.name]) ++ [head.aliasName]

theorem text_of_isMark {t : Token} {mark : String} (h : t.isMark mark = true) : t.text = mark := by
  rw [Token.isMark, decide_eq_true_eq] at h
  exact h.2

theorem names_joinHead {head : JoinHead} (h : joinHead ts = .ok (head, rest)) :
    ∃ names, ts = names ++ rest ∧ names.map Token.text = head.names ∧ ∀ t ∈ names, IsPlain t := by
  cases headRead_of_joinHead h with
  | @association t u v a _ ht hdot hv ha =>
    refine ⟨[t, u, v, a], rfl, by simp [JoinHead.names, text_of_isMark hdot], ?_⟩
    simp [IsPlain, ht, hdot, hv, kind_of_isAlias ha]
  | @className t a _ ht _ ha => exact ⟨[t, a], rfl, rfl, by simp [IsPlain, ht, kind_of_isAlias ha]⟩

theorem behind_of_joinCondition {target : String ⊕ AssociationRef} {c : Option String}
    (h : joinCondition target ts = .ok (c, rest)) : ∃ clause behind, ts = behind ++ rest ∧
      Behind [if target.getRight?.isSome then "WITH" else "ON"] c clause behind ∧
      (target.getRight? = none → clause.isSome) := by
  cases target with
  | inl className =>
    obtain ⟨more, hon, hmore⟩ := bind_eq_ok h
    obtain ⟨ks, rfl, hks⟩ := areKeywords_expect hon
    obtain ⟨⟨text, last⟩, hcondition, hlast⟩ := bind_eq_ok hmore
    obtain ⟨rfl, rfl⟩ := Prod.mk.inj (Except.ok.inj hlast)
    obtain ⟨body, rfl, rfl⟩ := nonempty_eq_ok hcondition
    exact ⟨some body, ks ++ body, by rw [List.append_assoc], ⟨rfl, ks, hks, rfl⟩, fun _ => rfl⟩
  | inr a =>
    obtain ⟨clause, behind, hts, hbehind⟩ := behind_of_condition h
    exact ⟨clause, behind, hts, hbehind, by simp⟩

def introduced (joins : List Join) : List (String × String) :=
  joins.map fun j => (j.aliasName, j.className)

inductive Rooted : List String → List Join → Prop
  | nil {aliases : List String} : Rooted aliases []
  | cons {aliases : List String} {j : Join} {js : List Join} :
      (∀ a ∈ j.association, a.source ∈ aliases) → Rooted (aliases ++ [j.aliasName]) js →
      Rooted aliases (j :: js)

theorem post_resolve_source (aliases : OrderedMap String String) (ts : Tokens)
    (target : String ⊕ AssociationRef) (r : Schema.Registry) :
    (resolve aliases ts target).Post (fun className _ => (∀ c, target = .inl c → className = c) ∧
      ∀ a ∈ target.getRight?, a.source ∈ aliases.keys) (fun _ _ => True) r := by
  have hsource : (resolve aliases ts target).Post
      (fun _ _ => ∀ a ∈ target.getRight?, a.source ∈ aliases.keys) (fun _ _ => True) r := by
    cases target with
    | inl className => simp [resolve]
    | inr a =>
      simp only [resolve]
      cases ha : aliases.get? a.source with
      | none => trivial
      | some source =>
        have hmem : a.source ∈ aliases.keys :=
          (aliases.get?_isSome_iff a.source).mp (by rw [ha, Option.isSome_some])
        exact Action.post_bind _ _ |>.mpr <| Action.post_of_forall _ (fun m t => by
          split
          · simpa using hmem
          · trivial) fun _ _ => trivial
  exact ((post_resolve aliases ts target r).and hsource).mono (fun _ _ h => ⟨h.1.2.1, h.2⟩)
    fun _ _ _ => trivial

theorem JoinsRead.lie {aliases aliases' : OrderedMap String String} {joins : List Join}
    {r t : Schema.Registry} (h : JoinsRead aliases ts r joins aliases' rest t) :
    (∃ conditions us, ts = us ++ rest ∧ JoinsLie joins conditions us) ∧
      aliases'.toList = aliases.toList ++ introduced joins ∧ Rooted aliases.keys joins := by
  induction h with
  | done => exact ⟨⟨[], [], rfl, .nil⟩, (List.append_nil _).symm, .nil⟩
  | @join aliases _ _ start afterHead mid rest r s t kind head className c joins
      hk hh hs hc hfree _ ih =>
    obtain ⟨keywords, rfl, hkeywords⟩ := areKeywords_joinKind hk
    obtain ⟨names, rfl, hnames, hplain⟩ := names_joinHead hh
    obtain ⟨hclass, hsource⟩ := (post_resolve_source aliases _ head.target r).of_run_ok hs
    obtain ⟨⟨conditions, us, rfl, hlie⟩, haliases, hrooted⟩ := ih
    obtain ⟨clause, behind, rfl, hbehind, hexplicit⟩ := behind_of_joinCondition hc
    -- the alias is new, so it stands behind those from before
    have hkeys : (aliases.insert head.aliasName className).keys = aliases.keys ++ [head.aliasName] := by
      rw [OrderedMap.keys, OrderedMap.toList_insert_of_not_contains hfree, List.map_append]
      rfl
    refine ⟨⟨clause :: conditions, keywords ++ names ++ behind ++ us, by simp, .cons ⟨?_, hexplicit⟩ hlie⟩,
      ?_, .cons hsource (hkeys ▸ hrooted)⟩
    · refine ⟨keywords, names, behind, rfl, hkeywords, ?_, hplain, hbehind⟩
      rw [hnames]
      obtain ⟨target, aliasName⟩ := head
      cases target with
      | inl name =>
        obtain rfl := hclass name rfl
        rfl
      | inr a => rfl
    · rw [haliases, OrderedMap.toList_insert_of_not_contains hfree, List.append_assoc]
      rfl

structure Introduces (q : ObjectQuery) : Prop where
  aliases : q.aliases.toList = (q.aliasName.toList.map fun a => (a, q.root)) ++ introduced q.joins
  rooted : Rooted q.aliasName.toList q.joins

/-- The aliases of a query, in the order of its text. -/
def aliasNames (q : ObjectQuery) : List String := q.aliasName.toList ++ q.joins.map Join.aliasName

theorem Introduces.keys_eq {q : ObjectQuery} (h : q.Introduces) : q.aliases.keys = q.aliasNames := by
  rw [OrderedMap.keys, h.aliases, aliasNames, introduced, List.map_append, List.map_map, List.map_map]
  simp [Function.comp_def]

theorem Introduces.nodup {q : ObjectQuery} (h : q.Introduces) : q.aliasNames.Nodup :=
  h.keys_eq ▸ q.aliases.keys_nodup

theorem Introduces.nodup_joins {q : ObjectQuery} (h : q.Introduces) :
    (q.joins.map Join.aliasName).Nodup := (List.nodup_append.mp h.nodup).2.1

theorem toList_ofList_option {α β : Type} [DecidableEq α] (k : Option α) (v : β) :
    (OrderedMap.ofList (k.toList.map fun k => (k, v))).toList = k.toList.map fun k => (k, v) := by
  cases k <;> rfl

theorem areNames_rootAlias {aliasName : Option String} (h : rootAlias ts = (aliasName, rest)) :
    ∃ names, ts = names ++ rest ∧ AreNames aliasName.toList names := by
  unfold rootAlias at h
  split at h
  · rename_i t more
    split at h
    · rename_i ha
      obtain ⟨rfl, rfl⟩ := Prod.mk.inj h
      exact ⟨[t], rfl, .cons ⟨kind_of_isAlias ha, rfl⟩ .nil⟩
    · obtain ⟨rfl, rfl⟩ := Prod.mk.inj h
      exact ⟨[], rfl, .nil⟩
  · obtain ⟨rfl, rfl⟩ := Prod.mk.inj h
    exact ⟨[], rfl, .nil⟩

theorem keys_ofList_option {α β : Type} [DecidableEq α] (k : Option α) (v : β) :
    (OrderedMap.ofList (k.toList.map fun k => (k, v))).keys = k.toList := by
  rw [OrderedMap.keys, toList_ofList_option, List.map_map]
  simp [Function.comp_def]

/-- A query that was read lies in its tokens. -/
theorem QueryRead.laid {q : ObjectQuery} {r t : Schema.Registry} (h : QueryRead ts r q t) :
    (∃ cl, Laid ts q cl) ∧ q.Introduces := by
  obtain ⟨hselect, hprojection, hfrom, hroot, halias, hjoins, hfilter, horder⟩ := h
  obtain ⟨select, rfl, hselect'⟩ := areKeywords_expect hselect
  obtain ⟨body, rfl, rfl⟩ := nonempty_eq_ok hprojection
  obtain ⟨from', rfl, hfrom'⟩ := areKeywords_expect hfrom
  obtain ⟨n, rfl, hn, rfl⟩ := expectName_eq_ok hroot
  obtain ⟨names, rfl, hnames⟩ := areNames_rootAlias halias
  obtain ⟨⟨conditions, us, rfl, hlie⟩, haliases, hrooted⟩ := hjoins.lie
  obtain ⟨filterTokens, fs, rfl, hfs⟩ := behind_of_condition hfilter
  obtain ⟨orderTokens, os, rfl, hos⟩ := behind_of_orderClause horder
  rw [toList_ofList_option] at haliases
  rw [keys_ofList_option] at hrooted
  refine ⟨⟨⟨body, conditions, filterTokens, orderTokens⟩, rfl, select, from', n :: names, us, fs, os,
    ?_, hselect', hfrom', .cons ⟨hn, rfl⟩ hnames, hlie, hfs, hos⟩, haliases, hrooted⟩
  simp

/-- A text that was read, with its tokens and the clauses in them. -/
structure Source (source : String) (q : ObjectQuery) (ts : Tokens) (cl : Clauses) : Prop where
  tokens : Token.tokenize (Text.trim source) = .ok ts
  laid : Laid ts q cl
  introduces : q.Introduces

theorem exists_source {source : String} {q : ObjectQuery} {r r' : Schema.Registry}
    (h : (parse source).run r = (.ok q, r')) : ∃ ts cl, Source source q ts cl := by
  obtain ⟨-, ts, hts, hread⟩ := exists_read h
  obtain ⟨⟨cl, hlaid⟩, hintroduces⟩ := hread.laid
  exact ⟨ts, cl, hts, hlaid, hintroduces⟩

end ObjectQuery
end Persistence
