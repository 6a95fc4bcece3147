import Persistence.Proofs.Clauses
import Persistence.Proofs.Postcondition
import Persistence.Proofs.Sample

/-!
Queries printed and read again. The text of a query has its clauses with single blanks between
them; whatever was read is read again from that text.
-/

namespace Persistence

namespace Text

variable {cs : List Char} {s : String}

theorem trimBlanks_prefix (cs : List Char) : trimBlanks cs <+: cs.dropWhile isBlank := by
  rw [trimBlanks, ← List.reverse_suffix, List.reverse_reverse]
  exact List.dropWhile_suffix isBlank

theorem not_isBlank_of_head? {c : Char} (h : c ∈ (trimBlanks cs).head?) : isBlank c = false := by
  have hnot := List.head?_dropWhile_not isBlank cs
  obtain ⟨rest, hrest⟩ := trimBlanks_prefix cs
  rw [← hrest, List.head?_append, h] at hnot
  exact hnot

theorem not_isBlank_of_getLast? {c : Char} (h : c ∈ (trimBlanks cs).getLast?) : isBlank c = false := by
  rw [trimBlanks, List.getLast?_reverse] at h
  have hnot := List.head?_dropWhile_not isBlank (cs.dropWhile isBlank).reverse
  rw [h] at hnot
  exact hnot

theorem dropWhile_eq_self (h : ∀ c ∈ cs.head?, isBlank c = false) : cs.dropWhile isBlank = cs := by
  cases cs with
  | nil => rfl
  | cons c cs => simp [h c rfl]

theorem trim_eq_self (hhead : ∀ c ∈ s.toList.head?, isBlank c = false)
    (hlast : ∀ c ∈ s.toList.getLast?, isBlank c = false) : trim s = s := by
  rw [trim, trimBlanks, dropWhile_eq_self hhead, dropWhile_eq_self (by rwa [List.head?_reverse]),
    List.reverse_reverse, String.ofList_toList]

end Text

namespace ObjectQuery

open Token (IsPiece Readable assemble spaceHead lastChar word isPiece_word)

def Join.target (j : Join) : String :=
  match j.association with
  | some a => a.text
  | none => j.className

def Join.words (j : Join) : List String :=
  [j.kind.sql, j.target, j.aliasName] ++
    j.condition.elim [] fun c => [if j.association.isSome then "WITH" else "ON", c]

def endWords (filter order : Option String) : List String :=
  filter.elim [] (fun c => ["WHERE", c]) ++ order.elim [] fun c => ["ORDER BY", c]

def words (q : ObjectQuery) : List String :=
  ["SELECT", q.projection] ++ (["FROM", q.root] ++ (q.aliasName.toList ++
    (q.joins.flatMap Join.words ++ endWords q.filter q.order)))

/-- The text of a query. -/
def text (q : ObjectQuery) : String := " ".intercalate q.words

variable {ts us rest mid : Tokens} {t : Token} {ps qs : List Tokens} {xs ys : List String}

structure Prints (xs : List String) (ts rest : Tokens) (ps : List Tokens) : Prop where
  pieces : ∀ p ∈ ps, IsPiece p
  texts : ps.map Token.join = xs
  last : lastChar (assemble ps ++ rest) = lastChar ts
  readable : Readable rest

theorem prints_nil (h : Readable ts) : Prints [] ts ts [] := ⟨by simp, rfl, rfl, h⟩

theorem Prints.append (h : Prints xs ts mid ps) (h' : Prints ys mid rest qs) :
    Prints (xs ++ ys) ts rest (ps ++ qs) where
  pieces := List.forall_mem_append.mpr ⟨h.pieces, h'.pieces⟩
  texts := by rw [List.map_append, h.texts, h'.texts]
  last := by
    rw [Token.assemble_append, List.append_assoc, Token.lastChar_append, h'.last,
      ← Token.lastChar_append, h.last]
  readable := h'.readable

theorem prints_piece (h : IsPiece us) (hts : us ++ rest = ts) (hr : Readable rest) :
    Prints [Token.join us] ts rest [us] where
  pieces := by simpa using h
  texts := rfl
  last := by
    rw [Token.assemble_cons, assemble, List.flatMap_nil, List.append_nil, Token.lastChar_append,
      Token.lastChar_spaceHead h.readable, ← Token.lastChar_append, hts]
  readable := hr

theorem Prints.cons (h : Prints xs ts rest ps) (hts : (lastChar ts).isSome) (hk : IsPiece us)
    (before : Tokens) : Prints (Token.join us :: xs) (before ++ ts) rest (us :: ps) where
  pieces := List.forall_mem_cons.mpr ⟨hk, h.pieces⟩
  texts := by rw [List.map_cons, h.texts]
  last := by
    rw [Token.assemble_cons, List.append_assoc, Token.lastChar_append, h.last,
      Option.or_of_isSome hts, Token.lastChar_append, Option.or_of_isSome hts]
  readable := h.readable

theorem map_eq_ok {α β : Type} {f : α → β} {x : Except Error α} {y : β} (h : x.map f = .ok y) :
    ∃ z, x = .ok z ∧ f z = y := by
  cases x with
  | error e => simp [Except.map] at h
  | ok z => exact ⟨z, rfl, Except.ok.inj h⟩

theorem bind_eq_ok {α β : Type} {f : α → Except Error β} {x : Except Error α} {y : β}
    (h : (x >>= f) = .ok y) : ∃ z, x = .ok z ∧ f z = .ok y := by
  cases x with
  | error e => simp [bind, Except.bind] at h
  | ok z => exact ⟨z, rfl, h⟩

theorem expect_eq_ok {keyword : String} (h : expect keyword ts = .ok rest) :
    ∃ t, ts = t :: rest ∧ t.isKeyword keyword = true := by
  unfold expect at h
  split at h
  · split at h
    · rename_i t tail hk
      obtain rfl := Except.ok.inj h
      exact ⟨t, rfl, hk⟩
    · simp at h
  · simp at h

theorem expectName_eq_ok {what : Expectation} {s : String} (h : expectName what ts = .ok (s, rest)) :
    ∃ t, ts = t :: rest ∧ t.kind = .word ∧ t.text = s := by
  unfold expectName at h
  split at h
  · split at h
    · rename_i t tail hk
      obtain ⟨rfl, rfl⟩ := Prod.mk.inj (Except.ok.inj h)
      exact ⟨t, rfl, hk, rfl⟩
    · simp at h
  · simp at h

theorem expectAlias_eq_ok {s : String} (h : expectAlias ts = .ok (s, rest)) :
    ∃ t, ts = t :: rest ∧ isAlias t = true ∧ t.text = s := by
  unfold expectAlias at h
  split at h
  · split at h
    · rename_i t tail hk
      obtain ⟨rfl, rfl⟩ := Prod.mk.inj (Except.ok.inj h)
      exact ⟨t, rfl, hk, rfl⟩
    · simp at h
  · simp at h

theorem join_singleton (hk : t.kind = .word) : Token.join [t] = t.text := by
  simp [Token.join, Token.unspaceHead, Token.gap, Token.source, hk]

theorem prints_word (hk : t.kind = .word) (h : Readable (t :: rest)) :
    Prints [t.text] (t :: rest) rest [[t]] := by
  have hpiece : IsPiece [t] := ⟨by simp, (show Readable ([t] ++ rest) from h).of_append_left⟩
  have hprints := prints_piece hpiece (show [t] ++ rest = t :: rest from rfl) h.2
  rwa [join_singleton hk] at hprints

@[simp] theorem isKeyword_word (s : String) : (word s).isKeyword s = true := by
  simp [Token.isKeyword, word]

theorem expect_word (keyword : String) (ts : Tokens) : expect keyword (word keyword :: ts) = .ok ts := by
  simp [expect]

theorem assemble_clause (keyword : String) (body rest : Tokens) :
    assemble [[word keyword], body] ++ rest = word keyword :: (spaceHead true body ++ rest) := by
  simp [assemble, spaceHead, word]

theorem clause_again {stop : Tokens → Bool} {fault : QueryFault} {text : String} (hstop : Lookahead stop)
    (h : nonempty fault stop ts = .ok (text, rest)) (hts : Readable ts) (hus : IsPiece us)
    (before : Tokens) : ∃ body, Prints [Token.join us, text] (before ++ ts) rest [us, body] ∧
      ∀ rest', Ends stop rest' → nonempty fault stop (spaceHead true body ++ rest') = .ok (text, rest') := by
  obtain ⟨body, hbody, rfl, happend, hagain⟩ := nonempty_again hstop h hts
  have hpiece : IsPiece ts := ⟨by simp [← happend, hbody.ne_nil], hts⟩
  have hprints := (prints_piece hbody happend (happend ▸ hts).of_append_right).cons
    (Token.isSome_lastChar hpiece) hus before
  exact ⟨body, hprints, hagain⟩

@[simp] theorem startsWith_word (keyword : String) (ts : Tokens) :
    startsWith keyword (word keyword :: ts) = true := isKeyword_word keyword

theorem optional_again {stop : Tokens → Bool} {keyword : String} {c : Option String}
    (hstop : Lookahead stop) (hk : Token.isWord keyword = true)
    (h : (if startsWith keyword ts then (condition stop ts.tail).map fun r => (some r.1, r.2)
      else .ok (none, ts)) = .ok (c, rest)) (hts : Readable ts) :
    ∃ ps, Prints (c.elim [] fun c => [keyword, c]) ts rest ps ∧
      (ps = [] ∨ ∃ body, ps = [[word keyword], body]) ∧
      ∀ rest', Ends stop rest' → startsWith keyword rest' = false →
        (if startsWith keyword (assemble ps ++ rest') then
            (condition stop (assemble ps ++ rest').tail).map fun r => (some r.1, r.2)
          else .ok (none, assemble ps ++ rest')) = .ok (c, rest') := by
  split at h
  · obtain ⟨⟨text, last⟩, hcondition, hlast⟩ := map_eq_ok h
    obtain ⟨rfl, rfl⟩ := Prod.mk.inj hlast
    cases ts with
    | nil => simp [startsWith] at *
    | cons t more =>
      obtain ⟨body, hprints, hagain⟩ := clause_again hstop hcondition hts.2 (isPiece_word hk) [t]
      rw [join_singleton rfl] at hprints
      refine ⟨_, hprints, .inr ⟨body, rfl⟩, fun rest' hrest' _ => ?_⟩
      have hcondition' : condition stop (spaceHead true body ++ rest') = .ok (text, rest') :=
        hagain rest' hrest'
      rw [assemble_clause, if_pos (startsWith_word _ _), List.tail_cons, hcondition']
      rfl
  · obtain ⟨rfl, rfl⟩ := Prod.mk.inj (Except.ok.inj h)
    refine ⟨[], prints_nil hts, .inl rfl, fun rest' _ hnot => ?_⟩
    rw [assemble, List.flatMap_nil, List.nil_append, if_neg (by simp [hnot])]

def JoinKind.tokens : JoinKind → Tokens
  | .inner => [word "INNER", word "JOIN"]
  | .left => [word "LEFT", word "JOIN"]

theorem JoinKind.join_tokens (kind : JoinKind) : Token.join kind.tokens = kind.sql := by
  cases kind <;> simp [tokens, sql, Token.join, Token.unspaceHead, Token.gap, Token.source, word,
    String.join]

theorem JoinKind.isPiece_tokens (kind : JoinKind) : IsPiece kind.tokens := by
  cases kind <;> exact (isPiece_word (by decide)).append (isPiece_word (by decide))

theorem JoinKind.ends_tokens (kind : JoinKind) (rest : Tokens) :
    Ends startsClause (assemble [kind.tokens] ++ rest) := by
  cases kind with
  | inner =>
    refine ⟨fun t ht => ?_, .inr rfl⟩
    obtain rfl : word "INNER" = t := Option.some.inj ht
    decide
  | left =>
    refine ⟨fun t ht => ?_, .inr rfl⟩
    obtain rfl : word "LEFT" = t := Option.some.inj ht
    decide

theorem joinKind_again {kind : JoinKind} (h : joinKind ts = .ok (some (kind, rest))) :
    (∃ before, ts = before ++ rest) ∧
      ∀ rest', joinKind (assemble [kind.tokens] ++ rest') = .ok (some (kind, rest')) := by
  refine ⟨?_, fun rest' => ?_⟩
  · unfold joinKind at h
    split at h
    · simp at h
    rename_i t tail
    split at h
    · obtain ⟨more, hmore, heq⟩ := map_eq_ok h
      obtain ⟨rfl, rfl⟩ : JoinKind.inner = kind ∧ more = rest := by simpa using heq
      obtain ⟨u, rfl, -⟩ := expect_eq_ok hmore
      exact ⟨[t, u], rfl⟩
    split at h
    · obtain ⟨more, hmore, heq⟩ := map_eq_ok h
      obtain ⟨rfl, rfl⟩ : JoinKind.left = kind ∧ more = rest := by simpa using heq
      obtain ⟨u, hu, -⟩ := expect_eq_ok hmore
      split at hu
      · cases tail with
        | nil => simp at hu
        | cons v tail => exact ⟨[t, v, u], by simpa using hu⟩
      · exact ⟨[t, u], by rw [hu]; rfl⟩
    split at h
    · obtain ⟨rfl, rfl⟩ : JoinKind.inner = kind ∧ tail = rest := by simpa using h
      exact ⟨[t], rfl⟩
    · simp at h
  · cases kind with
    | inner => rfl
    | left => rfl

def JoinHead.words (head : JoinHead) : List String :=
  [match head.target with
    | .inl className => className
    | .inr a => a.text, head.aliasName]

theorem Join.words_eq {kind : JoinKind} {className : String} {head : JoinHead} {c : Option String}
    (hclass : ∀ name, head.target = .inl name → className = name) :
    Join.words ⟨kind, className, head.aliasName, c, head.target.getRight?⟩ =
      kind.sql :: (head.words ++
        c.elim [] fun c => [if head.target.getRight?.isSome then "WITH" else "ON", c]) := by
  obtain ⟨target, aliasName⟩ := head
  cases target with
  | inl name =>
    obtain rfl := hclass name rfl
    rfl
  | inr a => rfl

theorem joinHead_class {a : Token} (ht : t.kind = .word) (hdot : a.isMark "." = false)
    (ha : isAlias a = true) (rest : Tokens) :
    joinHead (t :: a :: rest) = .ok (⟨.inl t.text, a.text⟩, rest) := by
  simp [joinHead, expectName, expectAlias, ht, hdot, ha, bind, Except.bind, pure, Except.pure]

theorem joinHead_association {u v a : Token} (ht : t.kind = .word) (hdot : u.isMark "." = true)
    (hv : v.kind = .word) (ha : isAlias a = true) (rest : Tokens) :
    joinHead (t :: u :: v :: a :: rest) = .ok (⟨.inr ⟨t.text, v.text⟩, a.text⟩, rest) := by
  simp [joinHead, expectName, expectAlias, ht, hdot, hv, ha, bind, Except.bind, pure, Except.pure]

theorem isAlias_spaced (t : Token) (spaced : Bool) : isAlias { t with spaced := spaced } = isAlias t :=
  congrArg (fun keyword => decide (t.kind = .word ∧ !reserved.any keyword))
    (show ({ t with spaced := spaced } : Token).isKeyword = t.isKeyword from rfl)

theorem kind_of_isAlias (h : isAlias t = true) : t.kind = .word := by
  simp only [isAlias, decide_eq_true_eq] at h
  exact h.1

inductive HeadRead : Tokens → JoinHead → Tokens → Prop
  | association {t u v a : Token} {rest : Tokens} : t.kind = .word → u.isMark "." = true →
      v.kind = .word → isAlias a = true →
      HeadRead (t :: u :: v :: a :: rest) ⟨.inr ⟨t.text, v.text⟩, a.text⟩ rest
  | className {t a : Token} {rest : Tokens} : t.kind = .word → a.isMark "." = false →
      isAlias a = true → HeadRead (t :: a :: rest) ⟨.inl t.text, a.text⟩ rest

theorem headRead_of_joinHead {head : JoinHead} (h : joinHead ts = .ok (head, rest)) :
    HeadRead ts head rest := by
  obtain ⟨⟨first, more⟩, hfirst, hhead⟩ := bind_eq_ok h
  obtain ⟨t, rfl, ht, rfl⟩ := expectName_eq_ok hfirst
  cases more with
  | nil => simp at hhead
  | cons u after =>
    dsimp only at hhead
    split at hhead
    · rename_i hdot
      obtain ⟨⟨name, afterName⟩, hname, hrest⟩ := bind_eq_ok hhead
      obtain ⟨v, rfl, hv, rfl⟩ := expectName_eq_ok hname
      obtain ⟨⟨aliasName, last⟩, halias, hlast⟩ := bind_eq_ok hrest
      obtain ⟨a, rfl, ha, rfl⟩ := expectAlias_eq_ok halias
      obtain ⟨rfl, rfl⟩ := Prod.mk.inj (Except.ok.inj hlast)
      exact .association ht hdot hv ha
    · rename_i hdot
      obtain ⟨⟨aliasName, last⟩, halias, hlast⟩ := bind_eq_ok hhead
      obtain ⟨a, heq, ha, rfl⟩ := expectAlias_eq_ok halias
      obtain ⟨rfl, rfl⟩ := List.cons.inj heq
      obtain ⟨rfl, rfl⟩ := Prod.mk.inj (Except.ok.inj hlast)
      exact .className ht (by simpa using hdot) ha

def dotted (t v : Token) : Tokens := [t, ⟨.mark, ".", false⟩, { v with spaced := false }]

theorem isPiece_dotted {v : Token} {rest rest' : List Char} (ht : t.kind = .word) (hreads : t.Reads rest)
    (hv : v.Reads rest') : IsPiece (dotted t v) := by
  refine ⟨by simp [dotted], ?_, Token.reads_dot .., ?_, trivial⟩
  · have hword := hreads.isWord (.inl ht)
    obtain ⟨kind, s, spaced⟩ := t
    obtain rfl : kind = .word := ht
    exact Token.reads_of_isWord hword spaced (by simp [Token.chars, Token.gap, Token.source, Token.isWordChar])
  · exact hv.delimits (.inr (by simp [Token.chars]))

theorem join_dotted {v : Token} (ht : t.kind = .word) (hv : v.kind = .word) :
    Token.join (dotted t v) = (⟨t.text, v.text⟩ : AssociationRef).text := by
  simp [Token.join, dotted, Token.unspaceHead, Token.gap, Token.source, ht, hv, String.join,
    AssociationRef.text]

theorem joinHead_again {head : JoinHead} (h : joinHead ts = .ok (head, rest)) (hts : Readable ts) :
    ∃ ps, Prints head.words ts rest ps ∧
      ∀ rest', joinHead (assemble ps ++ rest') = .ok (head, rest') := by
  cases headRead_of_joinHead h with
  | @association t u v a _ ht _ hv ha =>
    have hpiece : IsPiece (a :: rest) := ⟨by simp, hts.2.2.2⟩
    have hprints := (prints_word (kind_of_isAlias ha) hpiece.readable).cons
      (Token.isSome_lastChar hpiece) (isPiece_dotted ht hts.1 hts.2.2.1) [t, u, v]
    rw [join_dotted ht hv] at hprints
    have ha' := (isAlias_spaced a true).trans ha
    exact ⟨_, hprints, fun rest' => joinHead_association (t := { t with spaced := true })
      (v := { v with spaced := false }) ht (by decide) hv ha' rest'⟩
  | @className t a _ ht hdot ha =>
    have hprints := (prints_word ht hts).append (prints_word (kind_of_isAlias ha) hts.2)
    have ha' := (isAlias_spaced a true).trans ha
    exact ⟨_, hprints, fun rest' => joinHead_class (t := { t with spaced := true })
      (a := { a with spaced := true }) ht hdot ha' rest'⟩

theorem joinCondition_again {target : String ⊕ AssociationRef} {c : Option String}
    (h : joinCondition target ts = .ok (c, rest)) (hts : Readable ts) :
    ∃ ps, Prints (c.elim [] fun c => [if target.getRight?.isSome then "WITH" else "ON", c]) ts rest ps ∧
      ∀ rest', Ends startsClause rest' → joinCondition target (assemble ps ++ rest') = .ok (c, rest') := by
  cases target with
  | inl className =>
    obtain ⟨more, hon, hmore⟩ := bind_eq_ok h
    obtain ⟨t, rfl, -⟩ := expect_eq_ok hon
    obtain ⟨⟨text, last⟩, hcondition, hlast⟩ := bind_eq_ok hmore
    obtain ⟨rfl, rfl⟩ := Prod.mk.inj (Except.ok.inj hlast)
    obtain ⟨body, hprints, hagain⟩ := clause_again lookahead_startsClause hcondition hts.2
      (isPiece_word (s := "ON") (by decide)) [t]
    rw [join_singleton rfl] at hprints
    refine ⟨_, hprints, fun rest' hrest' => ?_⟩
    have hcondition' : condition startsClause (spaceHead true body ++ rest') = .ok (text, rest') :=
      hagain rest' hrest'
    rw [assemble_clause]
    simp only [joinCondition, expect_word, bind, Except.bind, hcondition', pure, Except.pure]
  | inr a =>
    obtain ⟨ps, hprints, -, hagain⟩ :=
      optional_again lookahead_startsClause (show Token.isWord "WITH" = true by decide) h hts
    refine ⟨ps, hprints, fun rest' hrest' => hagain rest' hrest' ?_⟩
    cases rest' with
    | nil => rfl
    | cons t rest' => exact hrest'.follows t rfl "WITH" (by simp)

theorem post_resolve (aliases : OrderedMap String String) (ts : Tokens)
    (target : String ⊕ AssociationRef) (r : Schema.Registry) :
    (resolve aliases ts target).Post (fun className t => t.view = r.view ∧
      (∀ c, target = .inl c → className = c) ∧
      ∀ us r', r'.view = r.view → ∃ t', (resolve aliases us target).run r' = (.ok className, t') ∧
        t'.view = r.view) (fun _ _ => True) r := by
  cases target with
  | inl className => exact ⟨rfl, fun _ h => Sum.inl.inj h, fun us r' hr' => ⟨r', rfl, hr'⟩⟩
  | inr a =>
    simp only [resolve]
    cases aliases.get? a.source with
    | none => trivial
    | some source =>
      dsimp only
      rw [Action.post_bind, Action.post_iff]
      refine ⟨fun m t ht => ?_, fun _ _ _ => trivial⟩
      have hview : t.view = r.view := by
        rw [← Schema.Registry.view_describe_snd source r]
        exact congrArg Schema.Registry.view (Prod.mk.inj ht).2.symm
      cases hassociation : m.association? a.name with
      | none => trivial
      | some association =>
        refine ⟨hview, by simp, fun us r' hr' => ⟨(Schema.Registry.describe source r').2, ?_, ?_⟩⟩
        · have hrun : (Schema.Registry.describe source).run r' =
              (.ok m, (Schema.Registry.describe source r').2) := by
            refine Prod.ext ?_ rfl
            change (Schema.Registry.describe source r').1 = _
            rw [Schema.Registry.describe_fst, hr', ← Schema.Registry.describe_fst]
            exact (Prod.mk.inj ht).1
          rw [Action.run_bind_of_ok hrun, hassociation]
          rfl
        · rw [Schema.Registry.view_describe_snd, hr']

theorem readJoins_of_none {aliases : OrderedMap String String} (h : joinKind ts = .ok none) :
    readJoins aliases ts = pure ([], aliases, ts) := by
  rw [readJoins]
  split <;> simp_all

theorem readJoins_of_join {aliases : OrderedMap String String} {kind : JoinKind} {head : JoinHead}
    {start afterHead : Tokens} {c : Option String} (hk : joinKind ts = .ok (some (kind, start)))
    (hh : joinHead start = .ok (head, afterHead)) (hc : joinCondition head.target afterHead = .ok (c, rest))
    (hfree : aliases.contains head.aliasName = false) :
    readJoins aliases ts = (do
      let className ← resolve aliases (consumed start afterHead) head.target
      let (joins, aliases, rest) ← readJoins (aliases.insert head.aliasName className) rest
      return (⟨kind, className, head.aliasName, c, head.target.getRight?⟩ :: joins, aliases, rest)) := by
  rw [readJoins]
  split
  · simp_all
  · simp_all
  · rename_i kind' start' hk'
    obtain ⟨rfl, rfl⟩ : kind = kind' ∧ start = start' := by simpa [hk] using hk'
    split
    · simp_all
    · rename_i head' afterHead' hh'
      obtain ⟨rfl, rfl⟩ : head = head' ∧ afterHead = afterHead' := by simpa [hh] using hh'
      refine congrArg (resolve _ _ _ >>= ·) (funext fun className => ?_)
      split
      · simp_all
      · rename_i c' rest' hc'
        obtain ⟨rfl, rfl⟩ : c = c' ∧ rest = rest' := by simpa [hc] using hc'
        rw [if_neg (by simp [hfree])]

inductive JoinsRead : OrderedMap String String → Tokens → Schema.Registry →
    List Join → OrderedMap String String → Tokens → Schema.Registry → Prop
  | done {aliases : OrderedMap String String} {ts : Tokens} {r : Schema.Registry} :
      joinKind ts = .ok none → JoinsRead aliases ts r [] aliases ts r
  | join {aliases aliases' : OrderedMap String String} {ts start afterHead mid rest : Tokens}
      {r s t : Schema.Registry} {kind : JoinKind} {head : JoinHead} {className : String}
      {c : Option String} {joins : List Join} :
      joinKind ts = .ok (some (kind, start)) → joinHead start = .ok (head, afterHead) →
      (resolve aliases (consumed start afterHead) head.target).run r = (.ok className, s) →
      joinCondition head.target afterHead = .ok (c, mid) →
      aliases.contains head.aliasName = false →
      JoinsRead (aliases.insert head.aliasName className) mid s joins aliases' rest t →
      JoinsRead aliases ts r (⟨kind, className, head.aliasName, c, head.target.getRight?⟩ :: joins)
        aliases' rest t

theorem post_readJoins (aliases : OrderedMap String String) (ts : Tokens) (r : Schema.Registry) :
    (readJoins aliases ts).Post (fun x t => JoinsRead aliases ts r x.1 x.2.1 x.2.2 t)
      (fun _ _ => True) r := by
  fun_induction readJoins aliases ts generalizing r with
  | case1 => trivial
  | case2 aliases ts hk => exact .done hk
  | case3 => trivial
  | case4 aliases ts kind start hk head afterHead hh ih =>
    rw [Action.post_bind, Action.post_iff]
    refine ⟨fun className s hs => ?_, fun _ _ _ => trivial⟩
    split
    · trivial
    rename_i c mid hc
    split
    · trivial
    rename_i hfree
    simp only [Action.post_bind, Action.post_pure]
    refine (ih className c mid hc s).mono (fun x u hx => ?_) fun _ _ _ => trivial
    exact .join hk hh hs hc (by simpa using hfree) hx

theorem JoinsRead.run_eq {aliases aliases' : OrderedMap String String} {joins : List Join}
    {r t : Schema.Registry} (h : JoinsRead aliases ts r joins aliases' rest t) :
    (readJoins aliases ts).run r = (.ok (joins, aliases', rest), t) := by
  induction h with
  | done hk =>
    rw [readJoins_of_none hk]
    rfl
  | join hk hh hs hc hfree _ ih =>
    rw [readJoins_of_join hk hh hc hfree, Action.run_bind_of_ok hs, Action.run_bind_of_ok ih]
    rfl

theorem JoinsRead.again {aliases aliases' : OrderedMap String String} {joins : List Join}
    {r t : Schema.Registry} (h : JoinsRead aliases ts r joins aliases' rest t) (hts : Readable ts) :
    t.view = r.view ∧ ∃ ps, Prints (joins.flatMap Join.words) ts rest ps ∧
      ∀ rest', Ends startsClause rest' → joinKind rest' = .ok none →
        Ends startsClause (assemble ps ++ rest') ∧
          ∀ r', r'.view = r.view → ∃ t', (readJoins aliases (assemble ps ++ rest')).run r' =
            (.ok (joins, aliases', rest'), t') ∧ t'.view = r.view := by
  induction h with
  | done hk =>
    refine ⟨rfl, [], prints_nil hts, fun rest' hrest' hnone => ⟨hrest', fun r' hr' => ?_⟩⟩
    rw [assemble, List.flatMap_nil, List.nil_append, readJoins_of_none hnone]
    exact ⟨r', rfl, hr'⟩
  | @join aliases aliases' _ start afterHead mid rest r s t kind head className c joins
      hk hh hs hc hfree _ ih =>
    obtain ⟨⟨before, rfl⟩, hkind⟩ := joinKind_again hk
    have hstart := hts.of_append_right
    obtain ⟨hs', hhead, hheadAgain⟩ := joinHead_again hh hstart
    obtain ⟨hview, hclass, hresolve⟩ := (post_resolve aliases _ head.target r).of_run_ok hs
    obtain ⟨cs, hcondition, hconditionAgain⟩ := joinCondition_again hc hhead.readable
    obtain ⟨hview', ms, hmore, hmoreAgain⟩ := ih hcondition.readable
    have hpiece : IsPiece start := ⟨fun hnil => by simpa [hnil] using length_joinHead hh, hstart⟩
    refine ⟨hview'.trans hview, kind.tokens :: (hs' ++ (cs ++ ms)), ?_, fun rest' hrest' hnone => ?_⟩
    · have hprints := (hhead.append (hcondition.append hmore)).cons (Token.isSome_lastChar hpiece)
        kind.isPiece_tokens before
      rw [kind.join_tokens] at hprints
      rw [List.flatMap_cons, Join.words_eq hclass]
      simpa using hprints
    · obtain ⟨hends, hrun⟩ := hmoreAgain rest' hrest' hnone
      have hassemble : assemble (kind.tokens :: (hs' ++ (cs ++ ms))) ++ rest' =
          assemble [kind.tokens] ++ (assemble hs' ++ (assemble cs ++ (assemble ms ++ rest'))) := by
        simp [assemble]
      rw [hassemble]
      refine ⟨kind.ends_tokens _, fun r' hr' => ?_⟩
      obtain ⟨t', ht', hview₁⟩ := hresolve (consumed _ (assemble cs ++ (assemble ms ++ rest'))) r' hr'
      obtain ⟨u', hu', hview₂⟩ := hrun t' (hview₁.trans hview.symm)
      refine ⟨u', ?_, hview₂.trans hview⟩
      rw [readJoins_of_join (hkind _) (hheadAgain _) (hconditionAgain _ hends) hfree,
        Action.run_bind_of_ok ht', Action.run_bind_of_ok hu']
      rfl

theorem startsOrder_words (ts : Tokens) : startsOrder (word "ORDER" :: word "BY" :: ts) = true := by
  simp [startsOrder]

theorem follows_order (ts : Tokens) : Follows (word "ORDER" :: ts) := by
  intro t ht
  obtain rfl : word "ORDER" = t := Option.some.inj ht
  decide

theorem orderClause_again {order : Option String} (h : orderClause ts = .ok (order, []))
    (hts : Readable ts) : ∃ ps, Prints (order.elim [] fun c => ["ORDER BY", c]) ts [] ps ∧
      (assemble ps = [] ∨ ∃ us, assemble ps = word "ORDER" :: word "BY" :: us) ∧
      orderClause (assemble ps) = .ok (order, []) := by
  rw [orderClause] at h
  split at h
  · rename_i horder
    obtain ⟨⟨text, last⟩, hcondition, hlast⟩ := map_eq_ok h
    obtain ⟨rfl, rfl⟩ := Prod.mk.inj hlast
    obtain ⟨t, u, more, rfl⟩ : ∃ t u more, ts = t :: u :: more := by
      unfold startsOrder at horder
      split at horder
      · exact ⟨_, _, _, rfl⟩
      · simp at horder
    have horder : IsPiece [word "ORDER", word "BY"] :=
      (isPiece_word (by decide)).append (isPiece_word (by decide))
    obtain ⟨body, hprints, hagain⟩ :=
      clause_again lookahead_never hcondition hts.2.2 horder [t, u]
    have hassemble : assemble [[word "ORDER", word "BY"], body] =
        word "ORDER" :: word "BY" :: (spaceHead true body ++ []) := by
      simp [assemble, spaceHead, word]
    refine ⟨_, hprints, .inr ⟨_, hassemble⟩, ?_⟩
    have hcondition' : condition (fun _ => false) (spaceHead true body ++ []) = .ok (text, []) :=
      hagain [] (ends_nil _)
    rw [hassemble, orderClause, if_pos (startsOrder_words _), List.drop_succ_cons, List.drop_succ_cons, List.drop_zero,
      hcondition']
    rfl
  · obtain ⟨rfl, rfl⟩ := Prod.mk.inj (Except.ok.inj h)
    exact ⟨[], prints_nil hts, .inl rfl, rfl⟩

theorem joinKind_of_keyword (h : ∀ keyword ∈ ["INNER", "LEFT", "JOIN"], t.isKeyword keyword = false) :
    joinKind (t :: ts) = .ok none := by
  have hinner := h "INNER" (by simp)
  have hleft := h "LEFT" (by simp)
  have hjoin := h "JOIN" (by simp)
  have hleftJoin : startsLeftJoin (t :: ts) = false := by
    cases ts <;> simp [startsLeftJoin, hleft]
  simp [joinKind, hinner, hleftJoin, hjoin]

theorem ending_again {filter order : Option String} (hfilter : filterClause ts = .ok (filter, mid))
    (horder : orderClause mid = .ok (order, [])) (hts : Readable ts) :
    ∃ ps, Prints (endWords filter order) ts [] ps ∧ Ends startsClause (assemble ps) ∧
      joinKind (assemble ps) = .ok none ∧ ∃ us, filterClause (assemble ps) = .ok (filter, us) ∧
        orderClause us = .ok (order, []) := by
  obtain ⟨fs, hf, hshape, hfAgain⟩ :=
    optional_again lookahead_startsOrder (show Token.isWord "WHERE" = true by decide) hfilter hts
  obtain ⟨os, ho, hoShape, hoAgain⟩ := orderClause_again horder hf.readable
  have hends : Ends startsOrder (assemble os) ∧ startsWith "WHERE" (assemble os) = false := by
    rcases hoShape with hnil | ⟨us, hus⟩
    · rw [hnil]
      exact ⟨ends_nil _, rfl⟩
    · rw [hus]
      exact ⟨⟨follows_order _, .inr (startsOrder_words us)⟩, rfl⟩
  have hnone : Ends startsClause (assemble (fs ++ os)) ∧ joinKind (assemble (fs ++ os)) = .ok none := by
    rw [Token.assemble_append]
    rcases hshape with rfl | ⟨body, rfl⟩
    · rw [show assemble [] = [] from rfl, List.nil_append]
      rcases hoShape with hnil | ⟨us, hus⟩
      · rw [hnil]
        exact ⟨ends_nil _, rfl⟩
      · rw [hus]
        refine ⟨⟨follows_order _, .inr ?_⟩, joinKind_of_keyword (by decide)⟩
        rw [startsClause, startsOrder_words, Bool.or_true]
    · rw [assemble_clause]
      refine ⟨⟨fun t ht => ?_, .inr ?_⟩, joinKind_of_keyword (by decide)⟩
      · obtain rfl : word "WHERE" = t := Option.some.inj ht
        decide
      · rw [startsClause, startsWith_word, Bool.or_true, Bool.true_or, Bool.true_or]
  refine ⟨fs ++ os, hf.append ho, hnone.1, hnone.2, assemble os, ?_, hoAgain⟩
  rw [Token.assemble_append]
  exact hfAgain _ hends.1 hends.2

theorem not_isAlias_of_ends (h : Ends startsClause rest) : ∀ t ∈ rest.head?, isAlias t = false := by
  intro t ht
  obtain ⟨ts, rfl⟩ : ∃ ts, rest = t :: ts := by
    cases rest with
    | nil => simp at ht
    | cons u ts => exact ⟨ts, by rw [Option.some.inj ht]⟩
  obtain ⟨keyword, hmem, hk⟩ : ∃ keyword ∈ reserved, t.isKeyword keyword = true := by
    have hstops := h.stops.resolve_left (by simp)
    simp only [startsClause, Bool.or_eq_true] at hstops
    rcases hstops with (((hk | hk) | hk) | hk) | hk
    · exact ⟨"INNER", by simp [reserved], hk⟩
    · exact ⟨"JOIN", by simp [reserved], hk⟩
    · exact ⟨"WHERE", by simp [reserved], hk⟩
    · cases ts with
      | nil => simp [startsLeftJoin] at hk
      | cons u ts => exact ⟨"LEFT", by simp [reserved], (Bool.and_eq_true_iff.mp hk).1⟩
    · cases ts with
      | nil => simp [startsOrder] at hk
      | cons u ts => exact ⟨"ORDER", by simp [reserved], (Bool.and_eq_true_iff.mp hk).1⟩
  have hany : reserved.any t.isKeyword = true := List.any_eq_true.mpr ⟨keyword, hmem, hk⟩
  simp [isAlias, hany]

theorem rootAlias_again {aliasName : Option String} (h : rootAlias ts = (aliasName, rest))
    (hts : Readable ts) : ∃ ps, Prints aliasName.toList ts rest ps ∧
      ∀ rest', Ends startsClause rest' → rootAlias (assemble ps ++ rest') = (aliasName, rest') := by
  have hnone {rest' : Tokens} (hrest' : Ends startsClause rest') : rootAlias rest' = (none, rest') := by
    cases rest' with
    | nil => rfl
    | cons t rest' => simp [rootAlias, not_isAlias_of_ends hrest' t rfl]
  cases ts with
  | nil =>
    obtain ⟨rfl, rfl⟩ := Prod.mk.inj h
    exact ⟨[], prints_nil hts, fun _ => hnone⟩
  | cons t tail =>
    rw [rootAlias] at h
    split at h
    · rename_i ha
      obtain ⟨rfl, rfl⟩ := Prod.mk.inj h
      refine ⟨[[t]], prints_word (kind_of_isAlias ha) hts, fun rest' _ => ?_⟩
      exact if_pos ((isAlias_spaced t true).trans ha)
    · obtain ⟨rfl, rfl⟩ := Prod.mk.inj h
      exact ⟨[], prints_nil hts, fun _ => hnone⟩

inductive QueryRead (ts : Tokens) (r : Schema.Registry) : ObjectQuery → Schema.Registry → Prop
  | read {ts₁ ts₂ ts₃ ts₄ ts₅ ts₆ ts₇ : Tokens} {projection root : String}
      {aliasName filter order : Option String} {joins : List Join}
      {aliases : OrderedMap String String} {t : Schema.Registry} :
      expect "SELECT" ts = .ok ts₁ →
      nonempty .missingProjection (startsWith "FROM") ts₁ = .ok (projection, ts₂) →
      expect "FROM" ts₂ = .ok ts₃ → expectName .entityName ts₃ = .ok (root, ts₄) →
      rootAlias ts₄ = (aliasName, ts₅) →
      JoinsRead (.ofList (aliasName.toList.map fun a => (a, root))) ts₅ r joins aliases ts₆ t →
      filterClause ts₆ = .ok (filter, ts₇) → orderClause ts₇ = .ok (order, []) →
      QueryRead ts r ⟨projection, root, aliasName, joins, filter, order, aliases⟩ t

theorem post_readTokens (ts : Tokens) (r : Schema.Registry) :
    (readTokens ts).Post (QueryRead ts r) (fun _ _ => True) r := by
  simp only [readTokens, Action.post_bind, Action.post_liftExcept]
  refine ⟨fun ts₁ hselect => ⟨?_, fun _ _ => trivial⟩, fun _ _ => trivial⟩
  rintro ⟨projection, ts₂⟩ hprojection
  refine ⟨fun ts₃ hfrom => ⟨?_, fun _ _ => trivial⟩, fun _ _ => trivial⟩
  rintro ⟨root, ts₄⟩ hroot
  rcases halias : rootAlias ts₄ with ⟨aliasName, ts₅⟩
  refine (post_readJoins _ ts₅ r).mono (fun x t hjoins => ?_) fun _ _ _ => trivial
  obtain ⟨joins, aliases, ts₆⟩ := x
  refine ⟨?_, fun _ _ => trivial⟩
  rintro ⟨filter, ts₇⟩ hfilter
  refine ⟨?_, fun _ _ => trivial⟩
  rintro ⟨order, ts₈⟩ horder
  cases ts₈ with
  | cons => trivial
  | nil => exact .read hselect hprojection hfrom hroot halias hjoins hfilter horder

theorem exists_read {source : String} {q : ObjectQuery} {r r' : Schema.Registry}
    (h : (parse source).run r = (.ok q, r')) : (Text.trim source).isEmpty = false ∧
      ∃ ts, Token.tokenize (Text.trim source) = .ok ts ∧ QueryRead ts r q r' := by
  have hparse : (parse source).Post (fun q t => (Text.trim source).isEmpty = false ∧
      ∃ ts, Token.tokenize (Text.trim source) = .ok ts ∧ QueryRead ts r q t)
      (fun _ _ => True) r := by
    simp only [parse, Action.post_ite, Action.post_throw, Action.post_bind, Action.post_liftExcept]
    refine ⟨fun _ => trivial, fun hne => ⟨fun ts hts => ?_, fun _ _ => trivial⟩⟩
    refine (post_readTokens ts r).mono (fun q t hq => ?_) fun _ _ _ => trivial
    exact ⟨by simpa using hne, ts, hts, hq⟩
  exact hparse.of_run_ok h

theorem QueryRead.again {q : ObjectQuery} {r t : Schema.Registry} (h : QueryRead ts r q t)
    (hts : Readable ts) : t.view = r.view ∧ ∃ ps, Prints q.words ts [] ps ∧
      ∀ r', r'.view = r.view → ((readTokens (Token.unspaceHead (assemble ps))).run r').1 = .ok q := by
  obtain ⟨hselect, hprojection, hfrom, hroot, halias, hjoins, hfilter, horder⟩ := h
  obtain ⟨s, rfl, hs⟩ := expect_eq_ok hselect
  obtain ⟨body, hprints₁, hagain₁⟩ := clause_again (lookahead_startsWith "FROM") hprojection hts.2
    (isPiece_word (s := "SELECT") (by decide)) [s]
  obtain ⟨f, rfl, -⟩ := expect_eq_ok hfrom
  obtain ⟨n, rfl, hn, rfl⟩ := expectName_eq_ok hroot
  have hpiece : IsPiece (n :: _) := ⟨by simp, hprints₁.readable.2⟩
  have hprints₂ := (prints_word hn hpiece.readable).cons (Token.isSome_lastChar hpiece)
    (isPiece_word (s := "FROM") (by decide)) [f]
  obtain ⟨as, hprints₃, hagain₃⟩ := rootAlias_again halias hpiece.readable.2
  obtain ⟨hview, js, hprints₄, hagain₄⟩ := hjoins.again hprints₃.readable
  obtain ⟨es, hprints₅, hends, hnone, us, hfilter', horder'⟩ :=
    ending_again hfilter horder hprints₄.readable
  refine ⟨hview, _, hprints₁.append (hprints₂.append (hprints₃.append (hprints₄.append hprints₅))), ?_⟩
  intro r' hr'
  obtain ⟨hclause, hjoins⟩ := hagain₄ _ hends hnone
  obtain ⟨t', ht', -⟩ := hjoins r' hr'
  let rest := assemble as ++ (assemble js ++ assemble es)
  have htokens : Token.unspaceHead (assemble ([[word "SELECT"], body] ++ ([word "FROM"] :: [[n]] ++
      (as ++ (js ++ es))))) = ⟨.word, "SELECT", false⟩ ::
        (spaceHead true body ++ (word "FROM" :: { n with spaced := true } :: rest)) := by
    simp [assemble, spaceHead, word, Token.unspaceHead, rest]
  have hselect' : expect "SELECT" (⟨.word, "SELECT", false⟩ ::
      (spaceHead true body ++ (word "FROM" :: { n with spaced := true } :: rest))) =
        .ok (spaceHead true body ++ (word "FROM" :: { n with spaced := true } :: rest)) := rfl
  have hprojection' := hagain₁ (word "FROM" :: { n with spaced := true } :: rest)
    ⟨fun t ht => by obtain rfl : word "FROM" = t := Option.some.inj ht; decide,
      .inr (startsWith_word _ _)⟩
  have hroot' : expectName .entityName ({ n with spaced := true } :: rest) = .ok (n.text, rest) :=
    if_pos hn
  have halias' : rootAlias rest = (_, assemble js ++ assemble es) := hagain₃ _ hclause
  rw [htokens, readTokens]
  simp only [hselect', hprojection', expect_word, hroot', halias', Action.liftM_ok, pure_bind]
  rw [Action.run_bind_of_ok ht']
  simp only [hfilter', horder', Action.liftM_ok, pure_bind]
  rfl

theorem not_isBlank_of_lastChar {source : String} {c : Char}
    (h : Token.tokenize (Text.trim source) = .ok ts) (hc : c ∈ lastChar ts) : Text.isBlank c = false := by
  rw [Token.tokenize, Text.trim, String.toList_ofList] at h
  cases hlast : (Text.trimBlanks source.toList).getLast? with
  | none =>
    rw [List.getLast?_eq_none_iff.mp hlast, Token.scan] at h
    obtain rfl := Except.ok.inj h
    simp [lastChar, Token.chars] at hc
  | some d =>
    have hblank := Text.not_isBlank_of_getLast? hlast
    have hspace : Token.isSpace d = false := by
      rw [Bool.eq_false_iff]
      intro hspace
      rcases Token.isSpace_iff.mp hspace with rfl | rfl | rfl | rfl | rfl <;>
        exact absurd hblank (by decide)
    have hchar := Token.getLast?_chars h hspace hlast
    obtain rfl := Option.some.inj (hc.symm.trans hchar)
    exact hblank

theorem head?_text (q : ObjectQuery) : q.text.toList.head? = some 'S' := by
  simp [text, words, String.toList_intercalate, List.intercalate]

theorem isEmpty_text (q : ObjectQuery) : q.text.isEmpty = false := by
  rw [Bool.eq_false_iff]
  intro hempty
  have hhead := head?_text q
  rw [String.isEmpty_iff.mp hempty] at hhead
  simp at hhead

theorem Prints.text_eq {q : ObjectQuery} {ps : List Tokens} (h : Prints q.words ts [] ps) :
    q.text = Token.join (assemble ps) := by
  rw [Token.join_assemble h.pieces, h.texts, text]

theorem Prints.trim_text {source : String} {q : ObjectQuery} {ps : List Tokens}
    (h : Prints q.words ts [] ps) (hts : Token.tokenize (Text.trim source) = .ok ts) :
    Text.trim q.text = q.text := by
  refine Text.trim_eq_self (by simp [head?_text, Text.isBlank, Text.blankRanges]) fun c hc => ?_
  rw [h.text_eq, Token.toList_join] at hc
  refine not_isBlank_of_lastChar hts (c := c) ?_
  rw [← h.last, List.append_nil, ← Token.lastChar_unspaceHead (Token.readable_assemble h.pieces)]
  exact hc

/-- What was read from a text is read again from its own text, whatever the registry keeps by then. -/
theorem parse_text {source : String} {q : ObjectQuery} {r r' : Schema.Registry}
    (h : (parse source).run r = (.ok q, r')) :
    ((parse q.text).run r).1 = .ok q ∧ ((parse q.text).run r').1 = .ok q := by
  obtain ⟨-, ts, hts, hread⟩ := exists_read h
  obtain ⟨hview, ps, hprints, hagain⟩ := hread.again (Token.readable_of_scan hts).1
  have hparse (u : Schema.Registry) (hu : u.view = r.view) : ((parse q.text).run u).1 = .ok q := by
    have htokens : Token.tokenize q.text = .ok (Token.unspaceHead (assemble ps)) := by
      rw [hprints.text_eq, Token.tokenize_join (Token.readable_assemble hprints.pieces)]
    rw [parse, hprints.trim_text hts, isEmpty_text, if_neg (by simp), htokens, Action.liftM_ok,
      pure_bind]
    exact hagain u hu
  exact ⟨hparse r rfl, hparse r' hview⟩

theorem parse_ofList {cs : List Char} (h : Text.trimBlanks cs ≠ []) :
    parse (String.ofList cs) = (liftM (Token.scan false (Text.trimBlanks cs)) >>= readTokens) := by
  simp [parse, Text.trim, Token.tokenize, h]

def authorMapping : Schema.Mapping :=
  { Sample.userMapping with
    associations := [⟨"posts", .oneToMany, "Post", some "author", none, false, false, none, none⟩] }

def postMapping : Schema.Mapping where
  isEntity := true
  fields := [{ name := "id", type := .integer, accessor := ⟨⟨"Post", 1⟩, 0⟩, isIdentifier := true }]

def blog : Schema.Registry :=
  (Schema.Registry.empty.register "User" authorMapping).register "Post" postMapping

def untidy : String := "
  select u ,  LEFT( p . title , (1) )
  from User u
    join u . posts p with p.title <> ' where  order by '
    Left Outer Join Post o on ( left(o.id,1) = u.id and (o.id > 2) )
  where u.name = 'a '' left join'
  order  By\tu.name "

def tidied : ObjectQuery where
  projection := "u , LEFT( p . title , (1) )"
  root := "User"
  aliasName := some "u"
  joins :=
    [⟨.inner, "Post", "p", some "p.title <> ' where  order by '", some ⟨"u", "posts"⟩⟩,
     ⟨.left, "Post", "o", some "( left(o.id,1) = u.id and (o.id > 2) )", none⟩]
  filter := some "u.name = 'a '' left join'"
  order := some "u.name"
  aliases := .ofList [("u", "User"), ("p", "Post"), ("o", "Post")]

theorem parse_text_untidy :
    ((parse untidy).run blog).1 = .ok tidied ∧
    tidied.text = "SELECT u , LEFT( p . title , (1) ) FROM User u INNER JOIN u.posts p" ++
      " WITH p.title <> ' where  order by ' LEFT JOIN Post o ON ( left(o.id,1) = u.id and" ++
      " (o.id > 2) ) WHERE u.name = 'a '' left join' ORDER BY u.name" ∧
    ((parse tidied.text).run blog).1 = .ok tidied := by
  have hread : ((parse untidy).run blog).1 = .ok tidied := by
    -- The characters are taken from the literal, as decoding its bytes is slow.
    rw [untidy, parse_ofList (by decide)]
    decide +kernel
  have hrun : (parse untidy).run blog = (.ok tidied, ((parse untidy).run blog).2) := by
    rw [← hread, Prod.eta]
  exact ⟨hread, by decide +kernel, (parse_text hrun).1⟩

end ObjectQuery
end Persistence
