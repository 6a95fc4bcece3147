import Persistence.ObjectQuery.Reading
import Persistence.Proofs.Tokens

/-!
Clauses read again. A clause ends where a keyword stands outside of parentheses, and whether it does
is seen from two tokens, so a clause that was read from a query is read again wherever its tokens
are followed by nothing, or by a keyword that ends it.
-/

namespace Persistence

namespace Token

variable {t : Token} {ts us : List Token} {ps qs : List (List Token)} {rest : List Char}

def word (s : String) : Token := ⟨.word, s, true⟩

structure IsPiece (ts : List Token) : Prop where
  ne_nil : ts ≠ []
  readable : Readable ts

theorem isPiece_word {s : String} (h : isWord s = true) : IsPiece [word s] :=
  ⟨by simp, reads_of_isWord h true (by simp [chars]), trivial⟩

theorem IsPiece.append (hts : IsPiece ts) (hus : IsPiece us) : IsPiece (ts ++ spaceHead true us) :=
  ⟨by simp [hts.ne_nil], hts.readable.append hus.readable⟩

def assemble (ps : List (List Token)) : List Token := ps.flatMap (spaceHead true)

theorem assemble_cons (p : List Token) (ps : List (List Token)) :
    assemble (p :: ps) = spaceHead true p ++ assemble ps := List.flatMap_cons

theorem assemble_append (ps qs : List (List Token)) :
    assemble (ps ++ qs) = assemble ps ++ assemble qs := List.flatMap_append

theorem join_spaceHead (ts : List Token) : join (spaceHead true ts) = join ts := by
  cases ts <;> rfl

theorem spaceHead_assemble (h : ∀ p ∈ ps, IsPiece p) : spaceHead true (assemble ps) = assemble ps := by
  cases ps with
  | nil => rfl
  | cons p ps =>
    obtain ⟨t, ts, rfl⟩ := List.exists_cons_of_ne_nil (h p List.mem_cons_self).ne_nil
    simp [assemble_cons, spaceHead]

theorem readable_assemble (h : ∀ p ∈ ps, IsPiece p) : Readable (assemble ps) := by
  induction ps with
  | nil => trivial
  | cons p ps ih =>
    obtain ⟨hp, hps⟩ := List.forall_mem_cons.mp h
    rw [assemble_cons, ← spaceHead_assemble hps]
    exact (hp.readable.spaceHead true).append (ih hps)

theorem chars_spaceHead (h : ts ≠ []) : chars (spaceHead true ts) = ' ' :: (join ts).toList := by
  obtain ⟨t, ts, rfl⟩ := List.exists_cons_of_ne_nil h
  rw [toList_join, unspaceHead, spaceHead, chars_cons, chars_cons]
  change " ".toList ++ (t.source.toList ++ chars ts) = ' ' :: ("".toList ++ (t.source.toList ++ chars ts))
  rfl

theorem toList_join_append (h : ts ≠ []) (us : List Token) :
    (join (spaceHead true ts ++ us)).toList = (join ts).toList ++ chars us := by
  obtain ⟨t, ts, rfl⟩ := List.exists_cons_of_ne_nil h
  rw [toList_join, toList_join, ← chars_append]
  rfl

theorem join_assemble (h : ∀ p ∈ ps, IsPiece p) :
    join (assemble ps) = " ".intercalate (ps.map join) := by
  induction ps with
  | nil => rfl
  | cons p ps ih =>
    obtain ⟨hp, hps⟩ := List.forall_mem_cons.mp h
    cases ps with
    | nil =>
      refine String.toList_injective ?_
      rw [assemble_cons, toList_join_append hp.ne_nil]
      simp [assemble, chars]
    | cons q ps =>
      have hne : assemble (q :: ps) ≠ [] := by
        obtain ⟨t, ts, rfl⟩ := List.exists_cons_of_ne_nil (hps q List.mem_cons_self).ne_nil
        simp [assemble_cons, spaceHead]
      refine String.toList_injective ?_
      rw [List.map_cons, List.map_cons, String.intercalate_cons_cons, ← List.map_cons, ← ih hps,
        assemble_cons, toList_join_append hp.ne_nil, ← spaceHead_assemble hps, chars_spaceHead hne,
        spaceHead_assemble hps]
      simp

def lastChar (ts : List Token) : Option Char := (chars ts).getLast?

theorem lastChar_append (ts us : List Token) : lastChar (ts ++ us) = (lastChar us).or (lastChar ts) := by
  rw [lastChar, chars_append, List.getLast?_append]
  rfl

theorem isSome_lastChar (h : IsPiece ts) : (lastChar ts).isSome := by
  obtain ⟨t, ts, rfl⟩ := List.exists_cons_of_ne_nil h.ne_nil
  obtain ⟨c, cs, hsource, -⟩ := h.readable.1
  simp [lastChar, chars_cons, hsource]

theorem lastChar_cons {t u : Token} (h : Readable (t :: ts)) (hu : u.source = t.source) :
    lastChar (u :: ts) = lastChar (t :: ts) := by
  have hne : t.source.toList ++ chars ts ≠ [] := by simp [h.1.source_ne_nil]
  rw [lastChar, lastChar, chars_cons, chars_cons, hu, List.getLast?_append_of_ne_nil _ hne,
    List.getLast?_append_of_ne_nil _ hne]

theorem lastChar_spaceHead (h : Readable ts) : lastChar (spaceHead true ts) = lastChar ts := by
  cases ts with
  | nil => rfl
  | cons t ts => exact lastChar_cons h rfl

theorem lastChar_unspaceHead (h : Readable ts) : lastChar (unspaceHead ts) = lastChar ts := by
  cases ts with
  | nil => rfl
  | cons t ts => exact lastChar_cons h rfl

end Token

namespace ObjectQuery

open Token (word spaceHead IsPiece Readable lastChar)

variable {stop : Tokens → Bool} {ts body rest rest' start : Tokens} {text : String} {depth : Nat}

def Follows (ts : Tokens) : Prop :=
  ∀ t ∈ ts.head?, ∀ keyword ∈ ["JOIN", "OUTER", "BY", "WITH"], t.isKeyword keyword = false

structure Lookahead (stop : Tokens → Bool) : Prop where
  spaced : ∀ t spaced ts, stop ({ t with spaced := spaced } :: ts) = stop (t :: ts)
  two : ∀ t u ts ts', stop (t :: u :: ts) = stop (t :: u :: ts')
  one : ∀ t ts ts', Follows ts → stop (t :: ts) = true → stop (t :: ts') = true

theorem lookahead_never : Lookahead fun _ => false where
  spaced _ _ _ := rfl
  two _ _ _ _ := rfl
  one _ _ _ _ := id

theorem lookahead_startsWith (keyword : String) : Lookahead (startsWith keyword) where
  spaced _ _ _ := rfl
  two _ _ _ _ := rfl
  one _ _ _ _ := id

theorem lookahead_startsLeftJoin : Lookahead startsLeftJoin where
  spaced t _ ts := by cases ts <;> rfl
  two _ _ _ _ := rfl
  one t ts ts' hts h := by
    cases ts with
    | nil => simp [startsLeftJoin] at h
    | cons u ts =>
      have hjoin := hts u rfl "JOIN" (by simp)
      have houter := hts u rfl "OUTER" (by simp)
      simp [startsLeftJoin, hjoin, houter] at h

theorem lookahead_startsOrder : Lookahead startsOrder where
  spaced t _ ts := by cases ts <;> rfl
  two _ _ _ _ := rfl
  one t ts ts' hts h := by
    cases ts with
    | nil => simp [startsOrder] at h
    | cons u ts =>
      have hby := hts u rfl "BY" (by simp)
      simp [startsOrder, hby] at h

theorem Lookahead.or {stop' : Tokens → Bool} (h : Lookahead stop) (h' : Lookahead stop') :
    Lookahead fun ts => stop ts || stop' ts where
  spaced t spaced ts := by rw [h.spaced, h'.spaced]
  two t u ts ts' := by rw [h.two t u ts ts', h'.two t u ts ts']
  one t ts ts' hts hor := by
    rcases Bool.or_eq_true_iff.mp hor with hstop | hstop
    · rw [h.one t ts ts' hts hstop, Bool.true_or]
    · rw [h'.one t ts ts' hts hstop, Bool.or_true]

theorem lookahead_startsClause : Lookahead startsClause :=
  (((lookahead_startsWith "INNER").or (lookahead_startsWith "JOIN")).or
    (lookahead_startsWith "WHERE")).or lookahead_startsLeftJoin |>.or lookahead_startsOrder

structure Ends (stop : Tokens → Bool) (rest : Tokens) : Prop where
  follows : Follows rest
  stops : rest = [] ∨ stop rest = true

theorem ends_nil (stop : Tokens → Bool) : Ends stop [] := ⟨by simp [Follows], .inl rfl⟩

theorem Ends.splitClause (h : Ends stop rest) (start : Tokens) :
    splitClause stop start 0 rest = .ok ([], rest) := by
  cases rest with
  | nil => rfl
  | cons t ts => rw [ObjectQuery.splitClause, if_pos ⟨rfl, by simpa using h.stops⟩]

def depthAfter (depth : Nat) (t : Token) : Option Nat :=
  if t.isMark "(" then some (depth + 1)
  else if t.isMark ")" then (if depth = 0 then none else some (depth - 1))
  else some depth

theorem splitClause_cons_eq_ok {t : Token} :
    splitClause stop start depth (t :: ts) = .ok (body, rest) ↔
      (depth = 0 ∧ stop (t :: ts) = true) ∧ body = [] ∧ rest = t :: ts ∨
      ¬ (depth = 0 ∧ stop (t :: ts) = true) ∧ ∃ d b, depthAfter depth t = some d ∧
        splitClause stop start d ts = .ok (b, rest) ∧ body = t :: b := by
  rw [splitClause]
  split
  · rename_i hends
    simp [hends, eq_comm]
  · rename_i hgoes
    simp only [hgoes, not_false_eq_true, true_and, false_and, false_or]
    rw [← depthAfter]
    cases depthAfter depth t with
    | none => simp
    | some d =>
      cases hs : splitClause stop start d ts with
      | error e => simp [hs, Except.map]
      | ok r => simp [hs, Except.map, Prod.ext_iff, eq_comm, and_comm]

theorem splitClause_again (hstop : Lookahead stop) (h : splitClause stop start depth ts = .ok (body, rest))
    (hrest' : Ends stop rest') (start' : Tokens) :
    splitClause stop start' depth (body ++ rest') = .ok (body, rest') := by
  induction ts generalizing depth body with
  | nil =>
    cases depth with
    | zero =>
      obtain ⟨rfl, rfl⟩ := Prod.mk.inj (Except.ok.inj h)
      exact hrest'.splitClause start'
    | succ => simp [splitClause] at h
  | cons t tail ih =>
    obtain ⟨⟨rfl, -⟩, rfl, -⟩ | ⟨hgoes, d, b, hd, hb, rfl⟩ := splitClause_cons_eq_ok.mp h
    · exact hrest'.splitClause start'
    · refine splitClause_cons_eq_ok.mpr (.inr ⟨?_, d, b, hd, ih hb, rfl⟩)
      rintro ⟨hdepth, hstops⟩
      refine hgoes ⟨hdepth, ?_⟩
      rw [← append_of_splitClause hb]
      cases b with
      | nil => exact hstop.one t rest' rest hrest'.follows hstops
      | cons u b =>
        rw [List.cons_append, hstop.two t u _ (b ++ rest')]
        exact hstops

theorem splitClause_spaceHead (hstop : Lookahead stop)
    (h : splitClause stop start depth (body ++ rest) = .ok (body, rest)) :
    splitClause stop start depth (spaceHead true body ++ rest) = .ok (spaceHead true body, rest) := by
  cases body with
  | nil => exact h
  | cons t body =>
    obtain ⟨-, hnil, -⟩ | ⟨hgoes, d, b, hd, hb, hbody⟩ := splitClause_cons_eq_ok.mp h
    · simp at hnil
    · obtain rfl := (List.cons.inj hbody).2
      refine splitClause_cons_eq_ok.mpr (.inr ⟨?_, d, body, hd, hb, rfl⟩)
      rwa [hstop.spaced]

theorem nonempty_again {fault : QueryFault} (hstop : Lookahead stop)
    (h : nonempty fault stop ts = .ok (text, rest)) (hts : Readable ts) :
    ∃ body, IsPiece body ∧ Token.join body = text ∧ body ++ rest = ts ∧ ∀ rest', Ends stop rest' →
      nonempty fault stop (spaceHead true body ++ rest') = .ok (text, rest') := by
  unfold nonempty clause at h
  cases hs : splitClause stop ts 0 ts with
  | error e => simp [hs, Except.map, bind, Except.bind] at h
  | ok r =>
    obtain ⟨body, more⟩ := r
    simp only [hs, Except.map, bind, Except.bind] at h
    split at h
    · simp at h
    · rename_i hne
      obtain ⟨rfl, rfl⟩ := Prod.mk.inj (Except.ok.inj h)
      have happend := append_of_splitClause hs
      have hbody : IsPiece body := by
        refine ⟨?_, (happend ▸ hts).of_append_left⟩
        rintro rfl
        exact hne rfl
      refine ⟨body, hbody, rfl, happend, fun rest' hrest' => ?_⟩
      have hagain := splitClause_spaceHead hstop (splitClause_again hstop hs hrest'
        (spaceHead true body ++ rest'))
      simp only [nonempty, clause, hagain, Except.map, bind, Except.bind, Token.join_spaceHead,
        if_neg hne]
      rfl

end ObjectQuery
end Persistence
