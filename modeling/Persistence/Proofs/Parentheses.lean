import Persistence.Proofs.Placeholders

/-!
Parentheses in clauses. The reader counts them token by token; in the text of a clause that it has
read they are balanced character by character, where those in strings do not count.
-/

namespace Persistence.ObjectQuery

open Token (Readable isQuote)

variable {c quote : Char} {cs rest body : List Char} {o : Option Char} {t : Token} {ts : Tokens}

def outsideFrom (o : Option Char) : List Char → List Char
  | [] => []
  | c :: cs => (if o = none ∧ isQuote c = false then [c] else []) ++ outsideFrom (quoteAfter o c) cs

/-- The strings of the text are closed. Outside of them there are as many closing as opening
parentheses, and nowhere have more been closed than opened. -/
structure Balanced (s : String) : Prop where
  closed : Closed s
  le : ∀ p, p <+: outsideFrom none s.toList → p.count ')' ≤ p.count '('
  eq : (outsideFrom none s.toList).count ')' = (outsideFrom none s.toList).count '('

def parenAfter (depth : Nat) (c : Char) : Option Nat :=
  if c = '(' then some (depth + 1)
  else if c = ')' then (if depth = 0 then none else some (depth - 1))
  else some depth

theorem count_of_parenAfter {depth depth' : Nat} (h : parenAfter depth c = some depth')
    (cs : List Char) : depth + (c :: cs).count '(' + cs.count ')' =
      depth' + (c :: cs).count ')' + cs.count '(' := by
  unfold parenAfter at h
  simp only [List.count_cons, beq_iff_eq]
  split at h
  · rename_i hopens
    obtain rfl := Option.some.inj h
    subst hopens
    simp
    omega
  · split at h
    · rename_i hcloses
      subst hcloses
      split at h
      · simp at h
      · obtain rfl := Option.some.inj h
        simp
        omega
    · obtain rfl := Option.some.inj h
      simp_all
      omega

theorem count_of_foldlM {depth depth' : Nat} (h : cs.foldlM parenAfter depth = some depth') :
    (∀ p, p <+: cs → p.count ')' ≤ depth + p.count '(') ∧
      depth + cs.count '(' = depth' + cs.count ')' := by
  induction cs generalizing depth with
  | nil =>
    obtain rfl : depth = depth' := Option.some.inj h
    exact ⟨fun p hp => by simp [List.prefix_nil.mp hp], rfl⟩
  | cons c cs ih =>
    rw [List.foldlM_cons] at h
    obtain ⟨middle, hmiddle, h⟩ := Option.bind_eq_some_iff.mp h
    obtain ⟨hle, heq⟩ := ih h
    constructor
    · intro p hp
      rcases List.prefix_cons_iff.mp hp with rfl | ⟨front, rfl, hfront⟩
      · simp
      · have hstep := count_of_parenAfter hmiddle front
        have hfront := hle front hfront
        omega
    · have hstep := count_of_parenAfter hmiddle cs
      omega

theorem outsideFrom_append (o : Option Char) (cs ds : List Char) :
    outsideFrom o (cs ++ ds) = outsideFrom o cs ++ outsideFrom (openAfter o cs) ds := by
  induction cs generalizing o with
  | nil => rfl
  | cons c cs ih => simp only [List.cons_append, outsideFrom, ih, openAfter_cons, List.append_assoc]

def IsInert (c : Char) : Prop := isQuote c = false ∧ c ≠ '(' ∧ c ≠ ')'

instance : Decidable (IsInert c) := inferInstanceAs (Decidable (_ ∧ _))

theorem isInert_of {p : Char → Bool} (hp : ['\'', '"', '(', ')'].any p = false) (h : p c = true) :
    IsInert c := by
  rw [List.any_eq_false] at hp
  refine ⟨Bool.eq_false_iff.mpr fun hquote => ?_, ?_, ?_⟩
  · rcases Bool.or_eq_true_iff.mp hquote with hq | hq <;>
    · obtain rfl := eq_of_beq hq
      simp [hp] at h
  · rintro rfl
    simp [hp] at h
  · rintro rfl
    simp [hp] at h

def Deepens (cs : List Char) (depth : Nat) (depth' : Option Nat) : Prop :=
  openAfter none cs = none ∧ (outsideFrom none cs).foldlM parenAfter depth = depth'

theorem deepens_of_forall (h : ∀ c ∈ cs, IsInert c) (depth : Nat) : Deepens cs depth (some depth) := by
  induction cs with
  | nil => exact ⟨rfl, rfl⟩
  | cons c cs ih =>
    obtain ⟨⟨hquote, hopens, hcloses⟩, hcs⟩ := List.forall_mem_cons.mp h
    have hnone : quoteAfter none c = none := by simp [quoteAfter, hquote]
    obtain ⟨hopen, hdepth⟩ := ih hcs
    refine ⟨by rw [openAfter_cons, hnone, hopen], ?_⟩
    rw [outsideFrom, hnone, if_pos ⟨rfl, hquote⟩, List.singleton_append, List.foldlM_cons]
    simpa [parenAfter, hopens, hcloses] using hdepth

theorem outsideFrom_of_closing (hquote : isQuote quote = true)
    (h : Token.closing quote cs = some (body, rest)) : outsideFrom (some quote) body = [] := by
  fun_induction Token.closing quote cs generalizing body with
  | case1 => simp at h
  | case2 =>
    obtain ⟨rfl, rfl⟩ := Prod.mk.inj (Option.some.inj h)
    simp [outsideFrom]
  | case3 => simp at h
  | case4 tail ih =>
    -- the first quote closes the string for a moment, the second one opens it again
    obtain ⟨⟨b, r⟩, hr, he⟩ := Option.map_eq_some_iff.mp h
    obtain ⟨rfl, rfl⟩ := Prod.mk.inj he
    simpa [outsideFrom, quoteAfter, hquote] using ih hr
  | case5 d tail hne =>
    obtain ⟨rfl, rfl⟩ := Prod.mk.inj (Option.some.inj h)
    simp [outsideFrom]
  | case6 c d tail hne ih =>
    obtain ⟨⟨b, r⟩, hr, he⟩ := Option.map_eq_some_iff.mp h
    obtain ⟨rfl, rfl⟩ := Prod.mk.inj he
    simpa [outsideFrom, quoteAfter, hne] using ih hr

theorem deepens_of_next {kind : Token.Kind} {text : List Char}
    (h : Token.next c cs = some (kind, text, rest)) (depth : Nat) :
    Deepens (Token.written kind text) depth
      (if kind = .mark ∧ text = ['('] then some (depth + 1)
        else if kind = .mark ∧ text = [')'] then (if depth = 0 then none else some (depth - 1))
        else some depth) := by
  obtain ⟨body, -, h⟩ := Token.lexeme_of_next h
  have hword {cs : List Char} (hcs : ∀ d ∈ cs, Token.isWordChar d = true) : ∀ d ∈ cs, IsInert d :=
    fun d hd => isInert_of (by decide) (hcs d hd)
  rw [h.written_eq]
  cases h with
  | word hc hbody _ =>
    have hc : IsInert c := isInert_of (p := Token.isWordStart) (by decide) hc
    simpa using deepens_of_forall (List.forall_mem_cons.mpr ⟨hc, hword hbody⟩) depth
  | number _ hc hbody _ =>
    have hnumber : ∀ d ∈ c :: body, IsInert d :=
      List.forall_mem_cons.mpr ⟨isInert_of (by decide) hc, fun d hd =>
        isInert_of (by decide) (hbody d hd)⟩
    simpa using deepens_of_forall hnumber depth
  | string hquote hclosing =>
    have hclosed := (string_of_closing hquote hclosing).1
    have houtside := outsideFrom_of_closing hquote hclosing
    simp [Deepens, quoteAfter, outsideFrom, hquote, hclosed, houtside]
  | @parameter d body _ hc hd hbody _ =>
    have hd : IsInert d := isInert_of (p := Token.isWordStart) (by decide) hd
    have hname : ∀ e ∈ c :: d :: body, IsInert e :=
      List.forall_mem_cons.mpr ⟨hc ▸ by decide, List.forall_mem_cons.mpr ⟨hd, hword hbody⟩⟩
    simpa using deepens_of_forall hname depth
  | @pair d _ hpair =>
    have hinert : IsInert c ∧ IsInert d :=
      (by decide : ∀ p ∈ Token.pairs, IsInert p.1 ∧ IsInert p.2) (c, d) hpair
    have hboth : ∀ e ∈ [c, d], IsInert e := by simp [hinert]
    simpa using deepens_of_forall hboth depth
  | mark _ _ hquote _ => simp [Deepens, quoteAfter, outsideFrom, hquote, parenAfter]

theorem deepens_of_reads {more : List Char} (h : t.Reads more) (depth : Nat) :
    Deepens t.source.toList depth (depthAfter depth t) := by
  obtain ⟨c, cs, -, -, hnext⟩ := h
  have hmark : ∀ s, t.isMark s = true ↔ t.kind = .mark ∧ t.text.toList = s.toList := fun s => by
    rw [Token.isMark, decide_eq_true_eq, String.toList_inj]
  rw [Token.toList_source]
  simpa [depthAfter, hmark] using deepens_of_next hnext depth

theorem deepens_gap (t : Token) (depth : Nat) : Deepens t.gap.toList depth (some depth) := by
  refine deepens_of_forall (fun c hc => ?_) depth
  rw [Token.gap] at hc
  split at hc
  · obtain rfl : c = ' ' := by simpa using hc
    decide
  · simp at hc

theorem deepens_chars (h : Readable ts) (depth : Nat) :
    Deepens (Token.chars ts) depth (ts.foldlM depthAfter depth) := by
  induction ts generalizing depth with
  | nil => exact ⟨rfl, rfl⟩
  | cons t ts ih =>
    obtain ⟨ht, hts⟩ := h
    obtain ⟨hgap, hgapDepth⟩ := deepens_gap t depth
    obtain ⟨hsource, hsourceDepth⟩ := deepens_of_reads ht depth
    constructor
    · rw [Token.chars_cons, openAfter_append, hgap, openAfter_append, hsource]
      exact (ih hts 0).1
    · rw [Token.chars_cons, outsideFrom_append, hgap, outsideFrom_append, hsource, List.foldlM_append,
        hgapDepth, List.foldlM_cons, ← hsourceDepth]
      simp only [Option.bind_eq_bind, Option.bind_some, List.foldlM_append]
      exact Option.bind_congr fun d _ => (ih hts d).2

/-- A clause ends where all its parentheses are closed. -/
theorem foldlM_of_splitClause {stop : Tokens → Bool} {start body rest : Tokens} {depth : Nat}
    (h : splitClause stop start depth ts = .ok (body, rest)) :
    body.foldlM depthAfter depth = some 0 := by
  induction ts generalizing depth body with
  | nil =>
    cases depth with
    | zero =>
      obtain ⟨rfl, rfl⟩ := Prod.mk.inj (Except.ok.inj h)
      rfl
    | succ => simp [splitClause] at h
  | cons t tail ih =>
    obtain ⟨⟨hdepth, -⟩, rfl, -⟩ | ⟨-, d, b, hd, hb, rfl⟩ := splitClause_cons_eq_ok.mp h
    · rw [hdepth]
      rfl
    · rw [List.foldlM_cons, hd]
      exact ih hb

structure IsClause (text : String) : Prop where
  ne_empty : text ≠ ""
  written : ∃ ts, Readable ts ∧ text = Token.join ts ∧ ts.foldlM depthAfter 0 = some 0

theorem isClause_of_nonempty {fault : QueryFault} {stop : Tokens → Bool} {text : String} {rest : Tokens}
    (h : nonempty fault stop ts = .ok (text, rest)) (hts : Readable ts) :
    IsClause text ∧ Readable rest := by
  unfold nonempty clause at h
  obtain ⟨⟨joined, more⟩, hclause, h⟩ := bind_eq_ok h
  obtain ⟨⟨body, last⟩, hs, heq⟩ := map_eq_ok hclause
  obtain ⟨rfl, rfl⟩ := Prod.mk.inj heq
  dsimp only at h
  split at h
  · simp at h
  · rename_i hne
    obtain ⟨rfl, rfl⟩ := Prod.mk.inj (Except.ok.inj h)
    rw [← append_of_splitClause hs] at hts
    have hbody : body.foldlM depthAfter 0 = some 0 := foldlM_of_splitClause hs
    exact ⟨⟨by simpa [String.isEmpty_iff] using hne, body, hts.of_append_left, rfl, hbody⟩,
      hts.of_append_right⟩

theorem IsClause.balanced {text : String} (h : IsClause text) : Balanced text := by
  obtain ⟨ts, hts, rfl, hdepth⟩ := h.written
  have hhead : (Token.unspaceHead ts).foldlM depthAfter 0 = ts.foldlM depthAfter 0 := by cases ts <;> rfl
  obtain ⟨hclosed, hbalanced⟩ := deepens_chars hts.unspaceHead 0
  rw [← Token.toList_join] at hclosed hbalanced
  rw [hhead, hdepth] at hbalanced
  obtain ⟨hle, heq⟩ := count_of_foldlM hbalanced
  exact ⟨hclosed, fun p hp => by simpa using hle p hp, by omega⟩

end Persistence.ObjectQuery
