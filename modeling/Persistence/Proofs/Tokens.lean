import Mathlib.Data.List.Basic
import Persistence.ObjectQuery.Token

/-!
Reading tokens back. Where a token ends is seen from the one character that follows it, and a blank
or the end of the text never prolongs one, so tokens that were read from a text are read again from
what is written for them, alone or with other tokens around.
-/

namespace Persistence.Token

variable {c : Char} {cs rest rest' text body : List Char} {kind : Kind} {p : Char → Bool}

def Delimits (rest rest' : List Char) : Prop :=
  rest'.head? = rest.head? ∨ ∀ c ∈ rest'.head?, isSpace c = true

theorem isSpace_iff : isSpace c = true ↔ c = ' ' ∨ c = '\t' ∨ c = '\n' ∨ c = '\r' ∨ c = '\x0c' := by
  simp [isSpace, or_assoc]

theorem Delimits.head (h : Delimits rest rest') (hp : ∀ c, isSpace c = true → p c = false)
    (hrest : ∀ c ∈ rest.head?, p c = false) : ∀ c ∈ rest'.head?, p c = false := by
  intro c hc
  rcases h with h | h
  · exact hrest c (h ▸ hc)
  · exact hp c (h c hc)

theorem takeWhile_append (hbody : ∀ c ∈ body, p c = true) (hrest : ∀ c ∈ rest.head?, p c = false) :
    (body ++ rest).takeWhile p = body ∧ (body ++ rest).dropWhile p = rest := by
  rw [List.takeWhile_append_of_pos hbody, List.dropWhile_append_of_pos hbody]
  cases rest with
  | nil => simp
  | cons d rest => simp [hrest d rfl]

theorem head?_dropWhile (p : Char → Bool) (cs : List Char) :
    ∀ c ∈ (cs.dropWhile p).head?, p c = false := by
  intro c hc
  have hnot := List.head?_dropWhile_not p cs
  rw [hc] at hnot
  exact hnot

theorem closing_again {quote : Char} (hq : isSpace quote = false)
    (h : closing quote cs = some (body, rest)) : cs = body ++ rest ∧
      ∀ rest', Delimits rest rest' → closing quote (body ++ rest') = some (body, rest') := by
  have hspace : ∀ c, isSpace c = true → (c == quote) = false := by
    rintro c hc
    rw [beq_eq_false_iff_ne]
    rintro rfl
    simp [hc] at hq
  have closed {rest rest' : List Char} (hd : Delimits rest rest')
      (hrest : ∀ c ∈ rest.head?, (c == quote) = false) :
      closing quote (quote :: rest') = some ([quote], rest') := by
    have hhead := hd.head hspace hrest
    cases rest' with
    | nil => simp [closing]
    | cons d rest' =>
      have hne : d ≠ quote := by simpa using hhead d rfl
      simp [closing, hne]
  fun_induction closing quote cs generalizing body with
  | case1 => simp at h
  | case2 =>
    obtain ⟨rfl, rfl⟩ := Prod.mk.inj (Option.some.inj h)
    exact ⟨rfl, fun _ hd => closed hd (by simp)⟩
  | case3 => simp at h
  | case4 tail ih =>
    obtain ⟨⟨b, r⟩, hr, he⟩ := Option.map_eq_some_iff.mp h
    obtain ⟨rfl, rfl⟩ := Prod.mk.inj he
    obtain ⟨rfl, hagain⟩ := ih hr
    refine ⟨rfl, fun rest' hd => ?_⟩
    simp [closing, hagain rest' hd]
  | case5 d tail hne =>
    obtain ⟨rfl, rfl⟩ := Prod.mk.inj (Option.some.inj h)
    exact ⟨rfl, fun _ hd => closed hd (by simpa using hne)⟩
  | case6 c d tail hne ih =>
    obtain ⟨⟨b, r⟩, hr, he⟩ := Option.map_eq_some_iff.mp h
    obtain ⟨rfl, rfl⟩ := Prod.mk.inj he
    obtain ⟨htail, hagain⟩ := ih hr
    refine ⟨by rw [htail, List.cons_append], fun rest' hd => ?_⟩
    cases b with
    | nil =>
      have hnil := hagain [] (.inr (by simp))
      simp [closing] at hnil
    | cons e b =>
      have hrest := hagain rest' hd
      rw [List.cons_append] at hrest
      simp only [List.cons_append, closing, hne, if_false, hrest, Option.map_some]

def prolongs (c d : Char) : Bool := (c == ':' && isWordStart d) || pairs.contains (c, d)

theorem prolongs_space (c d : Char) (hd : isSpace d = true) : prolongs c d = false := by
  have hstart : isWordStart d = false := by
    rcases isSpace_iff.mp hd with rfl | rfl | rfl | rfl | rfl <;> decide
  rcases isSpace_iff.mp hd with rfl | rfl | rfl | rfl | rfl <;> simp [prolongs, pairs, hstart]

theorem prolongs_eq_false_iff {c d : Char} :
    prolongs c d = false ↔ ¬ (c = ':' ∧ isWordStart d) ∧ (c, d) ∉ pairs := by
  simp [prolongs]

def written (kind : Kind) (text : List Char) : List Char :=
  if kind = .parameter then ':' :: text else text

/-- A token that is written as `c` and `body` and ends in front of `rest`. -/
inductive Lexeme (c : Char) : List Char → Kind → List Char → List Char → Prop
  | word {body rest : List Char} : isWordStart c = true → (∀ d ∈ body, isWordChar d = true) →
      (∀ d ∈ rest.head?, isWordChar d = false) → Lexeme c body .word (c :: body) rest
  | number {body rest : List Char} : isWordStart c = false → c.isDigit = true →
      (∀ d ∈ body, isNumberChar d = true) → (∀ d ∈ rest.head?, isNumberChar d = false) →
      Lexeme c body .number (c :: body) rest
  | string {body rest : List Char} : isQuote c = true → closing c (body ++ rest) = some (body, rest) →
      Lexeme c body .string (c :: body) rest
  | parameter {d : Char} {body rest : List Char} : c = ':' → isWordStart d = true →
      (∀ e ∈ body, isWordChar e = true) → (∀ e ∈ rest.head?, isWordChar e = false) →
      Lexeme c (d :: body) .parameter (d :: body) rest
  | pair {d : Char} {rest : List Char} : (c, d) ∈ pairs → Lexeme c [d] .mark [c, d] rest
  | mark {rest : List Char} : isWordStart c = false → c.isDigit = false → isQuote c = false →
      (∀ d ∈ rest.head?, prolongs c d = false) → Lexeme c [] .mark [c] rest

theorem of_isQuote (h : isQuote c = true) :
    isSpace c = false ∧ isWordStart c = false ∧ c.isDigit = false := by
  simp only [isQuote, Bool.or_eq_true, beq_iff_eq] at h
  rcases h with rfl | rfl <;> decide

/-- All that can be read where a text starts with `c`. -/
theorem lexeme_of_next (h : next c cs = some (kind, text, rest)) :
    ∃ body, cs = body ++ rest ∧ Lexeme c body kind text rest := by
  have hall {p : Char → Bool} {cs : List Char} : ∀ d ∈ cs.takeWhile p, p d = true :=
    List.all_eq_true.mp List.all_takeWhile
  unfold next at h
  split at h
  · rename_i hc
    obtain ⟨rfl, rfl, rfl⟩ : kind = .word ∧ text = _ ∧ rest = _ := by simpa [eq_comm] using h
    exact ⟨_, List.takeWhile_append_dropWhile.symm, .word hc hall (head?_dropWhile _ _)⟩
  rename_i hw
  split at h
  · rename_i hc
    obtain ⟨rfl, rfl, rfl⟩ : kind = .number ∧ text = _ ∧ rest = _ := by simpa [eq_comm] using h
    exact ⟨_, List.takeWhile_append_dropWhile.symm,
      .number (by simpa using hw) hc hall (head?_dropWhile _ _)⟩
  rename_i hn
  split at h
  · rename_i hq
    obtain ⟨⟨body, r⟩, hclosing, he⟩ := Option.map_eq_some_iff.mp h
    obtain ⟨rfl, rfl, rfl⟩ : kind = .string ∧ text = c :: body ∧ rest = r := by
      simpa [eq_comm] using he
    obtain ⟨rfl, -⟩ := closing_again (of_isQuote hq).1 hclosing
    exact ⟨body, rfl, .string hq hclosing⟩
  rename_i hq
  have hsingle {rest : List Char} : (∀ d ∈ rest.head?, prolongs c d = false) →
      Lexeme c [] .mark [c] rest := .mark (by simpa using hw) (by simpa using hn) (by simpa using hq)
  split at h
  · obtain ⟨rfl, rfl, rfl⟩ : kind = .mark ∧ text = [c] ∧ rest = [] := by simpa [eq_comm] using h
    exact ⟨[], rfl, hsingle (by simp)⟩
  rename_i d tail
  split at h
  · rename_i hc
    obtain ⟨rfl, rfl, rfl⟩ : kind = .parameter ∧ text = _ ∧ rest = _ := by simpa [eq_comm] using h
    refine ⟨d :: tail.takeWhile isWordChar, ?_, .parameter hc.1 hc.2 hall (head?_dropWhile _ _)⟩
    rw [List.cons_append, List.takeWhile_append_dropWhile]
  rename_i hp
  split at h
  · rename_i hc
    obtain ⟨rfl, rfl, rfl⟩ : kind = .mark ∧ text = [c, d] ∧ rest = tail := by
      simpa [eq_comm] using h
    exact ⟨[d], rfl, .pair hc⟩
  · rename_i hc
    obtain ⟨rfl, rfl, rfl⟩ : kind = .mark ∧ text = [c] ∧ rest = d :: tail := by
      simpa [eq_comm] using h
    refine ⟨[], rfl, hsingle fun e he => ?_⟩
    obtain rfl : d = e := Option.some.inj he
    exact prolongs_eq_false_iff.mpr ⟨hp, hc⟩

namespace Lexeme

theorem next_eq (h : Lexeme c body kind text rest) :
    next c (body ++ rest) = some (kind, text, rest) := by
  cases h with
  | word hc hbody hrest =>
    obtain ⟨htake, hdrop⟩ := takeWhile_append hbody hrest
    rw [next.eq_def, if_pos hc, htake, hdrop]
  | number hw hc hbody hrest =>
    obtain ⟨htake, hdrop⟩ := takeWhile_append hbody hrest
    rw [next.eq_def, if_neg (by simp [hw]), if_pos hc, htake, hdrop]
  | string hc hclosing =>
    obtain ⟨-, hw, hn⟩ := of_isQuote hc
    rw [next.eq_def, if_neg (by simp [hw]), if_neg (by simp [hn]), if_pos hc, hclosing]
    rfl
  | parameter hc hd hbody hrest =>
    obtain ⟨htake, hdrop⟩ := takeWhile_append hbody hrest
    subst hc
    simp only [next.eq_def, List.cons_append, htake, hdrop, hd]
    rfl
  | @pair d _ hpair =>
    have hnone : ∀ q ∈ pairs, isWordStart q.1 = false ∧ q.1.isDigit = false ∧
        isQuote q.1 = false ∧ isWordStart q.2 = false := by decide
    obtain ⟨hw, hn, hq, hd⟩ := hnone (c, d) hpair
    simp [next.eq_def, hw, hn, hq, hd, hpair]
  | mark hw hn hq hrest =>
    rw [next.eq_def, if_neg (by simp [hw]), if_neg (by simp [hn]), if_neg (by simp [hq])]
    cases rest with
    | nil => rfl
    | cons d rest =>
      obtain ⟨hname, hpair⟩ := prolongs_eq_false_iff.mp (hrest d rfl)
      simp only [List.nil_append, if_neg hname, if_neg hpair]

theorem written_eq (h : Lexeme c body kind text rest) : written kind text = c :: body := by
  cases h with
  | parameter hc => rw [written, if_pos rfl, hc]
  | _ => rfl

theorem delimits (h : Lexeme c body kind text rest) (hd : Delimits rest rest') :
    Lexeme c body kind text rest' := by
  have hword : ∀ c, isSpace c = true → isWordChar c = false := by
    simp only [isSpace_iff]
    rintro c (rfl | rfl | rfl | rfl | rfl) <;> decide
  have hnumber : ∀ c, isSpace c = true → isNumberChar c = false := by
    simp only [isSpace_iff]
    rintro c (rfl | rfl | rfl | rfl | rfl) <;> decide
  cases h with
  | word hc hbody hrest => exact .word hc hbody (hd.head hword hrest)
  | number hw hc hbody hrest => exact .number hw hc hbody (hd.head hnumber hrest)
  | string hc hclosing =>
    exact .string hc ((closing_again (of_isQuote hc).1 hclosing).2 rest' hd)
  | parameter hc hd' hbody hrest => exact .parameter hc hd' hbody (hd.head hword hrest)
  | pair hpair => exact .pair hpair
  | mark hw hn hq hrest => exact .mark hw hn hq (hd.head (prolongs_space c) hrest)

end Lexeme

variable {t u : Token} {ts us : List Token} {spaced : Bool}

def Reads (t : Token) (rest : List Char) : Prop := ∃ c cs, t.source.toList = c :: cs ∧
  isSpace c = false ∧ next c (cs ++ rest) = some (t.kind, t.text.toList, rest)

theorem toList_source (t : Token) : t.source.toList = written t.kind t.text.toList := by
  unfold source written
  split
  · rw [String.toList_append]
    rfl
  · rfl

theorem Reads.source_ne_nil (h : t.Reads rest) : t.source.toList ≠ [] := by
  obtain ⟨c, cs, hsource, -⟩ := h
  simp [hsource]

theorem reads_of_next (spaced : Bool) (hc : isSpace c = false) (h : next c cs = some (kind, text, rest)) :
    (⟨kind, String.ofList text, spaced⟩ : Token).Reads rest ∧
      c :: cs = (⟨kind, String.ofList text, spaced⟩ : Token).source.toList ++ rest := by
  obtain ⟨body, rfl, hlexeme⟩ := lexeme_of_next h
  have hsource : (⟨kind, String.ofList text, spaced⟩ : Token).source.toList = c :: body := by
    rw [toList_source, String.toList_ofList, hlexeme.written_eq]
  refine ⟨⟨c, body, hsource, hc, ?_⟩, by rw [hsource, List.cons_append]⟩
  rw [String.toList_ofList]
  exact h

theorem Reads.delimits (h : t.Reads rest) (hd : Delimits rest rest') : t.Reads rest' := by
  obtain ⟨c, cs, hsource, hc, hnext⟩ := h
  obtain ⟨body, hbody, hlexeme⟩ := lexeme_of_next hnext
  obtain rfl : cs = body := List.append_cancel_right hbody
  exact ⟨c, cs, hsource, hc, (hlexeme.delimits hd).next_eq⟩

def isWord (s : String) : Bool :=
  match s.toList with
  | [] => false
  | c :: cs => isWordStart c && cs.all isWordChar

theorem Lexeme.isWord (h : Lexeme c body kind text rest) (hk : kind = .word ∨ kind = .parameter) :
    isWord (String.ofList text) = true := by
  have hcons {c : Char} {body : List Char} (hc : isWordStart c = true)
      (hbody : ∀ d ∈ body, isWordChar d = true) :
      Token.isWord (String.ofList (c :: body)) = true := by
    simpa [Token.isWord, hc] using hbody
  cases h with
  | word hc hbody _ => exact hcons hc hbody
  | parameter _ hd hbody _ => exact hcons hd hbody
  | _ => simp at hk

theorem Reads.isWord (h : t.Reads rest) (hk : t.kind = .word ∨ t.kind = .parameter) :
    isWord t.text = true := by
  obtain ⟨c, cs, -, -, hnext⟩ := h
  obtain ⟨body, -, hlexeme⟩ := lexeme_of_next hnext
  simpa using hlexeme.isWord hk

theorem reads_of_isWord {s : String} (h : isWord s = true) (spaced : Bool)
    (hrest : ∀ d ∈ rest.head?, isWordChar d = false) : (⟨.word, s, spaced⟩ : Token).Reads rest := by
  obtain ⟨c, cs, hs⟩ : ∃ c cs, s.toList = c :: cs := by
    refine List.exists_cons_of_ne_nil fun hnil => ?_
    simp [isWord, hnil] at h
  obtain ⟨hc, hcs⟩ : isWordStart c = true ∧ ∀ d ∈ cs, isWordChar d = true := by
    simpa [isWord, hs] using h
  refine ⟨c, cs, by rw [toList_source, written, if_neg (by simp), hs], ?_, ?_⟩
  · rw [Bool.eq_false_iff]
    intro hspace
    rcases isSpace_iff.mp hspace with rfl | rfl | rfl | rfl | rfl <;> exact absurd hc (by decide)
  · rw [hs]
    exact (Lexeme.word hc hcs hrest).next_eq

theorem reads_dot (spaced : Bool) (rest : List Char) : (⟨.mark, ".", spaced⟩ : Token).Reads rest := by
  have hmark : Lexeme '.' [] .mark ['.'] rest :=
    .mark (by decide) (by decide) (by decide) (by simp [prolongs, pairs])
  exact ⟨'.', [], by simp [source], by decide, by simpa using hmark.next_eq⟩

def chars (ts : List Token) : List Char := ts.flatMap fun t => t.gap.toList ++ t.source.toList

def Readable : List Token → Prop
  | [] => True
  | t :: ts => t.Reads (chars ts) ∧ Readable ts

theorem toList_join (ts : List Token) : (join ts).toList = chars (unspaceHead ts) := by
  rw [join, String.toList_join, List.flatMap_map, chars]
  simp only [String.toList_append]

theorem chars_cons (t : Token) (ts : List Token) :
    chars (t :: ts) = t.gap.toList ++ (t.source.toList ++ chars ts) := by
  rw [chars, List.flatMap_cons, List.append_assoc, ← chars]

theorem chars_append (ts us : List Token) : chars (ts ++ us) = chars ts ++ chars us :=
  List.flatMap_append

theorem scan_space (hc : isSpace c = true) : scan spaced (c :: cs) = scan true cs := by
  rw [scan, if_pos hc]

theorem scan_token (hc : isSpace c = false) (h : next c cs = some (kind, text, rest)) :
    scan spaced (c :: cs) = (scan false rest).map fun ts => ⟨kind, String.ofList text, spaced⟩ :: ts := by
  rw [scan, if_neg (by simp [hc])]
  split
  · rename_i h'
    simp [h] at h'
  · rename_i h'
    rw [h] at h'
    obtain ⟨rfl, rfl, rfl⟩ : kind = _ ∧ text = _ ∧ rest = _ := by simpa using h'
    cases scan false rest <;> rfl

def spaceHead (spaced : Bool) : List Token → List Token
  | [] => []
  | t :: ts => { t with spaced := spaced || t.spaced } :: ts

/-- What is written for readable tokens is read as these tokens. -/
theorem scan_chars (h : Readable ts) (spaced : Bool) :
    scan spaced (chars ts) = .ok (spaceHead spaced ts) := by
  induction ts generalizing spaced with
  | nil => simp [chars, scan, spaceHead]
  | cons t ts ih =>
    obtain ⟨⟨c, cs, hsource, hc, hnext⟩, hts⟩ := h
    have hrest : scan false (chars ts) = .ok ts := by
      rw [ih hts]
      cases ts <;> rfl
    have htoken (spaced : Bool) : scan spaced (t.source.toList ++ chars ts) =
        .ok ({ t with spaced := spaced } :: ts) := by
      rw [hsource, List.cons_append, scan_token hc hnext, hrest, String.ofList_toList]
      rfl
    rw [chars_cons, gap, spaceHead]
    cases t.spaced with
    | true =>
      rw [if_pos rfl, Bool.or_true, ← htoken]
      exact scan_space (by decide)
    | false =>
      rw [if_neg (by simp), Bool.or_false, ← htoken]
      rfl

theorem Readable.unspaceHead (h : Readable ts) : Readable (unspaceHead ts) := by
  cases ts with
  | nil => trivial
  | cons t ts => exact h

theorem tokenize_join (h : Readable ts) : tokenize (join ts) = .ok (Token.unspaceHead ts) := by
  rw [tokenize, toList_join, scan_chars h.unspaceHead]
  cases ts <;> rfl

theorem readable_of_scan (h : scan spaced cs = .ok ts) : Readable ts ∧ Delimits cs (chars ts) ∧
    (spaced = true → ∀ c ∈ (chars ts).head?, isSpace c = true) := by
  fun_induction scan spaced cs generalizing ts with
  | case1 =>
    obtain rfl := Except.ok.inj h
    exact ⟨trivial, .inl rfl, by simp [chars]⟩
  | case2 spaced c cs hc ih =>
    obtain ⟨hts, -, hhead⟩ := ih h
    exact ⟨hts, .inr (hhead rfl), fun _ => hhead rfl⟩
  | case3 => simp at h
  | case4 spaced c cs hc kind text rest hnext us hus ih =>
    obtain rfl := Except.ok.inj h
    obtain ⟨hus, hd, -⟩ := ih hus
    obtain ⟨hreads, hsource⟩ := reads_of_next spaced (by simpa using hc) hnext
    refine ⟨⟨hreads.delimits hd, hus⟩, ?_⟩
    obtain ⟨d, body, hbody, -⟩ := hreads
    rw [hbody, List.cons_append] at hsource
    obtain rfl := (List.cons.inj hsource).1
    rw [chars_cons, gap, hbody]
    cases spaced with
    | true => exact ⟨.inr (by simp [isSpace]), fun _ => by simp [isSpace]⟩
    | false => exact ⟨.inl (by simp), by simp⟩
  | case5 => simp at h

theorem getLast?_chars (h : scan spaced cs = .ok ts) (hc : isSpace c = false)
    (hlast : cs.getLast? = some c) : (chars ts).getLast? = some c := by
  fun_induction scan spaced cs generalizing ts with
  | case1 => simp at hlast
  | case2 spaced d cs hd ih =>
    refine ih h ?_
    cases cs with
    | nil =>
      obtain rfl : d = c := by simpa using hlast
      simp [hc] at hd
    | cons => simpa using hlast
  | case3 => simp at h
  | case4 spaced d cs hd kind text rest hnext us hus ih =>
    obtain rfl := Except.ok.inj h
    obtain ⟨hreads, hsource⟩ := reads_of_next spaced (by simpa using hd) hnext
    rw [hsource] at hlast
    rw [chars_cons, List.getLast?_append_of_ne_nil _ (by simp [hreads.source_ne_nil])]
    cases rest with
    | nil =>
      obtain rfl : us = [] := by simpa [scan, eq_comm] using hus
      simpa [chars] using hlast
    | cons e rest =>
      rw [List.getLast?_append_of_ne_nil _ (by simp)] at hlast
      have hus := ih hus hlast
      rw [List.getLast?_append_of_ne_nil _ fun hnil => by simp [hnil] at hus]
      exact hus
  | case5 => simp at h

theorem head?_chars_cons (h : t.Reads rest) (ts : List Token) :
    (chars (t :: ts)).head? = (t.gap.toList ++ t.source.toList).head? := by
  rw [chars_cons, ← List.append_assoc, List.head?_append_of_ne_nil]
  simp [h.source_ne_nil]

theorem Readable.of_append_right (h : Readable (ts ++ us)) : Readable us := by
  induction ts with
  | nil => exact h
  | cons t ts ih => exact ih h.2

theorem Readable.of_append_left (h : Readable (ts ++ us)) : Readable ts := by
  induction ts with
  | nil => trivial
  | cons t ts ih =>
    refine ⟨h.1.delimits ?_, ih h.2⟩
    cases ts with
    | nil => exact .inr (by simp [chars])
    | cons u ts =>
      exact .inl ((head?_chars_cons h.2.1 ts).trans (head?_chars_cons h.2.1 _).symm)

theorem Readable.spaceHead (h : Readable ts) (spaced : Bool) : Readable (spaceHead spaced ts) := by
  cases ts with
  | nil => trivial
  | cons t ts => exact h

theorem Readable.append (hts : Readable ts) (hus : Readable us) :
    Readable (ts ++ Token.spaceHead true us) := by
  induction ts with
  | nil => exact hus.spaceHead true
  | cons t ts ih =>
    refine ⟨hts.1.delimits ?_, ih hts.2⟩
    cases ts with
    | nil =>
      cases us with
      | nil => exact .inr (by simp [chars, Token.spaceHead])
      | cons u us => exact .inr (by simp [chars, Token.spaceHead, gap, isSpace])
    | cons u ts =>
      exact .inl ((head?_chars_cons hts.2.1 _).trans (head?_chars_cons hts.2.1 ts).symm)

end Persistence.Token
