import Persistence.Proofs.RoundTrip

/-!
Slices of tokenized texts. A text has its tokens in order with nothing but blanks between them, and
any of them that follow one another are read again from what is written for them. So a query can be
read from its tokens as well as from its text.
-/

namespace Persistence

namespace Token

variable {ts us : List Token} {cs gap : List Char} {spaced : Bool} {source : String}

/-- The characters are those of the tokens in order, behind blanks where a token is spaced and only
there. What follows the last token is blank. -/
inductive Spread : List Token → List Char → Prop
  | blank {cs : List Char} : (∀ c ∈ cs, isSpace c = true) → Spread [] cs
  | token {t : Token} {ts : List Token} {gap cs : List Char} :
      (∀ c ∈ gap, isSpace c = true) → (t.spaced = true ↔ gap ≠ []) → Spread ts cs →
      Spread (t :: ts) (gap ++ (t.source.toList ++ cs))

theorem spread_of_scan (h : scan spaced cs = .ok ts) (hgap : ∀ c ∈ gap, isSpace c = true)
    (hspaced : spaced = true ↔ gap ≠ []) : Spread ts (gap ++ cs) := by
  fun_induction scan spaced cs generalizing ts gap with
  | case1 =>
    obtain rfl := Except.ok.inj h
    exact .blank (by simpa using hgap)
  | case2 spaced c cs hc ih =>
    have hgap' : ∀ d ∈ gap ++ [c], isSpace d = true :=
      List.forall_mem_append.mpr ⟨hgap, by simpa using hc⟩
    rw [List.append_cons]
    exact ih h hgap' (by simp)
  | case3 => simp at h
  | case4 spaced c cs hc kind text rest hnext us hus ih =>
    obtain rfl := Except.ok.inj h
    obtain ⟨-, hsource⟩ := reads_of_next spaced (by simpa using hc) hnext
    have hrest : Spread us ([] ++ rest) := ih hus (by simp) (by simp)
    rw [hsource]
    exact .token hgap hspaced hrest
  | case5 => simp at h

theorem spread_of_tokenize (h : tokenize source = .ok ts) : Spread ts source.toList := by
  have hspread : Spread ts ([] ++ source.toList) := spread_of_scan h (by simp) (by simp)
  exact hspread

theorem readable_of_tokenize (h : tokenize source = .ok ts) : Readable ts := (readable_of_scan h).1

theorem tokenize_join_of_append {before after : List Token}
    (h : tokenize source = .ok (before ++ us ++ after)) :
    tokenize (join us) = .ok (unspaceHead us) :=
  tokenize_join (readable_of_tokenize h).of_append_left.of_append_right

theorem isBlank_of_isSpace {c : Char} (h : isSpace c = true) : Text.isBlank c = true := by
  rcases isSpace_iff.mp h with rfl | rfl | rfl | rfl | rfl <;> decide

theorem not_isBlank_of_mem_head? {c : Char} (h : Text.trim source = source)
    (hc : c ∈ source.toList.head?) :
    Text.isBlank c = false := by
  rw [← h, Text.trim, String.toList_ofList] at hc
  exact Text.not_isBlank_of_head? hc

theorem eq_empty_of_spread (h : Spread [] source.toList) (htrim : Text.trim source = source) :
    source = "" := by
  obtain ⟨hblank⟩ := h
  refine String.toList_injective (List.eq_nil_iff_forall_not_mem.mpr fun c hc => ?_)
  obtain ⟨d, cs, hsource⟩ := List.exists_cons_of_ne_nil (List.ne_nil_of_mem hc)
  have hd : Text.isBlank d = false := not_isBlank_of_mem_head? htrim (by rw [hsource]; rfl)
  have hspace : isSpace d = true := hblank d (by simp [hsource])
  simp [isBlank_of_isSpace hspace] at hd

theorem head_of_spread {t : Token} (h : Spread (t :: ts) source.toList)
    (htrim : Text.trim source = source) :
    t.spaced = false ∧ ∃ cs, source.toList = t.source.toList ++ cs := by
  generalize hcs : source.toList = cs at h
  cases h with
  | @token _ _ gap rest hgap hspaced _ =>
    cases gap with
    | nil => exact ⟨by simpa using hspaced, rest, rfl⟩
    | cons d gap =>
      have hd : Text.isBlank d = false := not_isBlank_of_mem_head? htrim (by rw [hcs]; rfl)
      have hspace : isSpace d = true := hgap d List.mem_cons_self
      simp [isBlank_of_isSpace hspace] at hd

theorem unspaceHead_of_trim (htrim : Text.trim source = source) (h : tokenize source = .ok ts) :
    unspaceHead ts = ts := by
  cases ts with
  | nil => rfl
  | cons t ts => rw [unspaceHead, ← (head_of_spread (spread_of_tokenize h) htrim).1]

theorem toList_join_of_trim (htrim : Text.trim source = source) (h : tokenize source = .ok ts) :
    (join ts).toList = chars ts := by
  rw [toList_join, unspaceHead_of_trim htrim h]

theorem head?_join (htrim : Text.trim source = source) (h : tokenize source = .ok ts) :
    (join ts).toList.head? = source.toList.head? := by
  rw [toList_join_of_trim htrim h]
  cases ts with
  | nil =>
    rw [eq_empty_of_spread (spread_of_tokenize h) htrim]
    rfl
  | cons t ts =>
    obtain ⟨hspaced, cs, hcs⟩ := head_of_spread (spread_of_tokenize h) htrim
    obtain ⟨c, body, hbody, -⟩ := (readable_of_tokenize h).1
    rw [chars_cons, gap, hspaced, hcs, hbody]
    rfl

theorem trim_join (htrim : Text.trim source = source) (h : tokenize source = .ok ts) :
    Text.trim (join ts) = join ts := by
  refine Text.trim_eq_self (fun c hc => ?_) fun c hc => ?_
  · rw [head?_join htrim h] at hc
    exact not_isBlank_of_mem_head? htrim hc
  · rw [toList_join_of_trim htrim h] at hc
    exact ObjectQuery.not_isBlank_of_lastChar (htrim.symm ▸ h) hc

end Token

namespace ObjectQuery

open Token (Spread)

variable {ts : List Token} {source : String}

theorem parse_join (htrim : Text.trim source = source) (h : Token.tokenize source = .ok ts) :
    parse (Token.join ts) = parse source := by
  have hempty : (Token.join ts).isEmpty = source.isEmpty := by
    have hhead := Token.head?_join htrim h
    rw [Bool.eq_iff_iff, String.isEmpty_iff, String.isEmpty_iff, ← String.toList_eq_nil_iff,
      ← String.toList_eq_nil_iff, ← List.head?_eq_none_iff, hhead, List.head?_eq_none_iff]
  have htokens : Token.tokenize (Token.join ts) = .ok ts := by
    rw [Token.tokenize_join (Token.readable_of_tokenize h), Token.unspaceHead_of_trim htrim h]
  simp only [parse, htrim, Token.trim_join htrim h, hempty, h, htokens]

/-- The tokens of a text can be written for it. Those that follow one another are read again, and
the text is its tokens with blanks where they say so. A trimmed text has the same query as what is
written for its tokens. -/
theorem tokens_stand_for_text (h : Token.tokenize source = .ok ts) :
    (∀ slice, slice <:+: ts → Token.tokenize (Token.join slice) = .ok (Token.unspaceHead slice)) ∧
    Spread ts source.toList ∧
    (Text.trim source = source → parse (Token.join ts) = parse source) := by
  refine ⟨?_, Token.spread_of_tokenize h, fun htrim => parse_join htrim h⟩
  rintro slice ⟨before, after, rfl⟩
  exact Token.tokenize_join_of_append h

def crowded : String := "a:b::é<\t=1.5.x||'it''s'"

def crowdedTokens : List Token :=
  [⟨.word, "a", false⟩, ⟨.parameter, "b", false⟩, ⟨.mark, "::", false⟩, ⟨.mark, "é", false⟩,
   ⟨.mark, "<", false⟩, ⟨.mark, "=", true⟩, ⟨.number, "1.5.", false⟩, ⟨.word, "x", false⟩,
   ⟨.mark, "||", false⟩, ⟨.string, "'it''s'", false⟩]

theorem tokens_stand_for_text_crowded :
    Token.tokenize crowded = .ok crowdedTokens ∧ Text.trim crowded = crowded ∧
    Token.tokenize "é< =1.5." = .ok [⟨.mark, "é", false⟩, ⟨.mark, "<", false⟩, ⟨.mark, "=", true⟩,
      ⟨.number, "1.5.", false⟩] ∧
    Spread crowdedTokens crowded.toList ∧
    parse "a:b::é< =1.5.x||'it''s'" = parse crowded := by
  have htokens : Token.tokenize crowded = .ok crowdedTokens := by
    rw [crowded, Token.tokenize, String.toList_ofList]
    decide +kernel
  have htrim : Text.trim crowded = crowded := by
    rw [crowded, Text.trim, String.toList_ofList]
    decide +kernel
  obtain ⟨hslices, hspread, hparse⟩ := tokens_stand_for_text htokens
  have hslice : (crowdedTokens.drop 3).take 4 <:+: crowdedTokens :=
    (List.take_prefix 4 _).isInfix.trans (List.drop_suffix 3 _).isInfix
  exact ⟨htokens, htrim, hslices _ hslice, hspread, hparse htrim⟩

end ObjectQuery

end Persistence
