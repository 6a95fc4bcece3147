import Persistence.Error

/-!
Tokens of query texts.

A query text is a sequence of words, numbers, quoted strings, parameters and marks, with blanks
between them where the writer put some. A token remembers whether blanks stood before it; how many
and which is forgotten, so writing tokens out again gives the text with single spaces.
-/

namespace Persistence

inductive Token.Kind
  /-- A keyword, or the name of an alias, an entity, a field or a function. -/
  | word
  | number
  /-- A quoted string, with its quotes. -/
  | string
  /-- A named parameter; its text leaves out the colon in front. -/
  | parameter
  | mark
deriving DecidableEq

structure Token where
  kind : Token.Kind
  text : String
  /-- Blanks stand before the token. -/
  spaced : Bool
deriving DecidableEq

namespace Token

def isSpace (c : Char) : Bool :=
  c == ' ' || c == '\t' || c == '\n' || c == '\r' || c == '\x0c'

def isWordStart (c : Char) : Bool := c.isAlpha || c == '_'

def isWordChar (c : Char) : Bool := c.isAlphanum || c == '_'

def isNumberChar (c : Char) : Bool := c.isDigit || c == '.'

def isQuote (c : Char) : Bool := c == '\'' || c == '"'

def pairs : List (Char × Char) :=
  [('<', '='), ('>', '='), ('<', '>'), ('!', '='), (':', ':'), ('|', '|')]

/-- Reads up to the closing quote, which is included. A quote written twice stands for itself and
does not close. -/
def closing (quote : Char) : List Char → Option (List Char × List Char)
  | [] => none
  | [c] => if c = quote then some ([c], []) else none
  | c :: d :: rest =>
    if c = quote then
      if d = quote then (closing quote rest).map fun r => (c :: d :: r.1, r.2)
      else some ([c], d :: rest)
    else (closing quote (d :: rest)).map fun r => (c :: r.1, r.2)

/-- The token that starts with `c`, as its kind, its text and what follows it. There is none if a
string is not closed. -/
def next (c : Char) (cs : List Char) : Option (Kind × List Char × List Char) :=
  if isWordStart c then some (.word, c :: cs.takeWhile isWordChar, cs.dropWhile isWordChar)
  else if c.isDigit then some (.number, c :: cs.takeWhile isNumberChar, cs.dropWhile isNumberChar)
  else if isQuote c then (closing c cs).map fun r => (.string, c :: r.1, r.2)
  else match cs with
    | [] => some (.mark, [c], [])
    | d :: rest =>
      if c = ':' ∧ isWordStart d then
        some (.parameter, d :: rest.takeWhile isWordChar, rest.dropWhile isWordChar)
      else if (c, d) ∈ pairs then some (.mark, [c, d], rest)
      else some (.mark, [c], d :: rest)

theorem length_dropWhile_le (p : Char → Bool) (cs : List Char) :
    (cs.dropWhile p).length ≤ cs.length :=
  (List.dropWhile_suffix p).length_le

theorem length_closing_le {quote : Char} {cs body rest : List Char}
    (h : closing quote cs = some (body, rest)) : rest.length ≤ cs.length := by
  fun_induction closing quote cs generalizing body with
  | case1 => simp at h
  | case2 => simp_all
  | case3 => simp at h
  | case4 tail ih =>
    obtain ⟨r, hr, he⟩ := Option.map_eq_some_iff.1 h
    obtain ⟨b, t⟩ := r
    simp only [Prod.mk.injEq] at he
    have := ih (he.2 ▸ hr)
    simp only [List.length_cons]
    omega
  | case5 =>
    simp only [Option.some.injEq, Prod.mk.injEq] at h
    simp [← h.2]
  | case6 c d tail _ ih =>
    obtain ⟨r, hr, he⟩ := Option.map_eq_some_iff.1 h
    obtain ⟨b, t⟩ := r
    simp only [Prod.mk.injEq] at he
    have := ih (he.2 ▸ hr)
    simp only [List.length_cons] at this ⊢
    omega

theorem length_next_le {c : Char} {cs text rest : List Char} {kind : Kind}
    (h : next c cs = some (kind, text, rest)) : rest.length ≤ cs.length := by
  unfold next at h
  split at h
  · simp only [Option.some.injEq, Prod.mk.injEq] at h
    exact h.2.2 ▸ length_dropWhile_le _ _
  split at h
  · simp only [Option.some.injEq, Prod.mk.injEq] at h
    exact h.2.2 ▸ length_dropWhile_le _ _
  split at h
  · obtain ⟨r, hr, he⟩ := Option.map_eq_some_iff.1 h
    obtain ⟨b, t⟩ := r
    simp only [Prod.mk.injEq] at he
    exact length_closing_le (he.2.2 ▸ hr)
  split at h
  · simp_all
  · rename_i d tail
    split at h
    · simp only [Option.some.injEq, Prod.mk.injEq] at h
      exact h.2.2 ▸ Nat.le_succ_of_le (length_dropWhile_le _ _)
    split at h
    · simp only [Option.some.injEq, Prod.mk.injEq] at h
      simp [← h.2.2]
    · simp only [Option.some.injEq, Prod.mk.injEq] at h
      simp [← h.2.2]

/-- Splits characters into tokens; `spaced` says whether blanks were just passed. -/
def scan (spaced : Bool) : List Char → Except Error (List Token)
  | [] => .ok []
  | c :: cs =>
    if isSpace c then scan true cs
    else match _h : next c cs with
      | none => .error (.query .unterminatedString (String.ofList (c :: cs)))
      | some (kind, text, rest) =>
        match scan false rest with
        | .ok ts => .ok (⟨kind, String.ofList text, spaced⟩ :: ts)
        | .error e => .error e
termination_by cs => cs.length
decreasing_by
  · simp
  · simpa using Nat.lt_succ_of_le (length_next_le _h)

def tokenize (source : String) : Except Error (List Token) := scan false source.toList

def isKeyword (t : Token) (word : String) : Bool := t.kind = .word ∧ Text.sameName t.text word

def isMark (t : Token) (mark : String) : Bool := t.kind = .mark ∧ t.text = mark

def source (t : Token) : String := if t.kind = .parameter then ":" ++ t.text else t.text

def gap (t : Token) : String := if t.spaced then " " else ""

/-- Blanks before the first token of a clause do not count. -/
def unspaceHead : List Token → List Token
  | [] => []
  | t :: rest => { t with spaced := false } :: rest

def join (ts : List Token) : String :=
  String.join ((unspaceHead ts).map fun t => t.gap ++ t.source)

end Token
end Persistence
