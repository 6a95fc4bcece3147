import Persistence.ObjectQuery.Basic
import Persistence.ObjectQuery.Token
import Persistence.Schema.Registry

/-!
Reading object queries.

A query is a projection, a root class with an optional alias, joins, a condition and an order. A
clause runs up to the keyword that starts the next one; keywords inside parentheses do not end it.
A join through an association asks the registry for the class at its other end, which is how its
alias gets a class. Every step returns the tokens that follow, and those are fewer.
-/

namespace Persistence.ObjectQuery

open Schema (RegistryM Registry)

abbrev Tokens := List Token

/-- Words that start or continue a clause and cannot be an alias. -/
def reserved : List String :=
  ["SELECT", "FROM", "INNER", "LEFT", "OUTER", "JOIN", "WITH", "ON", "WHERE", "ORDER", "BY"]

def isAlias (t : Token) : Bool := t.kind = .word ∧ !reserved.any t.isKeyword

/-- The rest of the query, as errors show it. -/
def fragment (ts : Tokens) : String :=
  let rest := Token.join ts
  if rest.isEmpty then "end of query" else rest

/-- The tokens in front of `rest`, which is a tail of `ts`. -/
def consumed (ts rest : Tokens) : Tokens := ts.take (ts.length - rest.length)

def startsWith (word : String) : Tokens → Bool
  | [] => false
  | t :: _ => t.isKeyword word

def startsLeftJoin : Tokens → Bool
  | t :: u :: _ => t.isKeyword "LEFT" && (u.isKeyword "JOIN" || u.isKeyword "OUTER")
  | _ => false

def startsOrder : Tokens → Bool
  | t :: u :: _ => t.isKeyword "ORDER" && u.isKeyword "BY"
  | _ => false

def startsClause (ts : Tokens) : Bool :=
  startsWith "INNER" ts || startsWith "JOIN" ts || startsWith "WHERE" ts || startsLeftJoin ts ||
    startsOrder ts

def expect (word : String) (ts : Tokens) : Except Error Tokens :=
  match ts with
  | t :: rest =>
    if t.isKeyword word then .ok rest
    else .error (.query (.expected (.keyword word)) (fragment ts))
  | [] => .error (.query (.expected (.keyword word)) (fragment ts))

def expectName (what : Expectation) (ts : Tokens) : Except Error (String × Tokens) :=
  match ts with
  | t :: rest =>
    if t.kind = .word then .ok (t.text, rest) else .error (.query (.expected what) (fragment ts))
  | [] => .error (.query (.expected what) (fragment ts))

def expectAlias (ts : Tokens) : Except Error (String × Tokens) :=
  match ts with
  | t :: rest =>
    if isAlias t then .ok (t.text, rest) else .error (.query (.expected .aliasName) (fragment ts))
  | [] => .error (.query (.expected .aliasName) (fragment ts))

/-- Splits off the tokens up to the first place outside of parentheses where `stop` holds. `start`
is where the clause began and `depth` how many parentheses are open. -/
def splitClause (stop : Tokens → Bool) (start : Tokens) :
    Nat → Tokens → Except Error (Tokens × Tokens)
  | 0, [] => .ok ([], [])
  | _ + 1, [] => .error (.query .unbalancedOpening (Token.join start))
  | depth, t :: rest =>
    if depth = 0 ∧ stop (t :: rest) then .ok ([], t :: rest)
    else
      let after : Option Nat :=
        if t.isMark "(" then some (depth + 1)
        else if t.isMark ")" then (if depth = 0 then none else some (depth - 1))
        else some depth
      match after with
      | none => .error (.query .unbalancedClosing (fragment (t :: rest)))
      | some depth => (splitClause stop start depth rest).map fun r => (t :: r.1, r.2)

def clause (stop : Tokens → Bool) (ts : Tokens) : Except Error (String × Tokens) :=
  (splitClause stop ts 0 ts).map fun r => (Token.join r.1, r.2)

def nonempty (fault : QueryFault) (stop : Tokens → Bool) (ts : Tokens) :
    Except Error (String × Tokens) := do
  let (text, rest) ← clause stop ts
  if text.isEmpty then .error (.query fault (fragment rest)) else return (text, rest)

def condition (stop : Tokens → Bool) (ts : Tokens) : Except Error (String × Tokens) :=
  nonempty (.expected .condition) stop ts

def joinKind (ts : Tokens) : Except Error (Option (JoinKind × Tokens)) :=
  match ts with
  | [] => .ok none
  | t :: rest =>
    if t.isKeyword "INNER" then (expect "JOIN" rest).map fun rest => some (.inner, rest)
    else if startsLeftJoin ts then
      let rest := if startsWith "OUTER" rest then rest.tail else rest
      (expect "JOIN" rest).map fun rest => some (.left, rest)
    else if t.isKeyword "JOIN" then .ok (some (.inner, rest))
    else .ok none

structure JoinHead where
  /-- A class, or an association of an earlier alias. -/
  target : String ⊕ AssociationRef
  aliasName : String

def joinHead (ts : Tokens) : Except Error (JoinHead × Tokens) := do
  let (first, rest) ← expectName .joinTarget ts
  match rest with
  | t :: after =>
    if t.isMark "." then
      let (name, rest) ← expectName .associationName after
      let (aliasName, rest) ← expectAlias rest
      return (⟨.inr ⟨first, name⟩, aliasName⟩, rest)
    else
      let (aliasName, rest) ← expectAlias rest
      return (⟨.inl first, aliasName⟩, rest)
  | [] => .error (.query (.expected .aliasName) (fragment []))

def resolve (aliases : OrderedMap String String) (ts : Tokens) : String ⊕ AssociationRef →
    RegistryM String
  | .inl className => pure className
  | .inr a =>
    match aliases.get? a.source with
    | none => throw (.query (.unknownAlias a.source) (Token.join ts))
    | some source => do
      let m ← Registry.describe source
      match m.association? a.name with
      | some association => return association.target
      | none => throw (.query (.noAssociation source a.name) (Token.join ts))

/-- The condition of a join: required after `ON` for a class, optional after `WITH` for an
association. -/
def joinCondition (target : String ⊕ AssociationRef) (ts : Tokens) :
    Except Error (Option String × Tokens) :=
  match target with
  | .inl _ => do
    let rest ← expect "ON" ts
    let (text, rest) ← condition startsClause rest
    return (some text, rest)
  | .inr _ =>
    if startsWith "WITH" ts then (condition startsClause ts.tail).map fun r => (some r.1, r.2)
    else .ok (none, ts)

theorem length_expect {word : String} {ts rest : Tokens} (h : expect word ts = .ok rest) :
    rest.length < ts.length := by
  unfold expect at h
  split at h
  · split at h <;> simp_all
  · simp at h

theorem length_expectName {what : Expectation} {ts rest : Tokens} {name : String}
    (h : expectName what ts = .ok (name, rest)) : rest.length < ts.length := by
  unfold expectName at h
  split at h
  · split at h <;> simp_all
  · simp at h

theorem length_expectAlias {ts rest : Tokens} {name : String}
    (h : expectAlias ts = .ok (name, rest)) : rest.length < ts.length := by
  unfold expectAlias at h
  split at h
  · split at h <;> simp_all
  · simp at h

theorem append_of_splitClause {stop : Tokens → Bool} {start : Tokens} {depth : Nat}
    {ts body rest : Tokens} (h : splitClause stop start depth ts = .ok (body, rest)) :
    body ++ rest = ts := by
  induction ts generalizing depth body with
  | nil => cases depth <;> simp_all [splitClause]
  | cons t tail ih =>
    simp only [splitClause] at h
    split at h
    · simp_all
    · split at h
      · simp at h
      · rename_i d _
        cases hs : splitClause stop start d tail with
        | error e => simp [hs, Except.map] at h
        | ok r =>
          simp only [hs, Except.map, Except.ok.injEq, Prod.mk.injEq] at h
          obtain ⟨rfl, rfl⟩ := h
          simpa using ih hs

theorem length_condition {stop : Tokens → Bool} {ts rest : Tokens} {text : String}
    (h : condition stop ts = .ok (text, rest)) : rest.length ≤ ts.length := by
  unfold condition nonempty clause at h
  cases hs : splitClause stop ts 0 ts with
  | error e => simp [hs, Except.map, bind, Except.bind] at h
  | ok r =>
    simp only [hs, Except.map, bind, Except.bind] at h
    split at h
    · simp at h
    · simp only [pure, Except.pure, Except.ok.injEq, Prod.mk.injEq] at h
      have := append_of_splitClause hs
      rw [← this, ← h.2]
      simp

theorem length_joinKind {ts rest : Tokens} {kind : JoinKind}
    (h : joinKind ts = .ok (some (kind, rest))) : rest.length < ts.length := by
  unfold joinKind at h
  split at h
  · simp at h
  · rename_i t tail
    split at h
    · cases he : expect "JOIN" tail with
      | error e => simp [he, Except.map] at h
      | ok r =>
        simp only [he, Except.map, Except.ok.injEq, Option.some.injEq, Prod.mk.injEq] at h
        have := length_expect he
        simp only [List.length_cons, ← h.2]
        omega
    split at h
    · simp only at h
      split at h
      · cases he : expect "JOIN" tail.tail with
        | error e => simp [he, Except.map] at h
        | ok r =>
          simp only [he, Except.map, Except.ok.injEq, Option.some.injEq, Prod.mk.injEq] at h
          have := length_expect he
          simp only [List.length_tail] at this
          simp only [List.length_cons, ← h.2]
          omega
      · cases he : expect "JOIN" tail with
        | error e => simp [he, Except.map] at h
        | ok r =>
          simp only [he, Except.map, Except.ok.injEq, Option.some.injEq, Prod.mk.injEq] at h
          have := length_expect he
          simp only [List.length_cons, ← h.2]
          omega
    split at h
    · simp_all
    · simp at h

theorem length_joinHead {ts rest : Tokens} {head : JoinHead}
    (h : joinHead ts = .ok (head, rest)) : rest.length < ts.length := by
  unfold joinHead at h
  cases hn : expectName .joinTarget ts with
  | error e => simp [hn, bind, Except.bind] at h
  | ok r =>
    obtain ⟨first, more⟩ := r
    have hmore := length_expectName hn
    simp only [hn, bind, Except.bind] at h
    split at h
    · rename_i t after
      split at h
      · cases ha : expectName .associationName after with
        | error e => simp [ha] at h
        | ok r =>
          obtain ⟨name, more⟩ := r
          have := length_expectName ha
          simp only [ha] at h
          cases hl : expectAlias more with
          | error e => simp [hl] at h
          | ok r =>
            obtain ⟨aliasName, more⟩ := r
            have := length_expectAlias hl
            simp only [hl, pure, Except.pure, Except.ok.injEq, Prod.mk.injEq] at h
            simp only [List.length_cons, ← h.2] at *
            omega
      · cases hl : expectAlias (t :: after) with
        | error e => simp [hl] at h
        | ok r =>
          obtain ⟨aliasName, more⟩ := r
          have := length_expectAlias hl
          simp only [hl, pure, Except.pure, Except.ok.injEq, Prod.mk.injEq] at h
          simp only [List.length_cons, ← h.2] at *
          omega
    · simp at h

theorem length_joinCondition {target : String ⊕ AssociationRef} {ts rest : Tokens}
    {text : Option String} (h : joinCondition target ts = .ok (text, rest)) :
    rest.length ≤ ts.length := by
  unfold joinCondition at h
  split at h
  · cases he : expect "ON" ts with
    | error e => simp [he, bind, Except.bind] at h
    | ok more =>
      have := length_expect he
      cases hc : condition startsClause more with
      | error e => simp [he, hc, bind, Except.bind] at h
      | ok r =>
        obtain ⟨text, more⟩ := r
        have := length_condition hc
        simp only [he, hc, bind, Except.bind, pure, Except.pure, Except.ok.injEq,
          Prod.mk.injEq] at h
        rw [← h.2]
        omega
  · split at h
    · cases hc : condition startsClause ts.tail with
      | error e => simp [hc, Except.map] at h
      | ok r =>
        obtain ⟨text, more⟩ := r
        have := length_condition hc
        simp only [hc, Except.map, Except.ok.injEq, Prod.mk.injEq] at h
        simp only [List.length_tail] at this
        rw [← h.2]
        omega
    · simp_all

/-- Reads joins as long as one starts. Each may use the aliases introduced before it. -/
def readJoins (aliases : OrderedMap String String) (ts : Tokens) :
    RegistryM (List Join × OrderedMap String String × Tokens) :=
  match _hk : joinKind ts with
  | .error e => throw e
  | .ok none => pure ([], aliases, ts)
  | .ok (some (kind, start)) =>
    match _hh : joinHead start with
    | .error e => throw e
    | .ok (head, afterHead) => do
      let className ← resolve aliases (consumed start afterHead) head.target
      match _hc : joinCondition head.target afterHead with
      | .error e => throw e
      | .ok (text, rest) =>
        if aliases.contains head.aliasName then
          throw (.query (.duplicateAlias head.aliasName) (Token.join (consumed start rest)))
        else
          let join : Join :=
            ⟨kind, className, head.aliasName, text, head.target.getRight?⟩
          let (joins, aliases, rest) ← readJoins (aliases.insert head.aliasName className) rest
          return (join :: joins, aliases, rest)
termination_by ts.length
decreasing_by
  have := length_joinKind _hk
  have := length_joinHead _hh
  have := length_joinCondition _hc
  omega

def rootAlias (ts : Tokens) : Option String × Tokens :=
  match ts with
  | t :: rest => if isAlias t then (some t.text, rest) else (none, ts)
  | [] => (none, [])

def filterClause (ts : Tokens) : Except Error (Option String × Tokens) :=
  if startsWith "WHERE" ts then (condition startsOrder ts.tail).map fun r => (some r.1, r.2)
  else .ok (none, ts)

/-- An order runs to the end of the query. -/
def orderClause (ts : Tokens) : Except Error (Option String × Tokens) :=
  if startsOrder ts then (condition (fun _ => false) (ts.drop 2)).map fun r => (some r.1, r.2)
  else .ok (none, ts)

def readTokens (ts : Tokens) : RegistryM ObjectQuery := do
  let ts ← expect "SELECT" ts
  let (projection, ts) ← nonempty .missingProjection (startsWith "FROM") ts
  let ts ← expect "FROM" ts
  let (root, ts) ← expectName .entityName ts
  let (aliasName, ts) := rootAlias ts
  let aliases := OrderedMap.ofList (aliasName.toList.map fun a => (a, root))
  let (joins, aliases, ts) ← readJoins aliases ts
  let (filter, ts) ← filterClause ts
  let (order, ts) ← orderClause ts
  match ts with
  | [] => return ⟨projection, root, aliasName, joins, filter, order, aliases⟩
  | t :: _ => throw (.query (.unexpected t.text) (fragment ts))

/-- Reads a query text. -/
def parse (source : String) : RegistryM ObjectQuery := do
  let source := Text.trim source
  if source.isEmpty then throw (.query .empty "")
  else readTokens (← Token.tokenize source)

end Persistence.ObjectQuery
