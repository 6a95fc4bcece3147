import Persistence.ObjectQuery.Compilation
import Persistence.Proofs.Extraction
import Persistence.Proofs.RoundTrip

/-!
Clauses in SQL. A clause is rewritten token by token: a parameter becomes a placeholder, the field
of a reference becomes its column, and every other token stays, each in its place and with the
blanks in front of it. A reference is an alias, a dot and a field without blanks between them; where
two overlap the first one counts.
-/

namespace Persistence.ObjectQuery

open Schema (Metadata)
open Token (Readable unspaceHead)

variable {scope : Scope} {ts us rest : Tokens} {t u owner dot field : Token} {fs : List Fragment}
  {m : Metadata} {i : Nat} {name column : String}

/-- The column that a name stands for: that of the field of this name, else the column of this
name. -/
def Names (m : Metadata) (name column : String) : Prop :=
  (∃ f ∈ m.fields, f.name = name ∧ f.column = column) ∨
    (∀ f ∈ m.fields, f.name ≠ name) ∧ column = name ∧ ∃ f ∈ m.fields, f.column = name

theorem columnFor_of_field {f : Schema.Field} (hf : f ∈ m.fields) (aliasName : String) :
    columnFor m aliasName f.name = .ok f.column := by
  simp [columnFor, Metadata.column?, Metadata.field?_eq_some_iff.mpr ⟨hf, rfl⟩]

theorem columnFor_of_forall_ne (h : ∀ f ∈ m.fields, f.name ≠ name) (aliasName : String) :
    columnFor m aliasName name = if ∃ f ∈ m.fields, f.column = name then .ok name
      else .error (.query (.noField m.className name) (aliasName ++ "." ++ name)) := by
  have hnone : m.field? name = none := List.find?_eq_none.mpr fun f hf => by simpa using h f hf
  simp [columnFor, Metadata.column?, hnone, Metadata.columns]

theorem columnFor_eq_ok_iff {aliasName : String} :
    columnFor m aliasName name = .ok column ↔ Names m name column := by
  by_cases h : ∃ f ∈ m.fields, f.name = name
  · obtain ⟨f, hf, rfl⟩ := h
    rw [columnFor_of_field hf]
    constructor
    · intro hok
      exact .inl ⟨f, hf, rfl, Except.ok.inj hok⟩
    · rintro (⟨g, hg, hname, rfl⟩ | ⟨hne, -⟩)
      · rw [eq_of_key_eq m.fieldNames_nodup hg hf hname]
      · exact absurd rfl (hne f hf)
  · push Not at h
    rw [columnFor_of_forall_ne h]
    constructor
    · intro hok
      split at hok
      · rename_i hcolumn
        exact .inr ⟨h, (Except.ok.inj hok).symm, hcolumn⟩
      · simp at hok
    · rintro (⟨f, hf, hname, -⟩ | ⟨-, rfl, hcolumn⟩)
      · exact absurd hname (h f hf)
      · rw [if_pos hcolumn]

theorem columnFor_of_not_names {aliasName : String} (h : ∀ column, ¬ Names m name column) :
    columnFor m aliasName name =
      .error (.query (.noField m.className name) (aliasName ++ "." ++ name)) := by
  have hname : ∀ f ∈ m.fields, f.name ≠ name := fun f hf hname => h f.column (.inl ⟨f, hf, hname, rfl⟩)
  rw [columnFor_of_forall_ne hname, if_neg fun hcolumn => h name (.inr ⟨hname, rfl, hcolumn⟩)]

def leading? (scope : Scope) : Tokens → Option Metadata
  | owner :: dot :: field :: _ => reference? scope owner dot field
  | _ => none

/-- The class whose field the token at a position is. Two tokens before stands an alias that is in
scope and is no such field itself. -/
def fieldAt (scope : Scope) (ts : Tokens) : Nat → Option Metadata
  | 0 | 1 => none
  | i + 2 => if (fieldAt scope ts i).isSome then none else leading? scope (ts.drop i)

theorem reference?_eq_some_iff : reference? scope owner dot field = some m ↔
    (owner.kind = .word ∧ dot.isMark "." = true ∧ dot.spaced = false ∧ field.kind = .word ∧
      field.spaced = false) ∧ scope.get? owner.text = some m := by
  rw [reference?]
  split <;> simp_all

theorem kind_of_leading (h : leading? scope (t :: ts) = some m) : t.kind = .word := by
  unfold leading? at h
  split at h
  · rename_i heq
    obtain rfl := (List.cons.inj heq).1
    exact (reference?_eq_some_iff.mp h).1.1
  · simp at h

theorem kind_of_fieldAt (h : fieldAt scope ts i = some m) (ht : ts[i]? = some t) : t.kind = .word := by
  match i with
  | 0 | 1 => simp [fieldAt] at h
  | i + 2 =>
    rw [fieldAt] at h
    split at h
    · simp at h
    · unfold leading? at h
      split at h
      · rename_i owner dot field rest hdrop
        have hfield : (ts.drop i)[2]? = some field := by rw [hdrop]; rfl
        rw [List.getElem?_drop, ht] at hfield
        obtain rfl := Option.some.inj hfield
        exact (reference?_eq_some_iff.mp h).1.2.2.2.1
      · simp at h

theorem fieldAt_cons (h : leading? scope (t :: ts) = none) (i : Nat) :
    fieldAt scope (t :: ts) (i + 1) = fieldAt scope ts i := by
  induction i using Nat.strongRecOn with
  | ind i ih =>
    match i with
    | 0 => rfl
    | 1 => simp [fieldAt, h]
    | i + 2 => rw [fieldAt, fieldAt, ih i (by omega), List.drop_succ_cons]

theorem fieldAt_reference (h : reference? scope owner dot field = some m) (i : Nat) :
    fieldAt scope (owner :: dot :: field :: rest) (i + 3) = fieldAt scope rest i := by
  have hdot : leading? scope (dot :: field :: rest) = none := by
    refine Option.eq_none_iff_forall_ne_some.mpr fun md hmd => ?_
    have hmark := (reference?_eq_some_iff.mp h).1.2.1
    rw [Token.isMark, kind_of_leading hmd] at hmark
    simp at hmark
  have hfield : fieldAt scope (owner :: dot :: field :: rest) 2 = some m := by
    simp [fieldAt, leading?, h]
  -- the field itself owns no reference, and from there on both sides look back at the same tokens
  induction i using Nat.strongRecOn with
  | ind i ih =>
    match i with
    | 0 => simp [fieldAt, hdot]
    | 1 =>
      change fieldAt scope _ (2 + 2) = none
      rw [fieldAt, hfield]
      rfl
    | i + 2 =>
      change fieldAt scope _ (i + 3 + 2) = _
      rw [fieldAt, ih i (by omega)]
      rfl

theorem leading?_spaced (spaced : Bool) (ts : Tokens) :
    leading? scope ({ t with spaced := spaced } :: ts) = leading? scope (t :: ts) := by
  match ts with
  | [] | [_] | _ :: _ :: _ => rfl

theorem fieldAt_unspaceHead (scope : Scope) (ts : Tokens) (i : Nat) :
    fieldAt scope (unspaceHead ts) i = fieldAt scope ts i := by
  cases ts with
  | nil => rfl
  | cons t ts =>
    induction i using Nat.strongRecOn with
    | ind i ih =>
      match i with
      | 0 | 1 => rfl
      | 2 => simp [fieldAt, unspaceHead, leading?_spaced]
      | i + 3 => rw [fieldAt, fieldAt, ih (i + 1) (by omega)]; rfl

/-- What becomes of the token at a position. -/
inductive Becomes (scope : Scope) (ts : Tokens) (i : Nat) (t : Token) : Token → Prop
  | placeholder : t.kind = .parameter → Becomes scope ts i t ⟨.mark, "?", t.spaced⟩
  | column {m : Metadata} {column : String} : fieldAt scope ts i = some m → Names m t.text column →
      Becomes scope ts i t { t with text := column }
  | same : t.kind ≠ .parameter → fieldAt scope ts i = none → Becomes scope ts i t t

structure Rewrites (scope : Scope) (ts us : Tokens) : Prop where
  length_eq : us.length = ts.length
  becomes : ∀ i t u, ts[i]? = some t → us[i]? = some u → Becomes scope ts i t u

/-- The fields of references all stand for columns. -/
def Resolved (scope : Scope) (ts : Tokens) : Prop :=
  ∀ i m t, fieldAt scope ts i = some m → ts[i]? = some t → ∃ column, Names m t.text column

/-- The error tells of a reference whose field stands for no column. -/
def Blames (scope : Scope) (ts : Tokens) (e : Error) : Prop :=
  ∃ i m owner t, fieldAt scope ts (i + 2) = some m ∧ ts[i]? = some owner ∧ ts[i + 2]? = some t ∧
    (∀ column, ¬ Names m t.text column) ∧
    e = .query (.noField m.className t.text) (owner.text ++ "." ++ t.text)

theorem Blames.not_resolved {e : Error} (h : Blames scope ts e) : ¬ Resolved scope ts := by
  obtain ⟨i, m, owner, t, hfield, -, ht, hnot, -⟩ := h
  intro hresolved
  obtain ⟨column, hcolumn⟩ := hresolved _ m t hfield ht
  exact hnot column hcolumn

theorem Becomes.congr {ts' : Tokens} {j : Nat} (h : Becomes scope ts i t u)
    (hfield : fieldAt scope ts' j = fieldAt scope ts i) : Becomes scope ts' j t u := by
  cases h with
  | placeholder hk => exact .placeholder hk
  | column hm hc => exact .column (hfield.trans hm) hc
  | same hk hn => exact .same hk (hfield.trans hn)

theorem Becomes.spaced_eq (h : Becomes scope ts i t u) : u.spaced = t.spaced := by
  cases h <;> rfl

theorem Rewrites.nil : Rewrites scope [] [] := ⟨rfl, by simp⟩

def image (t : Token) : Token := if t.kind = .parameter then ⟨.mark, "?", t.spaced⟩ else t

theorem becomes_image (h : fieldAt scope ts i = none) : Becomes scope ts i t (image t) := by
  rw [image]
  split
  · rename_i hk
    exact .placeholder hk
  · rename_i hk
    exact .same hk h

theorem Rewrites.cons (h : leading? scope (t :: ts) = none) (hts : Rewrites scope ts us) :
    Rewrites scope (t :: ts) (image t :: us) where
  length_eq := by rw [List.length_cons, hts.length_eq, List.length_cons]
  becomes i t' u ht' hu := by
    cases i with
    | zero =>
      obtain ⟨rfl, rfl⟩ : t = t' ∧ image t = u := ⟨Option.some.inj ht', Option.some.inj hu⟩
      exact becomes_image rfl
    | succ i => exact (hts.becomes i t' u ht' hu).congr (fieldAt_cons h i)

theorem Rewrites.reference (h : reference? scope owner dot field = some m) (hc : Names m field.text column)
    (hrest : Rewrites scope rest us) :
    Rewrites scope (owner :: dot :: field :: rest) (owner :: dot :: { field with text := column } :: us) where
  length_eq := by simp [hrest.length_eq]
  becomes i t u ht hu := by
    obtain ⟨⟨howner, hdot, -⟩, -⟩ := reference?_eq_some_iff.mp h
    match i with
    | 0 =>
      obtain ⟨rfl, rfl⟩ : owner = t ∧ owner = u := ⟨Option.some.inj ht, Option.some.inj hu⟩
      exact .same (by simp [howner]) rfl
    | 1 =>
      obtain ⟨rfl, rfl⟩ : dot = t ∧ dot = u := ⟨Option.some.inj ht, Option.some.inj hu⟩
      refine .same (fun hk => ?_) rfl
      rw [Token.isMark, hk] at hdot
      simp at hdot
    | 2 =>
      obtain ⟨rfl, rfl⟩ : field = t ∧ { field with text := column } = u :=
        ⟨Option.some.inj ht, Option.some.inj hu⟩
      exact .column (by simp [fieldAt, leading?, h]) hc
    | i + 3 => exact (hrest.becomes i t u ht hu).congr (fieldAt_reference h i)

theorem Rewrites.of_unspaceHead (h : Rewrites scope (unspaceHead ts) us) :
    ∃ vs, Rewrites scope ts vs ∧ unspaceHead vs = us := by
  cases ts with
  | nil =>
    obtain rfl : us = [] := List.eq_nil_of_length_eq_zero h.length_eq
    exact ⟨[], .nil, rfl⟩
  | cons t ts =>
    cases us with
    | nil => simpa [unspaceHead] using h.length_eq
    | cons u us =>
      have hu := h.becomes 0 _ u rfl rfl
      have hspaced : u.spaced = false := hu.spaced_eq
      refine ⟨{ u with spaced := t.spaced } :: us, ⟨h.length_eq, ?_⟩, ?_⟩
      · intro i t' u' ht' hu'
        cases i with
        | zero =>
          obtain ⟨rfl, rfl⟩ : t = t' ∧ { u with spaced := t.spaced } = u' :=
            ⟨Option.some.inj ht', Option.some.inj hu'⟩
          cases hu with
          | placeholder hk => exact .placeholder hk
          | column hm => simp [fieldAt] at hm
          | same hk => exact .same hk rfl
        | succ i =>
          exact (h.becomes (i + 1) t' u' ht' hu').congr (fieldAt_unspaceHead scope _ _).symm
      · rw [unspaceHead, ← hspaced]

/-- The names of the parameters in a text, in order. -/
def parameterNames (ts : Tokens) : List String :=
  (ts.filter fun t => t.kind = .parameter).map Token.text

theorem parameterNames_cons (t : Token) (ts : Tokens) : parameterNames (t :: ts) =
    if t.kind = .parameter then t.text :: parameterNames ts else parameterNames ts := by
  unfold parameterNames
  by_cases hk : t.kind = .parameter <;> simp [hk]

theorem parameterNames_cons_of_ne (h : t.kind ≠ .parameter) (ts : Tokens) :
    parameterNames (t :: ts) = parameterNames ts := by
  rw [parameterNames_cons, if_neg h]

theorem kind_of_isMark {mark : String} (h : t.isMark mark = true) : t.kind ≠ .parameter := by
  rw [Token.isMark, decide_eq_true_eq] at h
  simp [h.1]

def written (ts : Tokens) : String := String.join (ts.map fun t => t.gap ++ t.source)

theorem written_cons (t : Token) (ts : Tokens) : written (t :: ts) = t.gap ++ t.source ++ written ts :=
  String.join_cons

theorem fragmentsOfTokens_cons (h : leading? scope (t :: ts) = none) :
    fragmentsOfTokens scope (t :: ts) =
      (fragmentsOfTokens scope ts).map fun fs => .text t.gap :: .ofToken t :: fs := by
  match ts with
  | [] | [_] =>
    rw [fragmentsOfTokens] <;> first | rfl | simp
  | dot :: field :: rest =>
    rw [fragmentsOfTokens, show reference? scope t dot field = none from h]
    rfl

theorem fragmentsOfTokens_reference (h : reference? scope owner dot field = some m) :
    fragmentsOfTokens scope (owner :: dot :: field :: rest) = (do
      let column ← columnFor m owner.text field.text
      let fs ← fragmentsOfTokens scope rest
      return .text owner.gap :: .text (owner.text ++ "." ++ column) :: fs) := by
  rw [fragmentsOfTokens, h]

@[elab_as_elim]
theorem reading_induction (scope : Scope) {motive : Tokens → Prop} (nil : motive [])
    (reference : ∀ owner dot field rest m, reference? scope owner dot field = some m → motive rest →
      motive (owner :: dot :: field :: rest))
    (cons : ∀ t ts, leading? scope (t :: ts) = none → motive ts → motive (t :: ts))
    (ts : Tokens) : motive ts := by
  fun_induction fragmentsOfTokens scope ts with
  | case1 owner dot field rest m h ih => exact reference owner dot field rest m h ih
  | case2 owner dot field rest h ih => exact cons owner _ h ih
  | case3 t rest hshort ih =>
    refine cons t rest ?_ ih
    match rest with
    | [] | [_] => rfl
    | dot :: field :: rest => exact absurd rfl (hshort dot field rest)
  | case4 => exact nil

theorem sql_cons (f : Fragment) (fs : List Fragment) :
    (Compiled.ofFragments (f :: fs)).sql = f.sql ++ (Compiled.ofFragments fs).sql := String.join_cons

theorem sql_ofToken (t : Token) : (Fragment.ofToken t).sql = (image t).source := by
  rw [Fragment.ofToken, image]
  split
  · rfl
  · rename_i hk
    rw [Token.source, if_neg hk]
    rfl

theorem gap_image (t : Token) : (image t).gap = t.gap := by
  rw [image]
  split <;> rfl

theorem source_of_isMark {t : Token} {mark : String} (h : t.isMark mark = true) : t.source = mark := by
  rw [Token.isMark, decide_eq_true_eq] at h
  rw [Token.source, if_neg (by simp [h.1]), h.2]

/-- What is written for tokens is what has become of them. -/
theorem rewrites_of_fragmentsOfTokens (h : fragmentsOfTokens scope ts = .ok fs) :
    ∃ us, Rewrites scope ts us ∧ (Compiled.ofFragments fs).sql = written us := by
  induction ts using reading_induction scope generalizing fs with
  | nil =>
    obtain rfl := Except.ok.inj h
    exact ⟨[], .nil, rfl⟩
  | reference owner dot field rest m href ih =>
    rw [fragmentsOfTokens_reference href] at h
    obtain ⟨column, hcolumn, h⟩ := bind_eq_ok h
    obtain ⟨gs, hgs, hfs⟩ := bind_eq_ok h
    obtain rfl := Except.ok.inj hfs
    obtain ⟨us, hus, hsql⟩ := ih hgs
    refine ⟨_, hus.reference href (columnFor_eq_ok_iff.mp hcolumn), ?_⟩
    obtain ⟨⟨howner, hdot, hdotSpaced, hfield, hfieldSpaced⟩, -⟩ := reference?_eq_some_iff.mp href
    rw [written_cons, written_cons, written_cons, source_of_isMark hdot, sql_cons, sql_cons, hsql]
    simp [Fragment.sql, Token.gap, Token.source, howner, hdotSpaced, hfield, hfieldSpaced, String.append_assoc]
  | cons t ts hlead ih =>
    rw [fragmentsOfTokens_cons hlead] at h
    obtain ⟨gs, hgs, rfl⟩ := map_eq_ok h
    obtain ⟨us, hus, hsql⟩ := ih hgs
    refine ⟨_, hus.cons hlead, ?_⟩
    rw [sql_cons, sql_cons, sql_ofToken, written_cons, gap_image, hsql, String.append_assoc, Fragment.sql]

theorem parameters_of_fragmentsOfTokens (h : fragmentsOfTokens scope ts = .ok fs) :
    (Compiled.ofFragments fs).parameters = parameterNames ts := by
  induction ts using reading_induction scope generalizing fs with
  | nil =>
    obtain rfl := Except.ok.inj h
    rfl
  | reference owner dot field rest m href ih =>
    rw [fragmentsOfTokens_reference href] at h
    obtain ⟨column, -, h⟩ := bind_eq_ok h
    obtain ⟨gs, hgs, hfs⟩ := bind_eq_ok h
    obtain rfl := Except.ok.inj hfs
    obtain ⟨⟨howner, hdot, -, hfield, -⟩, -⟩ := reference?_eq_some_iff.mp href
    rw [parameterNames_cons_of_ne (by simp [howner]), parameterNames_cons_of_ne (kind_of_isMark hdot),
      parameterNames_cons_of_ne (by simp [hfield]), ← ih hgs]
    rfl
  | cons t ts hlead ih =>
    rw [fragmentsOfTokens_cons hlead] at h
    obtain ⟨gs, hgs, rfl⟩ := map_eq_ok h
    rw [parameterNames_cons, ← ih hgs, Fragment.ofToken]
    split <;> rfl

theorem Blames.cons {e : Error} (hlead : leading? scope (t :: ts) = none) (h : Blames scope ts e) :
    Blames scope (t :: ts) e := by
  obtain ⟨i, m, owner, field, hfield, howner, hrest⟩ := h
  exact ⟨i + 1, m, owner, field, (fieldAt_cons hlead (i + 2)).trans hfield, howner, hrest⟩

theorem Blames.reference {e : Error} (href : reference? scope owner dot field = some m)
    (h : Blames scope rest e) : Blames scope (owner :: dot :: field :: rest) e := by
  obtain ⟨i, md, owner', field', hfield, howner, hrest⟩ := h
  exact ⟨i + 3, md, owner', field', (fieldAt_reference href (i + 2)).trans hfield, howner, hrest⟩

theorem blames_of_fragmentsOfTokens {e : Error} (h : fragmentsOfTokens scope ts = .error e) :
    Blames scope ts e := by
  -- the error is that of this reference, or one of a reference behind it
  induction ts using reading_induction scope with
  | nil => simp [fragmentsOfTokens] at h
  | reference owner dot field rest m href ih =>
    rw [fragmentsOfTokens_reference href] at h
    cases hcolumn : columnFor m owner.text field.text with
    | ok column =>
      rw [hcolumn] at h
      cases hrest : fragmentsOfTokens scope rest with
      | ok gs => simp [hrest, bind, Except.bind, pure, Except.pure] at h
      | error e' =>
        obtain rfl : e' = e := by simpa [hrest, bind, Except.bind] using h
        exact (ih hrest).reference href
    | error e' =>
      obtain rfl : e' = e := by simpa [hcolumn, bind, Except.bind] using h
      have hnot : ∀ column, ¬ Names m field.text column := fun column hc => by
        simp [columnFor_eq_ok_iff.mpr hc] at hcolumn
      rw [columnFor_of_not_names hnot] at hcolumn
      exact ⟨0, m, owner, field, by simp [fieldAt, leading?, href], rfl, rfl, hnot,
        (Except.error.inj hcolumn).symm⟩
  | cons t ts hlead ih =>
    rw [fragmentsOfTokens_cons hlead] at h
    cases hts : fragmentsOfTokens scope ts with
    | ok gs => simp [hts, Except.map] at h
    | error e' =>
      obtain rfl : e' = e := by simpa [hts, Except.map] using h
      exact (ih hts).cons hlead

theorem Rewrites.exists_getElem? (h : Rewrites scope ts us) (ht : ts[i]? = some t) :
    ∃ u, us[i]? = some u := by
  have hlt : i < us.length := h.length_eq ▸ (List.getElem?_eq_some_iff.mp ht).1
  exact ⟨us[i], List.getElem?_eq_getElem hlt⟩

theorem Rewrites.resolved (h : Rewrites scope ts us) : Resolved scope ts := by
  intro i m t hfield ht
  obtain ⟨u, hu⟩ := h.exists_getElem? ht
  cases h.becomes i t u ht hu with
  | placeholder hk => simp [kind_of_fieldAt hfield ht] at hk
  | column hm hc =>
    obtain rfl := Option.some.inj (hfield.symm.trans hm)
    exact ⟨_, hc⟩
  | same _ hn => simp [hfield] at hn

theorem Blames.of_unspaceHead {e : Error} (h : Blames scope (unspaceHead ts) e) : Blames scope ts e := by
  obtain ⟨i, m, owner, field, hfield, howner, ht, hnot, rfl⟩ := h
  rw [fieldAt_unspaceHead] at hfield
  cases ts with
  | nil => simp [unspaceHead] at howner
  | cons t ts =>
    cases i with
    | zero =>
      obtain rfl := Option.some.inj howner
      exact ⟨0, m, t, field, hfield, rfl, ht, hnot, rfl⟩
    | succ i => exact ⟨i + 1, m, owner, field, hfield, howner, ht, hnot, rfl⟩

theorem fragmentsOfText_join (hts : Readable ts) :
    fragmentsOfText scope (Token.join ts) = fragmentsOfTokens scope (unspaceHead ts) := by
  rw [fragmentsOfText, Token.tokenize_join hts]
  cases ts <;> rfl

theorem parameterNames_unspaceHead (ts : Tokens) : parameterNames (unspaceHead ts) = parameterNames ts := by
  cases ts with
  | nil => rfl
  | cons t ts => simp [unspaceHead, parameterNames_cons]

/-- The fragments are those of a clause: their text is that of the tokens it is rewritten to, and their
parameters are those of the clause. -/
structure Renders (scope : Scope) (ts : Tokens) (fs : List Fragment) : Prop where
  text : ∃ us, Rewrites scope ts us ∧ (Compiled.ofFragments fs).sql = Token.join us
  parameters : (Compiled.ofFragments fs).parameters = parameterNames ts

theorem Renders.resolved (h : Renders scope ts fs) : Resolved scope ts :=
  h.text.elim fun _ hus => hus.1.resolved

theorem renders_of_fragmentsOfText (hts : Readable ts)
    (h : fragmentsOfText scope (Token.join ts) = .ok fs) : Renders scope ts fs := by
  rw [fragmentsOfText_join hts] at h
  obtain ⟨us, hus, hsql⟩ := rewrites_of_fragmentsOfTokens h
  obtain ⟨vs, hvs, rfl⟩ := hus.of_unspaceHead
  exact ⟨⟨vs, hvs, hsql⟩, by rw [parameters_of_fragmentsOfTokens h, parameterNames_unspaceHead]⟩

theorem blames_of_fragmentsOfText {e : Error} (hts : Readable ts)
    (h : fragmentsOfText scope (Token.join ts) = .error e) : Blames scope ts e := by
  rw [fragmentsOfText_join hts] at h
  exact (blames_of_fragmentsOfTokens h).of_unspaceHead

end Persistence.ObjectQuery
