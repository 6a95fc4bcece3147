import Mathlib.Data.List.Induction
import Persistence.Manager.BoundQuery
import Persistence.Proofs.Nesting
import Persistence.Proofs.Requests
import Persistence.Proofs.Translation
import Persistence.Proofs.Working

/-!
Values of parameters. The parameters of a compiled query are those of its text in the order of the
clauses, as often as they stand there. Of the values bound under a name the last one counts, and a
query is sent once with the values of all its parameters, or not at all.
-/

namespace Persistence

namespace Token

variable {c : Char} {t : Token} {ts : List Token}

theorem Readable.forall_mem {P : Token → Prop} (h : Readable ts)
    (hP : ∀ t rest, t.Reads rest → P t) : ∀ t ∈ ts, P t := by
  induction ts with
  | nil => simp
  | cons t ts ih => exact List.forall_mem_cons.mpr ⟨hP t _ h.1, ih h.2⟩

theorem mem_join (ht : t ∈ ts) (hc : c ∈ t.source.toList) : c ∈ (join ts).toList := by
  obtain ⟨u, hu, hsource⟩ : ∃ u ∈ unspaceHead ts, u.source = t.source := by
    cases ts with
    | nil => simp at ht
    | cons first ts =>
      rcases List.mem_cons.mp ht with rfl | ht
      · exact ⟨{ t with spaced := false }, List.mem_cons_self, rfl⟩
      · exact ⟨t, List.mem_cons_of_mem _ ht, rfl⟩
  rw [toList_join, chars, List.mem_flatMap]
  exact ⟨u, hu, List.mem_append_right _ (hsource ▸ hc)⟩

theorem isWordChar_of_isWord {s : String} (h : isWord s = true) : ∀ c ∈ s.toList, isWordChar c = true := by
  unfold isWord at h
  split at h
  · simp at h
  · rename_i d cs hs
    obtain ⟨hd, hcs⟩ := Bool.and_eq_true_iff.mp h
    rw [hs]
    refine List.forall_mem_cons.mpr ⟨?_, List.all_eq_true.mp hcs⟩
    simp only [isWordStart, isWordChar, Char.isAlphanum, Bool.or_eq_true] at hd ⊢
    exact hd.imp_left .inl

end Token

namespace Text

theorem mem_trimBlanks {c : Char} {cs : List Char} (hc : c ∈ cs) (hblank : isBlank c = false) :
    c ∈ trimBlanks cs := by
  have hdrop {ds : List Char} (hd : c ∈ ds) : c ∈ ds.dropWhile isBlank := by
    rw [← List.takeWhile_append_dropWhile (p := isBlank) (l := ds), List.mem_append] at hd
    refine hd.resolve_left fun htake => ?_
    simp [List.all_eq_true.mp List.all_takeWhile c htake] at hblank
  rw [trimBlanks, List.mem_reverse]
  exact hdrop (List.mem_reverse.mpr (hdrop hc))

theorem eq_of_toLower_eq {c d : Char} (hc : c ∈ [':', '?']) (h : d.toLower = c) : d = c := by
  unfold Char.toLower at h
  split at h
  · rename_i hupper
    obtain ⟨hlow, hhigh⟩ := hupper
    subst h
    simp [Char.ext_iff, UInt32.le_iff_toNat_le, ← UInt32.toNat_inj] at hc hlow hhigh
    omega
  · exact h

end Text

namespace ObjectQuery

open Schema (Metadata Registry)
open Token (Readable)

variable {q : ObjectQuery} {scope : Scope} {ts : Tokens} {cl : Clauses} {source : String}
  {x : Answers} {st : Statement}

theorem AreNames.isWord {names : List String} (h : AreNames names ts) (hts : Readable ts) :
    ∀ name ∈ names, Token.isWord name = true := by
  induction h with
  | nil => simp
  | cons hn _ ih => exact List.forall_mem_cons.mpr ⟨hn.2 ▸ hts.1.isWord (.inl hn.1), ih hts.2⟩

theorem Source.isWord_aliasName (h : Source source q ts cl) :
    ∀ a ∈ q.aliasName, Token.isWord a = true := by
  have hts := (Token.readable_of_scan h.tokens).1
  obtain ⟨select, from', names, joins, filter, order, rfl, -, -, hnames, -⟩ := h.laid.tokens
  have hwords := hnames.isWord hts.of_append_right.of_append_right.of_append_right.of_append_left
  exact fun a ha => hwords a (List.mem_cons_of_mem _ (Option.mem_toList.mpr ha))

theorem Source.not_mem_projection (h : Source source q ts cl) (hroot : selectsRoot q = true) {c : Char}
    (hc : c ∈ [':', '?']) : c ∉ q.projection.toList := by
  intro hmem
  rw [selectsRoot, decide_eq_true_eq] at hroot
  rcases hroot with hstar | hsame
  · rw [hstar] at hmem
    obtain rfl : c = '*' := by simpa using hmem
    exact absurd hc (by decide)
  · cases ha : q.aliasName with
    | none => simp [ha] at hsame
    | some a =>
      obtain ⟨hblank, hlower, hchar⟩ : Text.isBlank c = false ∧ c.toLower = c ∧
          Token.isWordChar c = false := by
        rcases List.mem_pair.mp hc with rfl | rfl <;> decide
      rw [ha, Option.any_some, Text.sameName_iff, Text.trim, String.toList_ofList] at hsame
      obtain ⟨d, hd, hdc⟩ : ∃ d ∈ a.toList, d.toLower = c := by
        refine List.mem_map.mp ?_
        rw [hsame, ← hlower]
        exact List.mem_map_of_mem (Text.mem_trimBlanks hmem hblank)
      obtain rfl := Text.eq_of_toLower_eq hc hdc
      simp [Token.isWordChar_of_isWord (h.isWord_aliasName a ha) d hd] at hchar

theorem parameterNames_eq_nil_iff : parameterNames ts = [] ↔ ∀ t ∈ ts, t.kind ≠ .parameter := by
  simp [parameterNames, List.filter_eq_nil_iff]

theorem Source.parameterNames_projection (h : Source source q ts cl) (hroot : selectsRoot q = true) :
    parameterNames cl.projection = [] := by
  refine parameterNames_eq_nil_iff.mpr fun t ht hk => ?_
  refine h.not_mem_projection hroot (c := ':') (by decide) ?_
  rw [h.laid.projection]
  exact Token.mem_join ht (by simp [Token.source, hk])

def parametersOf (fs : List Fragment) : List String := fs.filterMap Fragment.parameter?

theorem Renders.parametersOf_eq {fs : List Fragment} (h : Renders scope ts fs) :
    parametersOf fs = parameterNames ts := h.parameters

@[simp] theorem parametersOf_nil : parametersOf [] = [] := rfl

@[simp] theorem parametersOf_text (s : String) (fs : List Fragment) :
    parametersOf (.text s :: fs) = parametersOf fs := rfl

theorem parametersOf_append (fs gs : List Fragment) :
    parametersOf (fs ++ gs) = parametersOf fs ++ parametersOf gs := List.filterMap_append

theorem parametersOf_tables (tables : List TableJoin) :
    parametersOf (tables.flatMap TableJoin.fragments) =
      tables.flatMap fun t => parametersOf t.condition := by
  rw [parametersOf, List.filterMap_flatMap]
  rfl

theorem JoinRenders.parameters {j : Join} {a : JoinAnswer} {c : Option Tokens} {tables : List TableJoin}
    (h : JoinRenders scope j a c tables) :
    (tables.flatMap fun t => parametersOf t.condition) = c.toList.flatMap parameterNames := by
  cases h with
  | explicit _ hfs => simp [hfs.parametersOf_eq]
  | associated => simp [TableJoin.ofStep]
  | asking _ hfs => simp [TableJoin.ofStep, parametersOf_append, hfs.parametersOf_eq]

theorem JoinsRender.parameters {l : List (Join × JoinAnswer)} {cs : List (Option Tokens)}
    {blocks : List (List TableJoin)} (h : JoinsRender scope l cs blocks) :
    (blocks.flatten.flatMap fun t => parametersOf t.condition) =
      cs.reduceOption.flatMap parameterNames := by
  induction h with
  | nil => rfl
  | @cons scope j a rest c cs tables more hj _ ih =>
    rw [List.flatten_cons, List.flatMap_append, hj.parameters, ih]
    cases c <;> simp

theorem Translates.parameters (h : q.Translates x cl st)
    (hroot : selectsRoot q = true → parameterNames cl.projection = []) :
    parametersOf st.fragments = cl.all.flatMap parameterNames := by
  have hoption {keyword : String} {c : Option Tokens} {fs : Option (List Fragment)}
      (hc : Option.Rel (Renders (q.fullScope x)) c fs) :
      parametersOf (fs.elim [] (.text keyword :: ·)) = c.toList.flatMap parameterNames := by
    cases hc with
    | none => rfl
    | some hts => simpa using hts.parametersOf_eq
  have hprojection : parametersOf st.projection = parameterNames cl.projection := by
    have hprojection := h.projection
    split at hprojection
    · rename_i hselects
      rw [hprojection, hroot hselects]
      rfl
    · exact hprojection.parametersOf_eq
  simp only [Statement.fragments, parametersOf_append, hprojection, parametersOf_tables,
    h.joins.parameters, hoption h.filter, hoption h.order, Clauses.all, List.flatMap_cons,
    List.reduceOption_append, List.flatMap_append]
  cases cl.filter <;> cases cl.order <;> simp

theorem Laid.parameterNames_eq (h : Laid ts q cl) :
    parameterNames ts = cl.all.flatMap parameterNames := by
  have hplain (t : Token) (ht : IsPlain t) : decide (t.kind = .parameter) = false := by
    rcases ht with hk | hdot
    · simp [hk]
    · simpa using kind_of_isMark hdot
  rw [parameterNames, h.filter_eq hplain, List.map_flatMap]
  rfl

theorem isWord_parameterNames (h : Readable ts) : ∀ name ∈ parameterNames ts, Token.isWord name = true := by
  intro name hname
  obtain ⟨t, ht, rfl⟩ := List.mem_map.mp hname
  obtain ⟨ht, hk⟩ := List.mem_filter.mp ht
  exact h.forall_mem (P := fun t => t.kind = .parameter → Token.isWord t.text = true)
    (fun t rest hreads hk => hreads.isWord (.inr hk)) t ht (by simpa using hk)

end ObjectQuery

namespace BoundQuery

open ObjectQuery (Compiled)

variable {name : String} {calls : List (String × Value)} {b : BoundQuery}

/-- The values bound one after the other. -/
def setParameters (b : BoundQuery) (calls : List (String × Value)) : BoundQuery :=
  calls.foldl (fun b call => b.setParameter call.1 call.2) b

/-- The value bound last under a name, with or without a colon in front of it. -/
def lastBound (name : String) (calls : List (String × Value)) : Option Value :=
  calls.reverse.findSome? fun call =>
    if call.1 = name ∨ call.1 = ":" ++ name then some call.2 else none

theorem lastBound_concat (name : String) (calls : List (String × Value)) (call : String × Value) :
    lastBound name (calls ++ [call]) =
      (if call.1 = name ∨ call.1 = ":" ++ name then some call.2 else none).or (lastBound name calls) := by
  rw [lastBound, List.reverse_append, List.reverse_singleton, List.singleton_append, List.findSome?_cons]
  split <;> simp_all [lastBound]

theorem parameterName_eq_iff {s : String} (h : Token.isWord name = true) :
    parameterName s = name ↔ s = name ∨ s = ":" ++ name := by
  have hcolon : s = ":" ++ name ↔ s.toList = ':' :: name.toList := by
    rw [← String.toList_inj, String.toList_append]
    rfl
  have hname : ∀ rest, name.toList ≠ ':' :: rest := fun rest hrest => by
    have hchar := Token.isWordChar_of_isWord h ':' (by simp [hrest])
    exact absurd hchar (by decide)
  rw [parameterName, hcolon]
  split
  · rename_i rest hs
    have hne : s ≠ name := fun hs' => hname rest (hs' ▸ hs)
    rw [hs, ← String.toList_inj, String.toList_ofList]
    simp [hne]
  · rename_i hs
    exact ⟨.inl, fun h => h.resolve_right (hs _)⟩

theorem setParameters_concat (b : BoundQuery) (calls : List (String × Value)) (call : String × Value) :
    b.setParameters (calls ++ [call]) = (b.setParameters calls).setParameter call.1 call.2 :=
  List.foldl_concat ..

theorem setParameters_query (b : BoundQuery) (calls : List (String × Value)) :
    (b.setParameters calls).root = b.root ∧ (b.setParameters calls).compiled = b.compiled := by
  induction calls using List.reverseRecOn with
  | nil => exact ⟨rfl, rfl⟩
  | append_singleton calls call ih => rwa [setParameters_concat]

theorem get?_setParameters (h : Token.isWord name = true) (b : BoundQuery) (calls : List (String × Value)) :
    (b.setParameters calls).values.get? name = (lastBound name calls).or (b.values.get? name) := by
  -- from the last call backwards, as the last one decides
  induction calls using List.reverseRecOn with
  | nil => rfl
  | append_singleton calls call ih =>
    rw [setParameters_concat, lastBound_concat, setParameter, OrderedMap.get?_insert, ih]
    simp only [parameterName_eq_iff h]
    split <;> simp

end BoundQuery

namespace ObjectQuery.Compiled

variable {c : Compiled} {values : OrderedMap String Value}

theorem mapM_eq_ok_iff {α β : Type} {f : α → Except Error β} {xs : List α} {ys : List β} :
    xs.mapM f = .ok ys ↔ List.Forall₂ (fun x y => f x = .ok y) xs ys := by
  induction xs generalizing ys with
  | nil =>
    rw [List.mapM_nil, List.forall₂_nil_left_iff]
    exact ⟨fun h => (Except.ok.inj h).symm, fun h => congrArg Except.ok h.symm⟩
  | cons x xs ih =>
    rw [List.mapM_cons]
    constructor
    · intro h
      obtain ⟨y, hy, h⟩ := bind_eq_ok h
      obtain ⟨zs, hzs, h⟩ := bind_eq_ok h
      obtain rfl := Except.ok.inj h
      exact .cons hy (ih.mp hzs)
    · rintro (_ | ⟨hy, hzs⟩)
      rw [hy, ih.mpr hzs]
      rfl

theorem bind_eq_ok_iff {vs : List Value} :
    c.bind values = .ok vs ↔ c.parameters.map values.get? = vs.map some := by
  rw [bind, mapM_eq_ok_iff, ← List.forall₂_eq_eq_eq, List.forall₂_map_left_iff, List.forall₂_map_right_iff]
  constructor <;> refine fun h => h.imp fun name v hv => ?_
  · split at hv
    · rename_i hname
      rw [hname, Except.ok.inj hv]
    · simp at hv
  · rw [hv]

theorem bind_of_unbound {name : String} (hname : name ∈ c.parameters) (h : values.get? name = none) :
    ∃ first ∈ c.parameters, values.get? first = none ∧
      c.bind values = .error (.query (.unboundParameter first) c.sql) := by
  rw [bind]
  generalize c.parameters = names at hname
  induction names with
  | nil => simp at hname
  | cons first names ih =>
    rw [List.mapM_cons]
    cases hv : values.get? first with
    | none => exact ⟨first, List.mem_cons_self, hv, rfl⟩
    | some v =>
      have hmem : name ∈ names := (List.mem_cons.mp hname).resolve_left fun heq => by simp [← heq, h] at hv
      obtain ⟨other, hother, hnone, herror⟩ := ih hmem
      refine ⟨other, List.mem_cons_of_mem _ hother, hnone, ?_⟩
      rw [herror]
      rfl

end ObjectQuery.Compiled

namespace BoundQuery

/-- The ways to run a query. -/
inductive Execution
  | rows
  | results (type : EntityType)
  | singleResult (type : EntityType)
  | scalar

def Execution.type? : Execution → Option EntityType
  | rows | scalar => none
  | results type | singleResult type => some type

section Runs

variable {σ : Type} {m t : Manager (Recorded σ)}

/-- The type that is asked for is registered, and its class is described. -/
def Execution.Described (m : Manager σ) (x : Execution) : Prop :=
  ∀ type ∈ x.type?, m.registry.isRegistered type.className = true ∧
    ∃ md, m.registry.view type.className = .ok md

/-- The type that is asked for is of the class that the query selects from. -/
def Execution.Fits (b : BoundQuery) (m : Manager σ) (x : Execution) : Prop :=
  ∀ type ∈ x.type?, ∀ md, m.registry.view type.className = .ok md → md.className = b.root

inductive Ended (b : BoundQuery) (x : Execution) (m t : Manager (Recorded σ)) : Option Error → Prop
  | sent {vs : List Value} {failure e : Option Error} : b.parameters = .ok vs →
      t.session.connection.calls = m.session.connection.calls ++ [⟨.query b.sql vs, failure⟩] →
      Ended b x m t e
  | unbound {e : Error} : b.parameters = .error e →
      t.session.connection.calls = m.session.connection.calls → Ended b x m t (some e)
  | misfit {type : EntityType} : ¬ x.Fits b m →
      t.session.connection.calls = m.session.connection.calls →
      Ended b x m t (some (.query (.wrongRoot b.root type.className) b.sql))
  | undescribed {e : Error} : ¬ x.Described m →
      t.session.connection.calls = m.session.connection.calls → Ended b x m t (some e)

variable {b : BoundQuery} {x : Execution}

theorem Ended.of_ok (h : Ended b x m t none) (e : Error) : Ended b x m t (some e) := by
  cases h with
  | sent hvs hcalls => exact .sent hvs hcalls

/-- The query was sent once, with these values. -/
def SentOnce (sql : String) (vs : List Value) (m t : Manager (Recorded σ)) : Prop :=
  ∃ failure, t.session.connection.calls = m.session.connection.calls ++ [⟨.query sql vs, failure⟩]

theorem Ended.sentOnce {vs : List Value} {e : Option Error} (h : Ended b x m t e)
    (hvs : b.parameters = .ok vs) (hx : x.Described m) (hfits : x.Fits b m) : SentOnce b.sql vs m t := by
  cases h with
  | sent hvs' hcalls =>
    obtain rfl := Except.ok.inj (hvs.symm.trans hvs')
    exact ⟨_, hcalls⟩
  | unbound he => simp [hvs] at he
  | misfit hnot => exact absurd hfits hnot
  | undescribed hnot => exact absurd hx hnot

theorem Ended.unsent {e : Error} {failure : Option Error} (h : Ended b x m t failure)
    (he : b.parameters = .error e) (hk : e.kind = .query) : ∃ e', failure = some e' ∧
      (x.Described m → e'.kind = .query) ∧
      t.session.connection.calls = m.session.connection.calls := by
  cases h with
  | sent hvs => simp [he] at hvs
  | unbound he' hcalls =>
    obtain rfl := Except.error.inj (he.symm.trans he')
    exact ⟨_, rfl, fun _ => hk, hcalls⟩
  | misfit _ hcalls => exact ⟨_, rfl, fun _ => rfl, hcalls⟩
  | undescribed hnot hcalls => exact ⟨_, rfl, fun hx => absurd hx hnot, hcalls⟩

theorem post_metadata_view (type : EntityType) (m : Manager σ) : (Manager.metadata type).Post
    (fun md t => m.registry.view type.className = .ok md ∧ t.session = m.session)
    (fun _ t => ¬ (Execution.results type).Described m ∧ t.session = m.session) m := by
  rw [Manager.metadata, Action.post_bind, Action.post_get, Action.post_ite]
  refine ⟨fun _ => ?_, fun hnot => ⟨fun hx => hnot (hx type rfl).1, rfl⟩⟩
  rw [Manager.onRegistry, Action.post_onPart]
  refine (ObjectQuery.post_describe type.className m.registry).mono (fun md r hr => ⟨hr.1, rfl⟩) ?_
  refine fun e r he => ⟨fun hx => ?_, rfl⟩
  obtain ⟨-, md, hmd⟩ := hx type rfl
  simp [hmd] at he

theorem post_hydrateAll (type : EntityType) (md : Schema.Metadata) (rows : List Row) (m : Manager σ) :
    (Manager.hydrateAll type md rows).Post (fun _ t => t = m) (fun _ t => t = m) m := by
  induction rows with
  | nil => rfl
  | cons row rest ih =>
    rw [Manager.hydrateAll, Action.post_bind, Action.post_get]
    rcases (md.hydrate row).run (m.heap.fresh type) with ⟨outcome, x⟩
    simp only [Action.post_bind, Action.post_liftExcept, Action.post_pure]
    exact ⟨fun _ _ => ih, fun _ _ => trivial⟩

variable [Connection σ]

def Execution.run (b : BoundQuery) : Execution → ManagerM σ Unit
  | rows => discard b.rows
  | results type => discard (b.results type)
  | singleResult type => discard (b.singleResult type)
  | scalar => discard b.scalar

theorem post_rows (b : BoundQuery) (x : Execution) (h : t.session = m.session) :
    b.rows.Post (fun _ u => Ended b x m u none) (fun e u => Ended b x m u (some e)) t := by
  simp only [rows, Action.post_bind, Action.post_liftExcept, Action.post_explain]
  refine ⟨fun vs hvs => ?_, fun e he => .unbound he (h ▸ rfl)⟩
  rw [Manager.post_onSession, Session.post_query, h]
  exact (Recorded.post_calls (.query b.sql vs) (Connection.query b.sql vs) m.session.connection).mono
    (fun _ _ hc => .sent hvs hc) fun _ _ hc => .sent hvs hc

theorem post_results {type : EntityType} (hx : x.type? = some type) :
    (b.results type).Post (fun _ t => Ended b x m t none) (fun e t => Ended b x m t (some e)) m := by
  rw [results, Action.post_bind]
  refine (post_metadata_view type m).mono (fun md t ht => ?_) fun e t ht => ?_
  swap
  · refine .undescribed (fun h => ht.1 fun type' htype => ?_) (ht.2 ▸ rfl)
    obtain rfl := Option.some.inj htype
    exact h type hx
  obtain ⟨hview, hsession⟩ := ht
  dsimp only
  split
  · rename_i hne
    exact .misfit (fun hfits => hne (hfits type hx _ hview)) (hsession ▸ rfl)
  · rw [Action.post_bind]
    refine (post_rows b x hsession).mono (fun rows u hu => ?_) fun e u hu => hu
    refine (post_hydrateAll type md rows u).mono (fun _ v hv => ?_) fun e v hv => ?_
    · exact hv ▸ hu
    · exact hv ▸ hu.of_ok e

theorem Execution.post_run (b : BoundQuery) (x : Execution) (m : Manager (Recorded σ)) :
    (x.run b).Post (fun _ t => Ended b x m t none) (fun e t => Ended b x m t (some e)) m := by
  cases x with
  | rows => exact (Action.post_discard _).mpr (post_rows b _ rfl)
  | results type => exact (Action.post_discard _).mpr (post_results rfl)
  | singleResult type =>
    refine (Action.post_discard _).mpr ?_
    rw [BoundQuery.singleResult, Action.post_bind]
    refine (post_results rfl).mono (fun found t ht => ?_) fun _ _ ht => ht
    split
    · exact ht.of_ok _
    · exact ht
  | scalar =>
    refine (Action.post_discard _).mpr ?_
    rw [BoundQuery.scalar, Action.post_bind]
    refine (post_rows b _ rfl).mono (fun rows t ht => ?_) fun _ _ ht => ht
    split
    · exact ht
    · exact ht
    · exact ht.of_ok _

end Runs

open ObjectQuery (Compiled Source parameterNames)

/-- The parameters of a compiled query are those of its text, clause by clause. However values are
bound, the query is sent once with the last value of each parameter in its place; or, if one has none,
it is not sent and fails. -/
theorem sends_last_values {source : String} {q : ObjectQuery} {c : Compiled} {r r' s s' : Schema.Registry}
    (hparse : (ObjectQuery.parse source).run r = (.ok q, r'))
    (hcompile : (ObjectQuery.compile q).run s = (.ok c, s')) :
    ∃ ts cl, Source source q ts cl ∧ c.parameters = cl.all.flatMap parameterNames ∧
      c.parameters = parameterNames ts ∧
      ∀ (σ : Type) [Connection σ] (calls : List (String × Value)) (m : Manager (Recorded σ))
        (x : Execution),
          let b : BoundQuery := setParameters { root := q.root, compiled := c } calls
          (∀ vs, c.parameters.map (lastBound · calls) = vs.map some → x.Described m → x.Fits b m →
            (x.run b).Post (fun _ t => SentOnce c.sql vs m t) (fun _ t => SentOnce c.sql vs m t) m) ∧
          ∀ name ∈ c.parameters, lastBound name calls = none →
            (x.run b).Post (fun _ _ => False) (fun e t => (x.Described m → e.kind = .query) ∧
              t.session.connection.calls = m.session.connection.calls) m := by
  obtain ⟨ts, cl, hsource⟩ := ObjectQuery.exists_source hparse
  obtain ⟨-, y, st, hy, hst, rfl⟩ := (ObjectQuery.post_compile hsource s).of_run_ok hcompile
  have htranslates := ObjectQuery.translates_of_statement hsource.spelled hy hst
  have hparameters : (Compiled.ofFragments st.fragments).parameters = cl.all.flatMap parameterNames :=
    htranslates.parameters hsource.parameterNames_projection
  have htokens : (Compiled.ofFragments st.fragments).parameters = parameterNames ts :=
    hparameters.trans hsource.laid.parameterNames_eq.symm
  refine ⟨ts, cl, hsource, hparameters, htokens, fun σ _ calls m x => ?_⟩
  generalize Compiled.ofFragments st.fragments = c at htokens
  intro b
  have hcompiled : b.compiled = c := (setParameters_query _ calls).2
  have hvalue : ∀ name ∈ c.parameters, b.values.get? name = lastBound name calls := fun name hname => by
    have hword := ObjectQuery.isWord_parameterNames (Token.readable_of_scan hsource.tokens).1 name
      (htokens ▸ hname)
    rw [get?_setParameters hword]
    exact Option.or_none
  have hended := Execution.post_run b x m
  refine ⟨fun vs hvs hx hfits => ?_, fun name hname hnone => ?_⟩
  · have hbound : b.parameters = .ok vs := by
      rw [parameters, hcompiled, Compiled.bind_eq_ok_iff, ← hvs]
      exact List.map_congr_left hvalue
    rw [← hcompiled]
    exact hended.mono (fun _ t ht => ht.sentOnce hbound hx hfits) fun _ t ht => ht.sentOnce hbound hx hfits
  · obtain ⟨first, -, -, hunbound⟩ := Compiled.bind_of_unbound hname ((hvalue name hname).trans hnone)
    have hbound : b.parameters = .error (.query (.unboundParameter first) c.sql) := by
      rw [parameters, hcompiled, hunbound]
    refine hended.mono (fun _ t ht => ?_) fun e t ht => ?_
    · obtain ⟨e, he, -⟩ := ht.unsent hbound rfl
      simp at he
    · obtain ⟨e', he', hk, hcalls⟩ := ht.unsent hbound rfl
      obtain rfl := Option.some.inj he'
      exact ⟨hk, hcalls⟩

def users : String :=
  "SELECT u FROM User u WHERE u.name = :name AND u.id > :id OR u.name <> ':id' AND u.name = :name"

def usersRead : ObjectQuery where
  projection := "u"
  root := "User"
  aliasName := some "u"
  joins := []
  filter := some "u.name = :name AND u.id > :id OR u.name <> ':id' AND u.name = :name"
  order := none
  aliases := .ofList [("u", "User")]

def usersCompiled : Compiled where
  sql := "SELECT u.id, u.name FROM users u WHERE u.name = ? AND u.id > ? OR u.name <> ':id' AND u.name = ?"
  parameters := ["name", "id", "name"]

def usersManager : Manager (Recorded Sample.Scripted) :=
  Sample.manager [] ⟨{ rows := [[Sample.userRow (.int 7) "bob"]] }, []⟩

theorem parse_users : (ObjectQuery.parse users).run usersManager.registry =
    (.ok usersRead, ((ObjectQuery.parse users).run usersManager.registry).2) := by
  refine Action.run_eq_of_fst ?_
  rw [users, ObjectQuery.parse_ofList (by decide)]
  decide +kernel

theorem compile_users : (ObjectQuery.compile usersRead).run usersManager.registry =
    (.ok usersCompiled, ((ObjectQuery.compile usersRead).run usersManager.registry).2) := by
  refine Action.run_eq_of_fst ?_
  decide +kernel

theorem sends_last_values_users :
    ((ObjectQuery.parse users).run usersManager.registry).1 = .ok usersRead ∧
    ((ObjectQuery.compile usersRead).run usersManager.registry).1 = .ok usersCompiled ∧
    (Execution.run (setParameters { root := "User", compiled := usersCompiled }
        [("name", .text "ann"), (":id", .int 3), ("unused", .null), (":name", .text "bob")])
      (.results Sample.user)).Post
        (fun _ t => SentOnce usersCompiled.sql [.text "bob", .int 3, .text "bob"] usersManager t)
        (fun _ t => SentOnce usersCompiled.sql [.text "bob", .int 3, .text "bob"] usersManager t)
        usersManager ∧
    (Execution.run (setParameters { root := "User", compiled := usersCompiled } [("name", .text "ann")])
      .rows).Post (fun _ _ => False) (fun e t => e.kind = .query ∧
        t.session.connection.calls = usersManager.session.connection.calls) usersManager := by
  obtain ⟨ts, cl, -, -, -, hsends⟩ := sends_last_values parse_users compile_users
  have hview : usersManager.registry.view "User" = .ok Sample.userMetadata := rfl
  refine ⟨congrArg Prod.fst parse_users, congrArg Prod.fst compile_users, ?_, ?_⟩
  · refine (hsends Sample.Scripted _ usersManager (.results Sample.user)).1 _ (by decide) ?_ ?_
    · rintro _ ⟨⟩
      exact ⟨by decide, _, hview⟩
    · rintro _ ⟨⟩ md hmd
      obtain rfl := Except.ok.inj (hview.symm.trans hmd)
      rfl
  · have hunbound := (hsends Sample.Scripted [("name", .text "ann")] usersManager .rows).2 "id"
      (by decide) (by decide)
    exact hunbound.mono (fun _ _ h => h) fun e t ht => ⟨ht.1 fun _ h => by simp [Execution.type?] at h, ht.2⟩

end BoundQuery
end Persistence
