import Mathlib.Data.List.Induction
import Persistence.ObjectQuery.Cache
import Persistence.Proofs.Layout

/-!
A cache of read queries that several registries share. It keeps queries by their text alone, while
a query that joins an association holds the class that one registry gave for it. So the cache
answers what its first reader read, and what a reader without a cache would read as long as the
registry at hand leads the associations of the query to the classes it has.
-/

namespace Persistence

namespace Text

theorem trim_trim (s : String) : trim (trim s) = trim s := by
  refine trim_eq_self (fun c hc => ?_) fun c hc => ?_
  · rw [trim, String.toList_ofList] at hc
    exact not_isBlank_of_head? hc
  · rw [trim, String.toList_ofList] at hc
    exact not_isBlank_of_getLast? hc

end Text

namespace ObjectQuery

open Schema (Metadata Registry)

variable {source : String} {q : ObjectQuery} {r : Registry}

inductive Target (view : String → Except Error Metadata) (aliases : OrderedMap String String) :
    String ⊕ AssociationRef → String → Prop
  | named (className : String) : Target view aliases (.inl className) className
  | associated {a : AssociationRef} {source : String} {m : Metadata} {b : Schema.Association} :
      aliases.get? a.source = some source → view source = .ok m → m.association? a.name = some b →
      Target view aliases (.inr a) b.target

/-- The registry leads the association of the join, if it has one, to the class of the join. -/
def Join.LedBy (j : Join) (view : String → Except Error Metadata)
    (aliases : OrderedMap String String) : Prop :=
  ∀ a ∈ j.association, Target view aliases (.inr a) j.className

/-- The registry leads all associations of the query to the classes that the query has. -/
def LedBy (q : ObjectQuery) (view : String → Except Error Metadata) : Prop :=
  ∀ j ∈ q.joins, j.LedBy view q.aliases

def Gives {α : Type} (a : Schema.RegistryM α) (r : Registry) (x : α) : Prop :=
  a.Post (fun y _ => y = x) (fun _ _ => False) r

theorem gives_iff {α : Type} {a : Schema.RegistryM α} {x : α} :
    Gives a r x ↔ (a.run r).1 = .ok x := by
  rw [Gives, Action.Post]
  split
  · rename_i h
    rw [h, Except.ok.injEq]
  · rename_i h
    simp [h]

theorem gives_bind {α β : Type} {a : Schema.RegistryM α} {f : α → Schema.RegistryM β} {x : β} :
    Gives (a >>= f) r x ↔ ∃ y t, a.run r = (.ok y, t) ∧ Gives (f y) t x := by
  rw [Gives, Action.post_bind]
  constructor
  · intro h
    match hrun : a.run r with
    | (.ok y, t) => exact ⟨y, t, rfl, (Action.post_of_run_ok hrun).mp h⟩
    | (.error e, t) => exact ((Action.post_of_run_error hrun).mp h).elim
  · rintro ⟨y, t, hrun, h⟩
    exact (Action.post_of_run_ok hrun).mpr h

section Targets

variable {view view' : String → Except Error Metadata} {aliases later : OrderedMap String String}
  {target : String ⊕ AssociationRef} {c d : String}

theorem Target.unique (h : Target view aliases target c) (h' : Target view aliases target d) :
    c = d := by
  cases h with
  | named => cases h'; rfl
  | associated hsource hm hb =>
    cases h' with
    | associated hsource' hm' hb' =>
      obtain rfl := Option.some.inj (hsource.symm.trans hsource')
      obtain rfl := Except.ok.inj (hm.symm.trans hm')
      rw [Option.some.inj (hb.symm.trans hb')]

theorem Target.of_later (h : Target view later target c) (hfound : Target view' aliases target d)
    (hle : ∀ k v, aliases.get? k = some v → later.get? k = some v) :
    Target view aliases target c := by
  cases h with
  | named => exact .named _
  | associated hsource hm hb =>
    cases hfound with
    | associated hfound =>
      obtain rfl := Option.some.inj (hsource.symm.trans (hle _ _ hfound))
      exact .associated hfound hm hb

theorem Target.mono (h : Target view aliases target c)
    (hle : ∀ k v, aliases.get? k = some v → later.get? k = some v) :
    Target view later target c := by
  cases h with
  | named => exact .named _
  | associated hsource hm hb => exact .associated (hle _ _ hsource) hm hb

theorem Target.ledBy_iff {kind : JoinKind} {aliasName : String} {condition : Option String}
    (h : Target view' aliases target c) :
    (Join.mk kind c aliasName condition target.getRight?).LedBy view later ↔
      Target view later target c := by
  cases h with
  | named => simp [Join.LedBy, Target.named]
  | associated => simp [Join.LedBy]

end Targets

theorem post_resolve_target (aliases : OrderedMap String String) (ts : Tokens)
    (target : String ⊕ AssociationRef) (r : Registry) :
    (resolve aliases ts target).Post (fun c t => t.view = r.view ∧ Target r.view aliases target c)
      (fun _ _ => ∀ c, ¬ Target r.view aliases target c) r := by
  cases target with
  | inl className => exact ⟨rfl, .named className⟩
  | inr a =>
    simp only [resolve]
    cases hsource : aliases.get? a.source with
    | none =>
      rintro c ⟨⟩
      simp_all
    | some source =>
      dsimp only
      rw [Action.post_bind, Action.post_iff]
      refine ⟨fun m t ht => ?_, fun e t ht c hc => ?_⟩
      · obtain ⟨hfst, hsnd⟩ := Prod.mk.inj ht
        have hm : r.view source = .ok m := (Registry.describe_fst source r).symm.trans hfst
        have hview : t.view = r.view := hsnd ▸ Registry.view_describe_snd source r
        split
        · exact ⟨hview, .associated hsource hm ‹_›⟩
        · rintro c ⟨⟩
          simp_all
      · have he : r.view source = .error e :=
          (Registry.describe_fst source r).symm.trans (Prod.mk.inj ht).1
        cases hc
        simp_all

theorem gives_resolve_bind {α : Type} {aliases : OrderedMap String String} {ts : Tokens}
    {target : String ⊕ AssociationRef} {f : String → Schema.RegistryM α} {x : α} {P : String → Prop}
    (hf : ∀ c t, t.view = r.view → (Gives (f c) t x ↔ P c)) :
    Gives (resolve aliases ts target >>= f) r x ↔ ∃ c, Target r.view aliases target c ∧ P c := by
  obtain ⟨hok, herror⟩ := Action.post_iff.mp (post_resolve_target aliases ts target r)
  rw [gives_bind]
  constructor
  · rintro ⟨c, t, hrun, hx⟩
    obtain ⟨hview, hc⟩ := hok c t hrun
    exact ⟨c, hc, (hf c t hview).mp hx⟩
  · rintro ⟨c, hc, hP⟩
    match hrun : (resolve aliases ts target).run r with
    | (.ok d, t) =>
      obtain ⟨hview, hd⟩ := hok d t hrun
      obtain rfl := hc.unique hd
      exact ⟨c, t, rfl, (hf c t hview).mpr hP⟩
    | (.error e, t) => exact absurd hc (herror e t hrun c)

theorem gives_cons {a : Schema.RegistryM (List Join × OrderedMap String String × Tokens)}
    {j k : Join} {x : List Join × OrderedMap String String × Tokens} :
    Gives (a >>= fun y => pure (j :: y.1, y.2.1, y.2.2)) r (k :: x.1, x.2.1, x.2.2) ↔
      j = k ∧ Gives a r x := by
  rw [gives_bind, gives_iff]
  constructor
  · rintro ⟨y, t, hrun, hy⟩
    have hcons : (j :: y.1, y.2.1, y.2.2) = (k :: x.1, x.2.1, x.2.2) :=
      Except.ok.inj (gives_iff.mp hy)
    rw [Prod.mk.injEq, List.cons.injEq, Prod.mk.injEq] at hcons
    obtain ⟨⟨rfl, h₁⟩, h₂, h₃⟩ := hcons
    exact ⟨rfl, by rw [hrun, Prod.ext h₁ (Prod.ext h₂ h₃)]⟩
  · rintro ⟨rfl, hrun⟩
    exact ⟨x, (a.run r).2, Action.run_eq_of_fst hrun, rfl⟩

theorem JoinsRead.led {aliases aliases' : OrderedMap String String} {ts rest : Tokens}
    {joins : List Join} {t : Registry} (h : JoinsRead aliases ts r joins aliases' rest t) :
    (∀ k v, aliases.get? k = some v → aliases'.get? k = some v) ∧
      ∀ s, Gives (readJoins aliases ts) s (joins, aliases', rest) ↔
        ∀ j ∈ joins, j.LedBy s.view aliases' := by
  induction h with
  | done hk => exact ⟨fun _ _ h => h, fun s => by simp [readJoins_of_none hk, Gives]⟩
  | @join aliases aliases' _ start afterHead mid rest r u t kind head className c joins
      hk hh hu hc hfree _ ih =>
    obtain ⟨-, htarget⟩ := (post_resolve_target aliases _ head.target r).of_run_ok hu
    obtain ⟨hle, hled⟩ := ih
    have hwider : ∀ k v, aliases.get? k = some v → aliases'.get? k = some v := fun k v hkv => by
      refine hle k v ?_
      rw [OrderedMap.get?_insert, if_neg ?_, hkv]
      rintro rfl
      simp [OrderedMap.contains, hkv] at hfree
    refine ⟨hwider, fun s => ?_⟩
    rw [readJoins_of_join hk hh hc hfree, List.forall_mem_cons, htarget.ledBy_iff,
      gives_resolve_bind (P := fun d => d = className ∧ ∀ j ∈ joins, j.LedBy s.view aliases')]
    · constructor
      · rintro ⟨_, hd, rfl, hrest⟩
        exact ⟨hd.mono hwider, hrest⟩
      · rintro ⟨hhead, hrest⟩
        exact ⟨className, hhead.of_later htarget hwider, rfl, hrest⟩
    · intro d v hv
      have hcons := gives_cons (r := v) (a := readJoins (aliases.insert head.aliasName d) mid)
        (j := ⟨kind, d, head.aliasName, c, head.target.getRight?⟩)
        (k := ⟨kind, className, head.aliasName, c, head.target.getRight?⟩) (x := (joins, aliases', rest))
      refine hcons.trans ?_
      constructor
      · rintro ⟨hjoin, hx⟩
        obtain rfl : d = className := congrArg Join.className hjoin
        rw [← hv]
        exact ⟨rfl, (hled v).mp hx⟩
      · rintro ⟨rfl, hx⟩
        rw [← hv] at hx
        exact ⟨rfl, (hled v).mpr hx⟩

theorem QueryRead.ledBy {ts : Tokens} {t : Registry} (h : QueryRead ts r q t) : q.LedBy r.view := by
  obtain ⟨-, -, -, -, -, hjoins, -, -⟩ := h
  exact (hjoins.led.2 r).mp (gives_iff.mpr (by rw [hjoins.run_eq]))

theorem QueryRead.gives_iff_ledBy {ts : Tokens} {t : Registry} (h : QueryRead ts r q t)
    (s : Registry) : Gives (readTokens ts) s q ↔ q.LedBy s.view := by
  constructor
  · intro hgives
    exact ((post_readTokens ts s).of_run_ok (Action.run_eq_of_fst (gives_iff.mp hgives))).ledBy
  · intro hled
    obtain ⟨hselect, hprojection, hfrom, hroot, halias, hjoins, hfilter, horder⟩ := h
    have hrun := gives_iff.mp ((hjoins.led.2 s).mpr hled)
    simp only [readTokens, hselect, hprojection, hfrom, hroot, halias, Action.liftM_ok, pure_bind]
    refine gives_bind.mpr ⟨_, _, Action.run_eq_of_fst hrun, ?_⟩
    simp only [hfilter, horder, Action.liftM_ok, pure_bind]
    rfl

/-- What a text is read as by a registry. -/
def reading (source : String) (r : Registry) : Except Error ObjectQuery :=
  ((parse source).run r).1

theorem reading_trim (source : String) (r : Registry) :
    reading (Text.trim source) r = reading source r := by
  rw [reading, reading, parse, parse, Text.trim_trim]

/-- A text that one registry has read is read as the same query by those that lead its associations
to the same classes, and by no others. -/
theorem reading_eq_iff (h : reading source r = .ok q) (s : Registry) :
    reading source s = .ok q ↔ q.LedBy s.view := by
  rw [reading, ← gives_iff] at h ⊢
  obtain ⟨hne, ts, hts, hread⟩ := exists_read (Action.run_eq_of_fst (gives_iff.mp h))
  rw [parse, hne, if_neg (by simp), hts, Action.liftM_ok, pure_bind]
  exact hread.gives_iff_ledBy s

namespace Cache

/-- What the holders of a cache do with it, each with a registry of its own. -/
inductive Call
  | parse (source : String) (r : Registry)
  | clear

def Call.serve (c : Cache) : Call → Cache
  | .parse source r => (c.parse source r).2.1
  | .clear => c.clear

/-- The cache after the calls of all that hold it. -/
def after (calls : List Call) : Cache := calls.foldl Call.serve .empty

/-- What the cache answers. -/
def answer (c : Cache) (source : String) (r : Registry) : Except Error ObjectQuery :=
  (c.parse source r).1.map Shared.query

/-- What texts have been read as, after one more call. -/
def Call.note (known : String → Option ObjectQuery) : Call → String → Option ObjectQuery
  | .parse source r, key =>
    if key = Text.trim source then known key <|> (reading source r).toOption else known key
  | .clear, _ => none

/-- The query that a text was first read as since the cache was cleared. -/
def firstRead (calls : List Call) : String → Option ObjectQuery :=
  calls.foldl Call.note fun _ => none

variable {c : Cache} {known : String → Option ObjectQuery} {calls : List Call}

def queries (c : Cache) (key : String) : Option ObjectQuery :=
  (c.entries.get? key).map Shared.query

theorem parse_of_kept {shared : Shared} (h : c.entries.get? (Text.trim source) = some shared) :
    c.parse source r = (.ok shared, { c with hits := c.hits + 1 }, r) := by
  rw [Cache.parse]
  simp only [h]

theorem parse_of_read {t : Registry} (h : c.entries.get? (Text.trim source) = none)
    (hrun : (ObjectQuery.parse (Text.trim source)).run r = (.ok q, t)) : c.parse source r =
      (.ok ⟨q, c.read⟩,
        { c with
          misses := c.misses + 1
          entries := c.entries.insert (Text.trim source) ⟨q, c.read⟩
          read := c.read + 1 }, t) := by
  rw [Cache.parse]
  simp only [h, hrun]

theorem parse_of_unread {e : Error} {t : Registry} (h : c.entries.get? (Text.trim source) = none)
    (hrun : (ObjectQuery.parse (Text.trim source)).run r = (.error e, t)) :
    c.parse source r = (.error e, { c with misses := c.misses + 1 }, t) := by
  rw [Cache.parse]
  simp only [h, hrun]

theorem answer_eq (c : Cache) (source : String) (r : Registry) : c.answer source r =
    (c.queries (Text.trim source)).elim (reading source r) .ok := by
  rw [answer, queries, ← reading_trim, reading]
  cases hkey : c.entries.get? (Text.trim source) with
  | some shared =>
    rw [parse_of_kept hkey]
    rfl
  | none =>
    match hrun : (ObjectQuery.parse (Text.trim source)).run r with
    | (.ok q, t) =>
      rw [parse_of_read hkey hrun]
      rfl
    | (.error e, t) =>
      rw [parse_of_unread hkey hrun]
      rfl

theorem queries_serve (c : Cache) (call : Call) :
    (call.serve c).queries = call.note c.queries := by
  funext key
  cases call with
  | clear => rfl
  | parse source r =>
    rw [Call.serve, Call.note, ← reading_trim, reading]
    cases hkey : c.entries.get? (Text.trim source) with
    | some shared =>
      rw [parse_of_kept hkey]
      split
      · rename_i h
        simp [queries, h, hkey]
      · rfl
    | none =>
      rcases hrun : (ObjectQuery.parse (Text.trim source)).run r with ⟨e | q, t⟩
      · rw [parse_of_unread hkey hrun]
        simp [queries, Except.toOption]
      · rw [parse_of_read hkey hrun]
        simp only [queries, OrderedMap.get?_insert, eq_comm (a := key)]
        split
        · rename_i h
          rw [← h, hkey]
          rfl
        · rfl

theorem queries_after (calls : List Call) : (after calls).queries = firstRead calls := by
  induction calls using List.reverseRecOn with
  | nil => rfl
  | append_singleton calls call ih =>
    rw [after, firstRead, List.foldl_append, List.foldl_append]
    change (call.serve (after calls)).queries = call.note (firstRead calls)
    rw [queries_serve, ih]

theorem exists_of_firstRead {key : String} (h : firstRead calls key = some q) :
    ∃ source r, .parse source r ∈ calls ∧ Text.trim source = key ∧ reading source r = .ok q := by
  induction calls using List.reverseRecOn with
  | nil => simp [firstRead] at h
  | append_singleton calls call ih =>
    rw [firstRead, List.foldl_append] at h
    change call.note (firstRead calls) key = some q at h
    have hearlier : firstRead calls key = some q → ∃ source r, .parse source r ∈ calls ++ [call] ∧
        Text.trim source = key ∧ reading source r = .ok q := fun h => by
      obtain ⟨source, r, hmem, hread⟩ := ih h
      exact ⟨source, r, List.mem_append_left _ hmem, hread⟩
    cases call with
    | clear => simp [Call.note] at h
    | parse source r =>
      rw [Call.note] at h
      split at h
      · rename_i hkey
        cases hknown : firstRead calls key with
        | some q' => exact hearlier (by simpa [hknown] using h)
        | none =>
          refine ⟨source, r, by simp, hkey.symm, ?_⟩
          cases hread : reading source r <;> simp_all [Except.toOption]
      · exact hearlier h

/-- A shared cache answers what its caller would have read itself exactly if the caller's registry
leads the associations of the query, as it was first read, to the classes that it has. So it does
where the registries of all that have read the text answer alike. -/
theorem answer_after (calls : List Call) (source : String) (r : Registry) :
    ((after calls).answer source r = reading source r ↔
      ∀ q, firstRead calls (Text.trim source) = some q → q.LedBy r.view) ∧
    ((∀ text s, .parse text s ∈ calls → Text.trim text = Text.trim source → s.view = r.view) →
      (after calls).answer source r = reading source r) := by
  have hanswer : (after calls).answer source r = reading source r ↔
      ∀ q, firstRead calls (Text.trim source) = some q → q.LedBy r.view := by
    rw [answer_eq, queries_after]
    cases hfirst : firstRead calls (Text.trim source) with
    | none => simp
    | some q =>
      obtain ⟨text, s, -, htext, hread⟩ := exists_of_firstRead hfirst
      rw [← reading_trim, htext, reading_trim] at hread
      simp only [Option.elim_some, Option.some.injEq, forall_eq']
      rw [eq_comm, reading_eq_iff hread]
  refine ⟨hanswer, fun halike => hanswer.mpr fun q hq => ?_⟩
  obtain ⟨text, s, hmem, htext, hread⟩ := exists_of_firstRead hq
  rw [← halike text s hmem htext]
  exact (reading_eq_iff hread s).mp hread

end Cache

def pinnerMapping : Schema.Mapping :=
  { Sample.userMapping with
    associations := [⟨"posts", .oneToMany, "Note", some "author", none, false, false, none, none⟩] }

def pinboard : Registry :=
  (Registry.empty.register "User" pinnerMapping).register "Note" postMapping

def postsOfUsers : String := "SELECT p FROM User u JOIN u.posts p"

def postsRead (className : String) : ObjectQuery where
  projection := "p"
  root := "User"
  aliasName := some "u"
  joins := [⟨.inner, className, "p", none, some ⟨"u", "posts"⟩⟩]
  filter := none
  order := none
  aliases := .ofList [("u", "User"), ("p", className)]

theorem reading_postsOfUsers : reading postsOfUsers blog = .ok (postsRead "Post") ∧
    reading postsOfUsers pinboard = .ok (postsRead "Note") := by
  constructor
  · rw [reading, postsOfUsers, parse_ofList (by decide)]
    decide +kernel
  · rw [reading, postsOfUsers, parse_ofList (by decide)]
    decide +kernel

namespace Cache

theorem answer_after_blog :
    (after [.parse postsOfUsers blog, .clear, .parse postsOfUsers blog]).answer postsOfUsers blog =
      .ok (postsRead "Post") := by
  rw [← reading_postsOfUsers.1]
  refine (answer_after _ postsOfUsers blog).2 fun text s hmem _ => ?_
  obtain rfl : s = blog := by simp_all
  rfl

/-- A reader with another registry gets the classes of the first one. -/
theorem answer_after_other :
    (after [.parse postsOfUsers blog]).answer postsOfUsers pinboard = .ok (postsRead "Post") ∧
      reading postsOfUsers pinboard = .ok (postsRead "Note") ∧
      (after [.parse postsOfUsers blog]).answer postsOfUsers pinboard ≠
        reading postsOfUsers pinboard := by
  have hstale : (after [.parse postsOfUsers blog]).answer postsOfUsers pinboard =
      .ok (postsRead "Post") := by
    rw [answer_eq, queries_after]
    simp [firstRead, Call.note, reading_postsOfUsers.1, Except.toOption]
  refine ⟨hstale, reading_postsOfUsers.2, ?_⟩
  rw [hstale, reading_postsOfUsers.2]
  decide

end Cache

end ObjectQuery
end Persistence
