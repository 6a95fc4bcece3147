import Mathlib.Data.List.Dedup
import Persistence.Proofs.SharedCache

/-!
What a cache of queries has to account for. Whoever uses it, through whatever handle, its counters,
its entries and its answers are those of its past: of the parses since it was last cleared, and of
what the first of them that succeeded has answered for each text.
-/

namespace Persistence.ObjectQuery

open Schema (Registry)

namespace Cache

/-- What a cache can be used for, by any of those that hold it. -/
inductive Use
  | parse (source : String) (r : Registry)
  | contains (source : String)
  | clear

/-- A use with its answer. -/
inductive Event
  | parsed (source : String) (r : Registry) (answer : Except Error Shared)
  | asked (source : String) (answer : Bool)
  | cleared

structure Past where
  events : List Event := []
  cache : Cache := .empty

def Past.extend (p : Past) : Use → Past
  | .parse source r =>
    ⟨.parsed source r (p.cache.parse source r).1 :: p.events, (p.cache.parse source r).2.1⟩
  | .contains source => ⟨.asked source (p.cache.contains source) :: p.events, p.cache⟩
  | .clear => ⟨.cleared :: p.events, p.cache.clear⟩

/-- The past of a cache that has been used in this order. -/
def past (uses : List Use) : Past := uses.foldl Past.extend {}

/-- The events after the last clear. -/
def sinceClear : List Event → List Event
  | [] => []
  | .parsed source r answer :: earlier => .parsed source r answer :: sinceClear earlier
  | .asked source answer :: earlier => .asked source answer :: sinceClear earlier
  | .cleared :: _ => []

def Event.text? : Event → Option String
  | .parsed source _ (.ok _) => some (Text.trim source)
  | _ => none

def texts (events : List Event) : List String := events.filterMap Event.text?

/-- The latest event is a parse of a text that had been parsed with success before. -/
def isHit : List Event → Bool
  | .parsed source _ _ :: earlier => decide (Text.trim source ∈ texts earlier)
  | _ => false

/-- The latest event is a parse of a text that had not been parsed with success before. -/
def isMiss : List Event → Bool
  | .parsed source _ _ :: earlier => decide (Text.trim source ∉ texts earlier)
  | _ => false

/-- The answer of the first successful parse of a text. -/
def FirstAnswer (events : List Event) (key : String) (shared : Shared) : Prop :=
  ∃ newer source r older, events = newer ++ .parsed source r (.ok shared) :: older ∧
    Text.trim source = key ∧ key ∉ texts older

/-- The answer of an event is the one that its past leads to. A text that has been parsed since the
last clear is answered by the query object of then; another one is read by the registry at hand,
and makes an object that is like none before. -/
def Event.Follows (earlier : List Event) : Event → Prop
  | .parsed source r answer =>
    (Text.trim source ∈ texts (sinceClear earlier) →
      ∃ shared, FirstAnswer (sinceClear earlier) (Text.trim source) shared ∧ answer = .ok shared) ∧
    (Text.trim source ∉ texts (sinceClear earlier) →
      answer.map Shared.query = reading source r ∧
      ∀ shared, answer = .ok shared →
        ∀ text s other, .parsed text s (.ok other) ∈ earlier → other.number ≠ shared.number)
  | .asked source answer => answer = true ↔ Text.trim source ∈ texts (sinceClear earlier)
  | .cleared => True

variable {events : List Event} {e : Event} {key source : String} {shared : Shared} {c : Cache}

theorem mem_texts_iff : key ∈ texts events ↔
    ∃ source r shared, .parsed source r (.ok shared) ∈ events ∧ Text.trim source = key := by
  rw [texts, List.mem_filterMap]
  constructor
  · rintro ⟨e, he, htext⟩
    unfold Event.text? at htext
    split at htext
    · exact ⟨_, _, _, he, Option.some.inj htext⟩
    · simp at htext
  · rintro ⟨source, r, shared, he, rfl⟩
    exact ⟨_, he, rfl⟩

theorem firstAnswer_cons : FirstAnswer (e :: events) key shared ↔
    FirstAnswer events key shared ∨ key ∉ texts events ∧
      ∃ source r, e = .parsed source r (.ok shared) ∧ Text.trim source = key := by
  constructor
  · rintro ⟨newer, source, r, older, heq, hkey, hfresh⟩
    cases newer with
    | nil =>
      obtain ⟨rfl, rfl⟩ := List.cons.inj heq
      exact .inr ⟨hfresh, source, r, rfl, hkey⟩
    | cons e' newer =>
      obtain ⟨rfl, rfl⟩ := List.cons.inj heq
      exact .inl ⟨newer, source, r, older, rfl, hkey, hfresh⟩
  · rintro (⟨newer, source, r, older, rfl, hkey, hfresh⟩ | ⟨hfresh, source, r, rfl, hkey⟩)
    · exact ⟨e :: newer, source, r, older, rfl, hkey, hfresh⟩
    · exact ⟨[], source, r, events, rfl, hkey, hfresh⟩

theorem mem_texts_cons : key ∈ texts (e :: events) ↔
    key ∈ texts events ∨
      ∃ source r shared, e = .parsed source r (.ok shared) ∧ Text.trim source = key := by
  simp only [mem_texts_iff, List.mem_cons, eq_comm (b := e)]
  constructor
  · rintro ⟨source, r, shared, he | he, hkey⟩
    · exact .inr ⟨source, r, shared, he, hkey⟩
    · exact .inl ⟨source, r, shared, he, hkey⟩
  · rintro (⟨source, r, shared, he, hkey⟩ | ⟨source, r, shared, he, hkey⟩)
    · exact ⟨source, r, shared, .inr he, hkey⟩
    · exact ⟨source, r, shared, .inl he, hkey⟩

theorem exists_firstAnswer_iff : (∃ shared, FirstAnswer events key shared) ↔ key ∈ texts events := by
  induction events with
  | nil => simp [FirstAnswer, texts]
  | cons e earlier ih =>
    simp only [firstAnswer_cons, mem_texts_cons, exists_or, ih]
    by_cases hmem : key ∈ texts earlier
    · simp [hmem]
    · simp only [hmem, false_or, not_false_eq_true, true_and]
      exact ⟨fun ⟨shared, source, r, h⟩ => ⟨source, r, shared, h⟩,
        fun ⟨source, r, shared, h⟩ => ⟨shared, source, r, h⟩⟩

theorem FirstAnswer.mem (h : FirstAnswer events key shared) :
    ∃ source r, .parsed source r (.ok shared) ∈ events := by
  obtain ⟨newer, source, r, older, rfl, -, -⟩ := h
  exact ⟨source, r, by simp⟩

theorem sinceClear_subset (events : List Event) : sinceClear events ⊆ events := by
  fun_induction sinceClear events with
  | case1 => exact List.Subset.refl _
  | case2 source r answer earlier ih => exact List.cons_subset_cons _ ih
  | case3 source answer earlier ih => exact List.cons_subset_cons _ ih
  | case4 => exact List.nil_subset _

structure Keeps (events : List Event) (c : Cache) : Prop where
  hits : c.hits = (sinceClear events).tails.countP isHit
  misses : c.misses = (sinceClear events).tails.countP isMiss
  entries : ∀ key shared, c.entries.get? key = some shared ↔
    FirstAnswer (sinceClear events) key shared
  numbers : ∀ source r shared, .parsed source r (.ok shared) ∈ events → shared.number < c.read
  follows : ∀ e earlier, e :: earlier <:+ events → e.Follows earlier

theorem keeps_empty : Keeps [] .empty where
  hits := rfl
  misses := rfl
  entries key shared := by simp [empty, sinceClear, FirstAnswer]
  numbers := by simp
  follows e earlier h := by simp at h

namespace Keeps

theorem isSome_iff (h : Keeps events c) :
    (c.entries.get? key).isSome ↔ key ∈ texts (sinceClear events) := by
  simp only [Option.isSome_iff_exists, h.entries, exists_firstAnswer_iff]

theorem follows_cons (h : Keeps events c) (he : e.Follows events) :
    ∀ e' earlier, e' :: earlier <:+ e :: events → e'.Follows earlier := by
  intro e' earlier hsuffix
  rcases List.suffix_cons_iff.mp hsuffix with heq | hsuffix
  · obtain ⟨rfl, rfl⟩ := List.cons.inj heq
    exact he
  · exact h.follows e' earlier hsuffix

theorem parse_of_kept (h : Keeps events c) (r : Registry)
    (hkept : c.entries.get? (Text.trim source) = some shared) :
    Keeps (.parsed source r (.ok shared) :: events) { c with hits := c.hits + 1 } := by
  have hfirst := (h.entries _ _).mp hkept
  have hknown : Text.trim source ∈ texts (sinceClear events) := exists_firstAnswer_iff.mp ⟨_, hfirst⟩
  refine ⟨?_, ?_, fun key other => ?_, fun text s other hmem => ?_, h.follows_cons ?_⟩
  · simp [sinceClear, isHit, hknown, h.hits]
  · simp [sinceClear, isMiss, hknown, h.misses]
  · rw [sinceClear, firstAnswer_cons, h.entries]
    refine ⟨.inl, fun hor => hor.resolve_right ?_⟩
    rintro ⟨hfresh, text, s, heq, rfl⟩
    obtain ⟨rfl, -, -⟩ := Event.parsed.inj heq
    exact hfresh hknown
  · rcases List.mem_cons.mp hmem with heq | hmem
    · obtain ⟨-, -, hother⟩ := Event.parsed.inj heq
      obtain ⟨text, s, hearlier⟩ := hfirst.mem
      rw [Except.ok.inj hother]
      exact h.numbers text s shared (sinceClear_subset events hearlier)
    · exact h.numbers text s other hmem
  · exact ⟨fun _ => ⟨shared, hfirst, rfl⟩, fun hfresh => absurd hknown hfresh⟩

theorem parse_of_read (h : Keeps events c) {r : Registry} {q : ObjectQuery}
    (hnew : c.entries.get? (Text.trim source) = none) (hread : reading source r = .ok q) :
    Keeps (.parsed source r (.ok ⟨q, c.read⟩) :: events)
      { c with
        misses := c.misses + 1
        entries := c.entries.insert (Text.trim source) ⟨q, c.read⟩
        read := c.read + 1 } := by
  have hfresh : Text.trim source ∉ texts (sinceClear events) := by simp [← h.isSome_iff, hnew]
  refine ⟨?_, ?_, fun key other => ?_, fun text s other hmem => ?_, h.follows_cons ?_⟩
  · simp [sinceClear, isHit, hfresh, h.hits]
  · simp [sinceClear, isMiss, hfresh, h.misses]
  · rw [sinceClear, firstAnswer_cons, OrderedMap.get?_insert, ← h.entries]
    split
    · rename_i hkey
      subst hkey
      simp [hnew, hfresh, eq_comm]
    · rename_i hkey
      refine ⟨.inl, fun hor => hor.resolve_right ?_⟩
      rintro ⟨-, text, s, heq, hkey'⟩
      obtain ⟨rfl, -, -⟩ := Event.parsed.inj heq
      exact hkey hkey'
  · rcases List.mem_cons.mp hmem with heq | hmem
    · obtain ⟨-, -, hother⟩ := Event.parsed.inj heq
      rw [Except.ok.inj hother]
      exact Nat.lt_succ_self _
    · exact Nat.lt_succ_of_lt (h.numbers text s other hmem)
  · refine ⟨fun hknown => absurd hknown hfresh, fun _ => ⟨hread.symm, ?_⟩⟩
    rintro _ ⟨⟩ text s other hmem
    exact Nat.ne_of_lt (h.numbers text s other hmem)

theorem parse_of_unread (h : Keeps events c) {r : Registry} {err : Error}
    (hnew : c.entries.get? (Text.trim source) = none) (hread : reading source r = .error err) :
    Keeps (.parsed source r (.error err) :: events) { c with misses := c.misses + 1 } := by
  have hfresh : Text.trim source ∉ texts (sinceClear events) := by simp [← h.isSome_iff, hnew]
  refine ⟨?_, ?_, fun key other => ?_, fun text s other hmem => ?_, h.follows_cons ?_⟩
  · simp [sinceClear, isHit, hfresh, h.hits]
  · simp [sinceClear, isMiss, hfresh, h.misses]
  · simp [sinceClear, firstAnswer_cons, h.entries]
  · exact h.numbers text s other (by simpa using hmem)
  · exact ⟨fun hknown => absurd hknown hfresh, fun _ => ⟨hread.symm, by simp⟩⟩

theorem parse (h : Keeps events c) (source : String) (r : Registry) :
    Keeps (.parsed source r (c.parse source r).1 :: events) (c.parse source r).2.1 := by
  cases hkey : c.entries.get? (Text.trim source) with
  | some shared =>
    rw [Cache.parse_of_kept hkey]
    exact h.parse_of_kept r hkey
  | none =>
    rcases hrun : (ObjectQuery.parse (Text.trim source)).run r with ⟨err | q, t⟩
    · rw [Cache.parse_of_unread hkey hrun]
      exact h.parse_of_unread hkey (by rw [← reading_trim, reading, hrun])
    · rw [Cache.parse_of_read hkey hrun]
      exact h.parse_of_read hkey (by rw [← reading_trim, reading, hrun])

theorem contains (h : Keeps events c) (source : String) :
    Keeps (.asked source (c.contains source) :: events) c where
  hits := by simp [sinceClear, isHit, h.hits]
  misses := by simp [sinceClear, isMiss, h.misses]
  entries key shared := by
    rw [sinceClear, firstAnswer_cons, h.entries]
    simp
  numbers source r shared hmem := h.numbers source r shared (by simpa using hmem)
  follows := h.follows_cons h.isSome_iff

theorem clear (h : Keeps events c) : Keeps (.cleared :: events) c.clear where
  hits := rfl
  misses := rfl
  entries key shared := by simp [Cache.clear, sinceClear, FirstAnswer]
  numbers source r shared hmem := h.numbers source r shared (by simpa using hmem)
  follows := h.follows_cons trivial

/-- Every use keeps the accounts. -/
theorem extend {p : Past} (h : Keeps p.events p.cache) (use : Use) :
    Keeps (p.extend use).events (p.extend use).cache := by
  cases use with
  | parse source r => exact h.parse source r
  | contains source => exact h.contains source
  | clear => exact h.clear

theorem of_uses (uses : List Use) : Keeps (past uses).events (past uses).cache := by
  induction uses using List.reverseRecOn with
  | nil => exact keeps_empty
  | append_singleton uses use ih =>
    rw [past, List.foldl_append]
    exact ih.extend use

theorem size_eq (h : Keeps events c) : c.size = (texts (sinceClear events)).dedup.length := by
  have hperm : c.entries.keys.Perm (texts (sinceClear events)).dedup := by
    refine (List.perm_ext_iff_of_nodup c.entries.keys_nodup (List.nodup_dedup _)).mpr fun key => ?_
    rw [List.mem_dedup, ← h.isSome_iff, OrderedMap.get?_isSome_iff]
  rw [← hperm.length_eq, size, OrderedMap.size, OrderedMap.keys, List.length_map]

end Keeps

/-- However a cache has been used, it has counted the parses since the last clear by whether their
text had been parsed with success since, it has an entry for each text that has, and every parse
of such a text was answered by the object that the first of them made. A parse that failed was not
one of those, so it was counted as a miss and made no entry. -/
theorem past_accounts (uses : List Use) :
    (past uses).cache.hits = (sinceClear (past uses).events).tails.countP isHit ∧
    (past uses).cache.misses = (sinceClear (past uses).events).tails.countP isMiss ∧
    (past uses).cache.size = (texts (sinceClear (past uses).events)).dedup.length ∧
    (∀ source, (past uses).cache.contains source = true ↔
      Text.trim source ∈ texts (sinceClear (past uses).events)) ∧
    (∀ e earlier, e :: earlier <:+ (past uses).events → e.Follows earlier) ∧
    ∀ source r err earlier, .parsed source r (.error err) :: earlier <:+ (past uses).events →
      Text.trim source ∉ texts (sinceClear earlier) := by
  have h := Keeps.of_uses uses
  refine ⟨h.hits, h.misses, h.size_eq, fun source => h.isSome_iff, h.follows, ?_⟩
  intro source r err earlier hsuffix hknown
  obtain ⟨shared, -, heq⟩ := (h.follows _ _ hsuffix).1 hknown
  simp at heq

end Cache
end Persistence.ObjectQuery
