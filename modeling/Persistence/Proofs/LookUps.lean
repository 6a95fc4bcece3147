import Mathlib.Data.List.Induction
import Persistence.Proofs.Carrying
import Persistence.Proofs.Presence
import Persistence.Proofs.Spellings

/-!
Look-ups of several identifiers. Each of them is told by what the identity map and the look-ups
before it have of its key: an instance that is known is not selected again, and one that is not
known is, and is known from then on if it has a row.
-/

namespace Persistence

open Schema (Metadata Registry Snapshot)

namespace UnitOfWork

variable {w : UnitOfWork} {oid : Oid} {key : IdentityKey}

theorem find?_eq_some_iff : w.find? key = some oid ↔
    w.slots.get? key = some oid ∧ ∃ t, w.tracked.get? oid = some t := by
  rw [← Option.isSome_iff_exists, find?]
  cases hslot : w.slots.get? key with
  | none => simp
  | some j =>
    dsimp only
    constructor
    · intro h
      split at h
      · rename_i hj
        obtain rfl := Option.some.inj h
        exact ⟨rfl, hj⟩
      · simp at h
    · rintro ⟨hj, htracked⟩
      obtain rfl := Option.some.inj hj
      exact if_pos htracked

theorem Consistent.slots_of_find?_eq_none (h : w.Consistent) (hfree : w.find? key = none) :
    w.slots.get? key = none := by
  refine Option.eq_none_iff_forall_ne_some.mpr fun oid hslot => ?_
  obtain ⟨t, ht, -⟩ := exists_of_keyOf (h.keyOf_slot key oid hslot)
  simp [find?_eq_some_iff.mpr ⟨hslot, t, ht⟩] at hfree

theorem slots_track_of_free (hfree : w.tracked.get? oid = none) (md : Metadata)
    (s : Snapshot) (k : IdentityKey) :
    (w.track oid md key s).slots.get? k = if key = k then some oid else w.slots.get? k := by
  have hkey : w.keyOf oid = none := by rw [keyOf, hfree]; rfl
  rw [get?_slots_track, hkey]
  simp

theorem Consistent.find?_track (h : w.Consistent) (hfree : w.tracked.get? oid = none) (md : Metadata)
    (s : Snapshot) (k : IdentityKey) :
    (w.track oid md key s).find? k = if key = k then some oid else w.find? k := by
  have hsame : oid = w.slots.get? k → w.tracked.get? oid ≠ none := by
    intro hslot
    obtain ⟨t, ht, -⟩ := exists_of_keyOf (h.keyOf_slot k oid hslot.symm)
    simp [ht]
  refine Option.ext fun j => ?_
  rw [find?_eq_some_iff, slots_track_of_free hfree, get?_tracked_track]
  by_cases hk : key = k
  · simp only [hk, if_true, Option.some.injEq]
    refine and_iff_left_of_imp fun hj => ?_
    simp [hj]
  · rw [if_neg hk, if_neg hk, find?_eq_some_iff]
    refine and_congr_right fun hslot => ?_
    have hj : oid ≠ j := fun hj => hsame (hj ▸ hslot.symm) hfree
    rw [if_neg hj]

end UnitOfWork

namespace Manager

/-- A look-up with the key that its identifier spells. -/
structure LookUp where
  id : Identifier
  key : IdentityKey
  /-- The rows that the key has selected, if a select was issued for it. -/
  rows : Option (List Row)
  found : Option Oid

def known (w : UnitOfWork) (earlier : List LookUp) (key : IdentityKey) : Option Oid :=
  (w.find? key).or (earlier.findSome? fun l => if l.key = key then l.found else none)

/-- A look-up is the one that the identity map and the earlier look-ups lead to. -/
inductive LookUp.Follows (w : UnitOfWork) (earlier : List LookUp) : LookUp → Prop
  | known {id : Identifier} {key : IdentityKey} {oid : Oid} :
      known w earlier key = some oid → Follows w earlier ⟨id, key, none, some oid⟩
  | missing {id : Identifier} {key : IdentityKey} :
      Manager.known w earlier key = none → Follows w earlier ⟨id, key, some [], none⟩
  | loaded {id : Identifier} {key : IdentityKey} {row : Row} {rows : List Row} {oid : Oid} :
      Manager.known w earlier key = none → w.tracked.get? oid = none →
      (∀ l ∈ earlier, l.found ≠ some oid) →
      Follows w earlier ⟨id, key, some (row :: rows), some oid⟩

def Justified (w : UnitOfWork) (ls : List LookUp) : Prop :=
  ∀ earlier l later, ls = earlier ++ l :: later → l.Follows w earlier

def selects (ls : List LookUp) : List (IdentityKey × List Row) :=
  ls.filterMap fun l => l.rows.map fun rows => (l.key, rows)

variable {w : UnitOfWork} {ls earlier : List LookUp} {l : LookUp} {oid : Oid} {key : IdentityKey}

theorem known_concat (w : UnitOfWork) (ls : List LookUp) (l : LookUp) (key : IdentityKey) :
    known w (ls ++ [l]) key = (known w ls key).or (if l.key = key then l.found else none) := by
  rw [known, known, List.findSome?_append, Option.or_assoc]
  congr 2
  rw [List.findSome?_cons]
  split <;> simp_all

theorem known_concat_of_eq (hl : known w ls l.key = l.found) :
    known w (ls ++ [l]) key = known w ls key := by
  rw [known_concat]
  split
  · rename_i hkey
    rw [← hkey, hl, Option.or_self]
  · rw [Option.or_none]

namespace Justified

theorem nil (w : UnitOfWork) : Justified w [] := fun _ _ _ h => by simp at h

theorem of_concat (h : Justified w (ls ++ [l])) : Justified w ls ∧ l.Follows w ls := by
  refine ⟨fun earlier x later hx => ?_, h ls l [] rfl⟩
  exact h earlier x (later ++ [l]) (by simp [hx])

theorem concat (h : Justified w ls) (hl : l.Follows w ls) : Justified w (ls ++ [l]) := by
  intro earlier x later hx
  obtain ⟨rfl, rfl, -⟩ | ⟨more, -, hx⟩ := concat_eq_append_cons.mp hx
  · exact hl
  · exact h earlier x more hx

theorem known_of_found (h : Justified w ls) (hl : l ∈ ls) (hfound : l.found = some oid) :
    known w ls l.key = some oid := by
  induction ls using List.reverseRecOn with
  | nil => simp at hl
  | append_singleton ls x ih =>
    obtain ⟨hls, hx⟩ := h.of_concat
    rw [known_concat]
    rcases List.mem_append.mp hl with hl | hl
    · rw [ih hls hl, Option.some_or]
    · obtain rfl := List.mem_singleton.mp hl
      cases hx with
      | known hknown =>
        obtain rfl := Option.some.inj hfound
        rw [hknown, Option.some_or]
      | missing => simp at hfound
      | loaded hknown =>
        obtain rfl := Option.some.inj hfound
        simp [hknown]

theorem pairwise (h : Justified w ls) : ls.Pairwise fun l l' => l.key = l'.key →
    ∀ oid, l.found = some oid → l'.found = some oid ∧ l'.rows = none := by
  induction ls using List.reverseRecOn with
  | nil => exact List.Pairwise.nil
  | append_singleton ls x ih =>
    obtain ⟨hls, hx⟩ := h.of_concat
    refine List.pairwise_append.mpr ⟨ih hls, List.pairwise_singleton _ _, fun l hl l' hl' => ?_⟩
    obtain rfl := List.mem_singleton.mp hl'
    intro hkey oid hfound
    have hknown := hls.known_of_found hl hfound
    rw [hkey] at hknown
    cases hx with
    | known hx => exact ⟨hx.symm.trans hknown, rfl⟩
    | missing hx | loaded hx => simp [hx] at hknown

end Justified

section Connections

variable {σ : Type} [Connection σ] {md : Metadata} {c c' c'' : σ} {row : Option Row}

/-- From one state of the connection to the other the keys are selected one after the other, with
these answers. -/
inductive Answers (md : Metadata) : σ → List (IdentityKey × List Row) → σ → Prop
  | done (c : σ) : Answers md c [] c
  | select {c c' c'' : σ} {key : IdentityKey} {rows : List Row} {rest : List (IdentityKey × List Row)} :
      (Connection.query (key.select md).sql (key.select md).parameters).run c = (.ok rows, c') →
      Answers md c' rest c'' → Answers md c ((key, rows) :: rest) c''

theorem Answers.concat {asked : List (IdentityKey × List Row)} {rows : List Row}
    (h : Answers md c asked c')
    (hrows : (Connection.query (key.select md).sql (key.select md).parameters).run c' = (.ok rows, c'')) :
    Answers md c (asked ++ [(key, rows)]) c'' := by
  induction h with
  | done c => exact .select hrows (.done _)
  | select hfirst _ ih => exact .select hfirst (ih hrows)

def selection (md : Metadata) (key : IdentityKey) : CallRecord :=
  ⟨.query (key.select md).sql (key.select md).parameters, none⟩

theorem run_loadRow {m t : Manager (Recorded σ)} (h : (loadRow md key).run m = (.ok row, t)) :
    ∃ rows, row = rows.head? ∧
      (Connection.query (key.select md).sql (key.select md).parameters).run m.session.connection.inner =
        (.ok rows, t.session.connection.inner) ∧
      t.session.connection.calls = m.session.connection.calls ++ [selection md key] := by
  have hpost : (loadRow md key).Post (fun row t => ∃ rows, row = rows.head? ∧
      (Connection.query (key.select md).sql (key.select md).parameters).run m.session.connection.inner =
        (.ok rows, t.session.connection.inner) ∧
      t.session.connection.calls = m.session.connection.calls ++ [selection md key])
      (fun _ _ => True) m := by
    simp only [loadRow, onSession, inEnvironment, Environment.onSession, Session.select,
      Action.post_bind, Action.post_onPart, Action.post_pure, Session.post_query]
    refine (Recorded.post_call _ _ _).mpr (Action.post_iff.mpr ⟨fun rows c hrows => ?_, fun _ _ _ => trivial⟩)
    exact ⟨rows, rfl, hrows, rfl⟩
  exact hpost.of_run_ok h

end Connections

section Runs

variable {σ : Type} [Connection σ] {m₀ m t : Manager (Recorded σ)} {r : Registry} {md : Metadata}
  {type : EntityType} {id : Identifier} {answer : Option Oid}

structure Traced (m₀ : Manager (Recorded σ)) (r : Registry) (md : Metadata) (ls : List LookUp)
    (m : Manager (Recorded σ)) : Prop where
  present : Present r m
  keyed : ∀ l ∈ ls, IdentityKey.ofIdentifier md l.id = .ok l.key
  justified : Justified m₀.work ls
  find?_eq : ∀ key, m.work.find? key = known m₀.work ls key
  tracked : ∀ oid t, m₀.work.tracked.get? oid = some t → m.work.tracked.get? oid = some t
  slots : ∀ key oid, m₀.work.slots.get? key = some oid → m.work.slots.get? key = some oid
  calls : m.session.connection.calls =
    m₀.session.connection.calls ++ (selects ls).map fun s => selection md s.1
  answers : Answers md m₀.session.connection.inner (selects ls) m.session.connection.inner

namespace Traced

theorem nil (h : Present r m) : Traced m r md [] m where
  present := h
  keyed _ hl := by simp at hl
  justified := .nil _
  find?_eq key := by simp [known]
  tracked _ _ := id
  slots _ _ := id
  calls := by simp [selects]
  answers := .done _

theorem find?_of_found (h : Traced m₀ r md ls m) (hl : l ∈ ls) (hfound : l.found = some oid) :
    m.work.find? l.key = some oid := (h.find?_eq l.key).trans (h.justified.known_of_found hl hfound)

theorem concat (h : Traced m₀ r md ls m) (hpresent : Present r t) (hwork : t.work = m.work)
    (hkey : IdentityKey.ofIdentifier md l.id = .ok l.key) (hfollows : l.Follows m₀.work ls)
    (hknown : known m₀.work ls l.key = l.found)
    (hcalls : t.session.connection.calls =
      m₀.session.connection.calls ++ (selects (ls ++ [l])).map fun s => selection md s.1)
    (hanswers : Answers md m₀.session.connection.inner (selects (ls ++ [l]))
      t.session.connection.inner) : Traced m₀ r md (ls ++ [l]) t where
  present := hpresent
  keyed := List.forall_mem_append.mpr ⟨h.keyed, by simpa using hkey⟩
  justified := h.justified.concat hfollows
  find?_eq key := by rw [hwork, h.find?_eq, known_concat_of_eq hknown]
  tracked := hwork ▸ h.tracked
  slots := hwork ▸ h.slots
  calls := hcalls
  answers := hanswers

theorem concat_loaded {s : Snapshot} {row : Row} {rows : List Row} (h : Traced m₀ r md ls m)
    (hpresent : Present r t) (hwork : t.work = m.work.track ⟨m.heap.objects.length⟩ md key s)
    (hkey : IdentityKey.ofIdentifier md id = .ok key) (hfree : m.work.find? key = none)
    (hcalls : t.session.connection.calls = m.session.connection.calls ++ [selection md key])
    (hanswer : (Connection.query (key.select md).sql (key.select md).parameters).run
      m.session.connection.inner = (.ok (row :: rows), t.session.connection.inner)) :
    Traced m₀ r md (ls ++ [⟨id, key, some (row :: rows), some ⟨m.heap.objects.length⟩⟩]) t := by
  have hnew := h.present.next_untracked
  have hknown : known m₀.work ls key = none := (h.find?_eq key).symm.trans hfree
  have hnew₀ : m₀.work.tracked.get? ⟨m.heap.objects.length⟩ = none :=
    Option.eq_none_iff_forall_ne_some.mpr fun t ht => by simp [h.tracked _ t ht] at hnew
  have hother : ∀ l ∈ ls, l.found ≠ some ⟨m.heap.objects.length⟩ := by
    intro l hl hfound
    obtain ⟨-, t, ht⟩ := UnitOfWork.find?_eq_some_iff.mp (h.find?_of_found hl hfound)
    simp [hnew] at ht
  have hslot := h.present.consistent.slots_of_find?_eq_none hfree
  refine ⟨hpresent, ?_, h.justified.concat (.loaded hknown hnew₀ hother), fun k => ?_,
    fun oid tracked ht => ?_, fun k oid hoid => ?_, ?_, ?_⟩
  · exact List.forall_mem_append.mpr ⟨h.keyed, by simpa using hkey⟩
  · rw [hwork, h.present.consistent.find?_track hnew, known_concat, h.find?_eq]
    by_cases hk : key = k
    · simp [← hk, hknown]
    · simp [hk]
  · have hoid : ⟨m.heap.objects.length⟩ ≠ oid := fun heq => by simp [← heq, hnew₀] at ht
    rw [hwork, UnitOfWork.get?_tracked_track, if_neg hoid]
    exact h.tracked oid tracked ht
  · have hk : key ≠ k := by
      rintro rfl
      simp [h.slots key oid hoid] at hslot
    rw [hwork, UnitOfWork.slots_track_of_free hnew, if_neg hk]
    exact h.slots k oid hoid
  · simp [selects, hcalls, h.calls]
  · simpa [selects] using h.answers.concat hanswer

theorem step (h : Traced m₀ r md ls m) (hr : r.Sound) (hview : r.view type.className = .ok md)
    (hfind : (Manager.find type id).run m = (.ok answer, t)) :
    ∃ l, l.id = id ∧ l.found = answer ∧ Traced m₀ r md (ls ++ [l]) t := by
  have hpresent : Present r t := by
    have hproper : (Operation.find type id).Proper m := fun _ hop => by simp at hop
    have hafter := h.present.after hr hproper
    rw [← Operation.state_ask] at hafter
    change Present r ((Manager.find type id).run m).2 at hafter
    rwa [hfind] at hafter
  have hdescribed {md' : Metadata} {described : Manager (Recorded σ)}
      (hmd : (metadata type).run m = (.ok md', described)) :
      md' = md ∧ described = { m with registry := described.registry } := by
    have hview' := view_of_metadata hmd
    rw [h.present.answers.view_eq hr, hview] at hview'
    exact ⟨(Except.ok.inj hview').symm, (post_metadata type m).of_run_ok hmd⟩
  cases (post_find_found type id m).of_run_ok hfind with
  | @tracked _ key oid _ hmd hkey hfound =>
    obtain ⟨rfl, hsame⟩ := hdescribed hmd
    have hknown : known m₀.work ls key = some oid := (h.find?_eq key).symm.trans hfound
    refine ⟨⟨id, key, none, some oid⟩, rfl, rfl,
      h.concat hpresent (by rw [hsame]) hkey (.known hknown) hknown ?_ ?_⟩
    · rw [hsame]
      simpa [selects] using h.calls
    · rw [hsame]
      simpa [selects] using h.answers
  | @absent _ key described _ hmd hkey hfree hread =>
    obtain ⟨rfl, hsame⟩ := hdescribed hmd
    have hknown : known m₀.work ls key = none := (h.find?_eq key).symm.trans hfree
    obtain ⟨rows, hrows, hanswer, hcalls⟩ := run_loadRow hread
    obtain rfl : rows = [] := List.head?_eq_none_iff.mp hrows.symm
    have hwork : t.work = m.work := by rw [((post_loadRow _ _ _).of_run_ok hread).1, hsame]
    rw [hsame] at hanswer hcalls
    refine ⟨⟨id, key, some [], none⟩, rfl, rfl,
      h.concat hpresent hwork hkey (.missing hknown) hknown ?_ ?_⟩
    · simp [selects, hcalls, h.calls]
    · simpa [selects] using h.answers.concat hanswer
  | @loaded _ key described read row x s hmd hkey hfree hread =>
    obtain ⟨rfl, hsame⟩ := hdescribed hmd
    obtain ⟨rows, hrows, hanswer, hcalls⟩ := run_loadRow hread
    obtain ⟨rest, rfl⟩ := List.head?_eq_some_iff.mp hrows.symm
    rw [hsame] at hanswer hcalls
    exact ⟨_, rfl, rfl, h.concat_loaded hpresent rfl hkey hfree hcalls hanswer⟩

theorem findEach {ids : List Identifier} {found : List Oid} (h : Traced m₀ r md ls m)
    (hr : r.Sound) (hview : r.view type.className = .ok md)
    (hrun : (Repository.findEach type ids).run m = (.ok found, t)) :
    ∃ more, more.map LookUp.id = ids ∧ more.filterMap LookUp.found = found ∧
      Traced m₀ r md (ls ++ more) t := by
  induction ids generalizing ls m found with
  | nil =>
    obtain ⟨hfound, rfl⟩ := Prod.mk.inj hrun
    exact ⟨[], rfl, Except.ok.inj hfound, by rwa [List.append_nil]⟩
  | cons id rest ih =>
    rw [Repository.findEach, Action.run_bind] at hrun
    split at hrun
    · rename_i answer next hfirst
      rw [Action.run_bind] at hrun
      split at hrun
      · rename_i later last hrest
        obtain ⟨hfound, rfl⟩ := Prod.mk.inj hrun
        obtain ⟨l, rfl, rfl, hl⟩ := h.step hr hview hfirst
        obtain ⟨more, rfl, rfl, hmore⟩ := ih hl hrest
        refine ⟨l :: more, rfl, ?_, by rwa [List.append_cons]⟩
        rw [← Except.ok.inj hfound, List.filterMap_cons]
        cases l.found <;> rfl
      · cases (Prod.mk.inj hrun).1
    · cases (Prod.mk.inj hrun).1

end Traced

/-- What it comes to that several identifiers have been looked up. -/
structure LookedUp (m : Manager (Recorded σ)) (md : Metadata) (ids : List Identifier)
    (ls : List LookUp) (found : List Oid) (t : Manager (Recorded σ)) : Prop where
  /-- There is one look-up for each identifier, in order. -/
  ids : ls.map LookUp.id = ids
  keyed : ∀ l ∈ ls, IdentityKey.ofIdentifier md l.id = .ok l.key
  /-- Whatever key an identifier spells, it is looked up by it. -/
  spelled : ∀ l ∈ ls, ∀ key : IdentityKey, key.Belongs md → IdentityKey.Spells md key l.id →
    l.key = key
  found : found = ls.filterMap LookUp.found
  /-- An instance is found if its key is known by then or has a row. It is selected if it is not
  known. -/
  justified : Justified m.work ls
  /-- A key that has been found is found again, and not selected. -/
  repeated : ls.Pairwise fun l l' => l.key = l'.key →
    ∀ oid, l.found = some oid → l'.found = some oid ∧ l'.rows = none
  /-- The connection was asked for the keys that were selected, and for nothing else. -/
  calls : t.session.connection.calls =
    m.session.connection.calls ++ (selects ls).map fun s => selection md s.1
  answers : Answers md m.session.connection.inner (selects ls) t.session.connection.inner
  /-- What was found is what its key stands for from then on. -/
  mapped : ∀ l ∈ ls, ∀ oid, l.found = some oid → t.work.find? l.key = some oid
  /-- What was tracked before is tracked as it was, in the same slots. -/
  tracked : ∀ oid tracked, m.work.tracked.get? oid = some tracked →
    t.work.tracked.get? oid = some tracked
  slots : ∀ key oid, m.work.slots.get? key = some oid → t.work.slots.get? key = some oid

theorem exists_view_of_find (hfind : (Manager.find type id).run m = (.ok answer, t)) :
    ∃ md, m.registry.view type.className = .ok md := by
  cases (post_find_found type id m).of_run_ok hfind with
  | tracked hmd | absent hmd | loaded hmd => exact ⟨_, view_of_metadata hmd⟩

theorem Traced.lookedUp {ids : List Identifier} (h : Traced m₀ r md ls m)
    (hids : ls.map LookUp.id = ids) : LookedUp m₀ md ids ls (ls.filterMap LookUp.found) m where
  ids := hids
  keyed := h.keyed
  spelled l hl key hbelongs hspells := by
    have hne := (IdentityKey.ofIdentifier_eq_ok_iff.mp (h.keyed l hl)).1
    have hkey := IdentityKey.ofIdentifier_of_spells hbelongs hne hspells
    exact Except.ok.inj ((h.keyed l hl).symm.trans hkey)
  found := rfl
  justified := h.justified
  repeated := h.justified.pairwise
  calls := h.calls
  answers := h.answers
  mapped _ hl _ hfound := h.find?_of_found hl hfound
  tracked := h.tracked
  slots := h.slots

/-- Whatever the connection answers, identifiers that are looked up together share what they find. -/
theorem findByIds_lookedUp {ids : List Identifier} {found : List Oid}
    (h : Reachable Operation.Proper m)
    (hrun : (Repository.findByIds type ids).run m = (.ok found, t)) :
    ∃ md ls, m.registry.view type.className = .ok md ∧ LookedUp m md ids ls found t := by
  obtain ⟨r, hr, hpresent⟩ := h.exists_present
  rw [Repository.findByIds] at hrun
  split at hrun
  · cases (Prod.mk.inj hrun).1
  rename_i hne
  cases ids with
  | nil => simp at hne
  | cons id rest =>
    have hfirst : ∃ answer next, (Manager.find type id).run m = (.ok answer, next) := by
      rw [Repository.findEach, Action.run_bind] at hrun
      split at hrun
      · exact ⟨_, _, ‹_›⟩
      · cases (Prod.mk.inj hrun).1
    obtain ⟨answer, next, hfirst⟩ := hfirst
    obtain ⟨md, hview⟩ := exists_view_of_find hfirst
    obtain ⟨ls, hids, rfl, htraced⟩ := (Traced.nil hpresent).findEach hr
      (hpresent.answers.view_eq hr ▸ hview) hrun
    exact ⟨md, ls, hview, htraced.lookedUp hids⟩

end Runs

section Samples

open Sample

def acquainted : Manager (Recorded Scripted) :=
  (Operation.find user (.scalar (.int 1))).after
    (manager [] ⟨{ rows := [[userRow (.int 1) "Ann"], [userRow (.int 2) "Bob"]] }, []⟩)

def invited : List Identifier :=
  [.scalar (.text "2"), .scalar (.int 3), .scalar (.int 1), .composite (.ofList [("id", .int 2)])]

theorem reachable_acquainted : Reachable Operation.Proper acquainted :=
  (Reachable.built (build_manager [] _)).run
    ((Runs.done _).operation (.find user (.scalar (.int 1))) fun _ h => by simp at h)

theorem findByIds_lookedUp_invited :
    Reachable Operation.Proper acquainted ∧
      ∃ md ls t, (Repository.findByIds user invited).run acquainted = (.ok [⟨1⟩, ⟨0⟩, ⟨1⟩], t) ∧
        LookedUp acquainted md invited ls [⟨1⟩, ⟨0⟩, ⟨1⟩] t := by
  have hfound : ((Repository.findByIds user invited).run acquainted).1.toOption =
      some [⟨1⟩, ⟨0⟩, ⟨1⟩] := by
    decide +kernel
  rcases hrun : (Repository.findByIds user invited).run acquainted with ⟨e | found, t⟩
  · simp [hrun, Except.toOption] at hfound
  · rw [hrun] at hfound
    obtain rfl := Option.some.inj hfound
    obtain ⟨md, ls, -, hls⟩ := findByIds_lookedUp reachable_acquainted hrun
    exact ⟨reachable_acquainted, md, ls, t, rfl, hls⟩

end Samples

end Manager
end Persistence
