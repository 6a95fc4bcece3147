import Persistence.Proofs.Steadiness
import Persistence.Proofs.RoundTrip

/-!
Keeping metadata goes unnoticed. Whatever a registry is asked for, it describes its classes as a
registry does that keeps nothing and was only told the registrations.

Metadata is built from the mapping of its class and from which classes are registered. The first
is dropped from what is kept when it changes, and the second can only grow: more registered classes
take faults away and leave the metadata of a class without faults as it was.
-/

namespace Persistence.Schema

open ObjectQuery (authorMapping postMapping)

variable {className : String} {registered wider : String → Bool} {names : List String}

namespace Association

theorem fault?_eq_none_iff (a : Association) : a.fault? className registered names = none ↔
    a.fault? className (fun _ => true) names = none ∧ registered a.target = true := by
  unfold fault?
  by_cases hblank : Text.isBlankText a.target = true
  · simp [hblank]
  · cases hr : registered a.target <;> simp [hblank]

theorem unregistered_of_fault? {a : Association} {c name target : String}
    (h : a.fault? className registered names = some (.unknownTarget c name target)) :
    registered target = false := by
  unfold fault? at h
  split at h
  · simp at h
  · split at h
    · rename_i hr
      have htarget : a.target = target := by simp_all
      simpa [htarget] using hr
    · -- Later checks report other faults.
      grind

theorem check_eq_ok_iff (as : List Association) :
    checkAssociations className registered names as = .ok () ↔
      checkAssociations className (fun _ => true) names as = .ok () ∧
        ∀ a ∈ as, registered a.target = true := by
  induction as generalizing names with
  | nil => simp [checkAssociations]
  | cons a rest ih =>
    have ha : a.fault? className registered names = none ↔ _ := a.fault?_eq_none_iff
    rw [checkAssociations, checkAssociations, List.forall_mem_cons]
    cases hf : a.fault? className registered names with
    | none =>
      obtain ⟨hall, hr⟩ := ha.mp hf
      simp [hall, hr, ih]
    | some fault =>
      have hnot : ¬ (a.fault? className (fun _ => true) names = none ∧
          registered a.target = true) := fun h => by simp [ha.mpr h] at hf
      cases hall : a.fault? className (fun _ => true) names with
      | none => simp_all
      | some other => simp

theorem unregistered_of_check {as : List Association} {c name target : String}
    (h : checkAssociations className registered names as =
      .error (.unknownTarget c name target)) : registered target = false := by
  induction as generalizing names with
  | nil => simp [checkAssociations] at h
  | cons a rest ih =>
    rw [checkAssociations] at h
    split at h
    · rename_i fault hfault
      rw [Except.error.inj h] at hfault
      exact unregistered_of_fault? hfault
    · exact ih h

end Association

namespace FieldDef

theorem fault?_ne_unknownTarget (d : FieldDef) (className c name target : String) :
    d.fault? className ≠ some (.unknownTarget c name target) := by
  unfold fault?
  grind

theorem check_ne_unknownTarget (ds : List FieldDef) (c name target : String) :
    checkFields className names ds ≠ .error (.unknownTarget c name target) := by
  induction ds generalizing names with
  | nil => simp [checkFields]
  | cons d rest ih =>
    rw [checkFields]
    split
    · rename_i fault hfault
      have := d.fault?_ne_unknownTarget className c name target
      simp_all
    · split
      · simp
      · exact ih

end FieldDef

namespace Mapping

variable {m : Mapping}

/-- The mapping passes its checks once the classes it refers to are registered. -/
def Complete (m : Mapping) (className : String) : Prop :=
  m.check className (fun _ => true) = .ok ()

instance : Decidable (m.Complete className) :=
  inferInstanceAs (Decidable (m.check className (fun _ => true) = .ok ()))

theorem check_eq_ok_iff : m.check className registered = .ok () ↔
    m.Complete className ∧ ∀ a ∈ m.associations, registered a.target = true := by
  unfold Complete check
  split
  · cases checkFields className [] m.fields with
    | error e => simp [bind, Except.bind]
    | ok u => exact Association.check_eq_ok_iff m.associations
  · simp

theorem unregistered_of_check {c name target : String}
    (h : m.check className registered = .error (.unknownTarget c name target)) :
    registered target = false := by
  unfold check at h
  split at h
  · cases hf : checkFields className [] m.fields with
    | error e =>
      simp only [hf, bind, Except.bind, Except.error.injEq] at h
      exact absurd (h ▸ hf) (FieldDef.check_ne_unknownTarget _ _ _ _)
    | ok u =>
      simp only [hf, bind, Except.bind] at h
      exact Association.unregistered_of_check h
  · simp at h

theorem build_of_check (h : m.check className registered = .ok ()) :
    m.build className registered = .ok (m.toMetadata className (nodup_of_check h)) := by
  unfold build
  split
  · rfl
  · rename_i fault hfault
    simp [h] at hfault

theorem check_of_build {md : Metadata} (h : m.build className registered = .ok md) :
    ∃ hm, m.check className registered = .ok () ∧ md = m.toMetadata className hm := by
  unfold build at h
  split at h
  · rename_i hm
    exact ⟨_, hm, (Except.ok.inj h).symm⟩
  · simp at h

theorem check_of_build_error {e : Error} (h : m.build className registered = .error e) :
    ∃ fault, m.check className registered = .error fault ∧ e = .mapping fault := by
  unfold build at h
  split at h
  · simp at h
  · rename_i fault hfault
    exact ⟨fault, hfault, (Except.error.inj h).symm⟩

theorem build_mono {md : Metadata} (h : m.build className registered = .ok md)
    (hle : ∀ a ∈ m.associations, registered a.target = true → wider a.target = true) :
    m.build className wider = .ok md := by
  obtain ⟨hm, hcheck, rfl⟩ := check_of_build h
  obtain ⟨hcomplete, htargets⟩ := check_eq_ok_iff.mp hcheck
  exact build_of_check (check_eq_ok_iff.mpr ⟨hcomplete, fun a ha => hle a ha (htargets a ha)⟩)

end Mapping

namespace Registry

variable {r s : Registry} {md : Metadata}

/-- What a registry can be asked for. -/
inductive Request
  | register (className : String) (mapping : Mapping)
  | describe (className : String)
  | invalidate (className : String)
  | invalidateAll
  | setMemoizing (on : Bool)

/-- The registry after a request. -/
def Request.serve (r : Registry) : Request → Registry
  | .register c m => r.register c m
  | .describe c => (Registry.describe c r).2
  | .invalidate c => r.invalidate c
  | .invalidateAll => r.invalidateAll
  | .setMemoizing on => r.setMemoizing on

def serve (r : Registry) (requests : List Request) : Registry := requests.foldl Request.serve r

/-- What the descriptions among the requests answer. -/
def answers (r : Registry) : List Request → List (Except Error Metadata)
  | [] => []
  | .describe c :: rest => (Registry.describe c r).1 :: answers (Registry.describe c r).2 rest
  | q :: rest => answers (q.serve r) rest

/-- Requests that are about the classes, not about what is kept of them. -/
def Request.concernsClasses : Request → Bool
  | .register .. | .describe _ => true
  | .invalidate _ | .invalidateAll | .setMemoizing _ => false

/-- A registry that keeps nothing, and that is asked about classes only. -/
def forgetful : Registry := empty.setMemoizing false

theorem serve_append (requests later : List Request) :
    r.serve (requests ++ later) = (r.serve requests).serve later := List.foldl_append

theorem mappings_serve (q : Request) : (q.serve r).mappings =
    match q with
    | .register c m => r.mappings.insert c m
    | _ => r.mappings := by
  cases q with
  | describe c => exact (within_describe c r).mappings
  | register | invalidate | invalidateAll | setMemoizing => rfl

theorem isRegistered_iff : r.isRegistered className = true ↔ className ∈ r.mappings.keys :=
  OrderedMap.get?_isSome_iff _ _

theorem isRegistered_serve (h : r.isRegistered className = true) (requests : List Request) :
    (r.serve requests).isRegistered className = true := by
  induction requests generalizing r with
  | nil => exact h
  | cons q rest ih =>
    refine ih (r := q.serve r) ?_
    rw [isRegistered_iff] at h ⊢
    rw [mappings_serve]
    split
    · rw [OrderedMap.keys_insert]
      split
      · exact h
      · exact List.mem_append_left _ h
    · exact h

theorem mapping_serve {requests : List Request} (h : ∀ m, .register className m ∉ requests) :
    (r.serve requests).mappings.get? className = r.mappings.get? className := by
  induction requests generalizing r with
  | nil => rfl
  | cons q rest ih =>
    refine (ih (r := q.serve r) fun m hm => h m (List.mem_cons_of_mem _ hm)).trans ?_
    rw [mappings_serve]
    split
    · rename_i c m
      have hc : c ≠ className := fun hc => h m (hc ▸ List.mem_cons_self)
      rw [OrderedMap.get?_insert, if_neg hc]
    · rfl

theorem build_register {c : String} {m : Mapping} (h : r.build className = .ok md)
    (hc : c ≠ className) : (r.register c m).build className = .ok md := by
  unfold build at h ⊢
  rw [register, OrderedMap.get?_insert, if_neg hc]
  split at h
  · simp at h
  · exact Mapping.build_mono h fun a _ ha => isRegistered_serve ha [.register c m]

/-- Whatever is asked for, what is kept of a class is what its mapping gives. -/
theorem Sound.serve (h : r.Sound) (q : Request) : (q.serve r).Sound := by
  cases q with
  | register c m =>
    intro d md hd
    change (r.memo.erase c).get? d = some md at hd
    rw [OrderedMap.get?_erase] at hd
    split at hd
    · simp at hd
    · exact build_register (h d md hd) ‹_›
  | describe c => exact (within_describe c r).sound h
  | invalidate c =>
    intro d md hd
    change (r.memo.erase c).get? d = some md at hd
    rw [OrderedMap.get?_erase] at hd
    split at hd
    · simp at hd
    · exact h d md hd
  | invalidateAll => exact sound_of_memo_eq rfl
  | setMemoizing on =>
    cases on with
    | false => exact sound_of_memo_eq rfl
    | true => exact h

theorem Sound.serveAll (h : r.Sound) (requests : List Request) : (r.serve requests).Sound := by
  induction requests generalizing r with
  | nil => exact h
  | cons q rest ih => exact ih (h.serve q)

theorem sound_empty : empty.Sound := sound_of_memo_eq rfl

theorem view_congr (hr : r.Sound) (hs : s.Sound) (h : r.mappings = s.mappings) :
    r.view = s.view := by
  funext c
  rw [hr.view_eq, hs.view_eq, build_congr h]

theorem answers_eq (hr : r.Sound) (hs : s.Sound) (h : r.mappings = s.mappings)
    (requests : List Request) :
    r.answers requests = s.answers (requests.filter Request.concernsClasses) := by
  induction requests generalizing r s with
  | nil => rfl
  | cons q rest ih =>
    have hsame : ∀ q : Request, (q.serve r).mappings = (q.serve s).mappings := fun q => by
      rw [mappings_serve, mappings_serve, h]
    cases q with
    | register c m => exact ih (hr.serve _) (hs.serve _) (hsame (.register c m))
    | describe c =>
      change (Registry.describe c r).1 :: _ = (Registry.describe c s).1 :: _
      rw [describe_fst, describe_fst, view_congr hr hs h]
      exact congrArg _ (ih (hr.serve (.describe c)) (hs.serve (.describe c)) (hsame (.describe c)))
    | invalidate c =>
      exact ih (hr.serve (.invalidate c)) hs ((mappings_serve (.invalidate c)).trans h)
    | invalidateAll => exact ih (hr.serve .invalidateAll) hs h
    | setMemoizing on => exact ih (hr.serve (.setMemoizing on)) hs h

theorem view_ok_iff {m : Mapping} (hr : r.Sound) (hname : Text.isBlankText className = false)
    (h : r.mappings.get? className = some m) : (∃ md, r.view className = .ok md) ↔
      m.Complete className ∧ ∀ a ∈ m.associations, r.isRegistered a.target = true := by
  rw [hr.view_eq, if_neg (by simp [hname]), build, h, ← Mapping.check_eq_ok_iff]
  constructor
  · rintro ⟨md, hmd⟩
    exact (Mapping.check_of_build hmd).2.1
  · exact fun hcheck => ⟨_, Mapping.build_of_check hcheck⟩

theorem targets_of_view (hr : r.Sound) (h : r.view className = .ok md) :
    ∀ a ∈ md.associations, r.isRegistered a.target = true := by
  rw [hr.view_eq, build] at h
  split at h
  · simp at h
  · split at h
    · simp at h
    · obtain ⟨_, hcheck, rfl⟩ := Mapping.check_of_build h
      exact (Mapping.check_eq_ok_iff.mp hcheck).2

theorem unknown_of_view {c name target : String} (hr : r.Sound)
    (h : r.view className = .error (.mapping (.unknownTarget c name target))) :
    Text.isBlankText className = false ∧ r.isRegistered target = false ∧
      ∃ m, r.mappings.get? className = some m := by
  rw [hr.view_eq, build] at h
  split at h
  · simp [Error.validation, Error.mapping] at h
  · rename_i hname
    split at h
    · simp [Error.mapping] at h
    · rename_i m hm
      obtain ⟨fault, hcheck, hfault⟩ := Mapping.check_of_build_error h
      have : fault = .unknownTarget c name target := by simpa [Error.mapping] using hfault.symm
      exact ⟨by simpa using hname, Mapping.unregistered_of_check (this ▸ hcheck), m, hm⟩

/-- Keeping metadata goes unnoticed: all descriptions answer what they would if nothing were kept.
A description that failed for want of a class succeeds as soon as all the mapping refers to is
registered, and what a description refers to stays registered. -/
theorem memoization_invisible :
    (∀ requests, empty.answers requests =
      forgetful.answers (requests.filter Request.concernsClasses)) ∧
    (∀ (before later : List Request) (c name target : String) (m : Mapping),
      (empty.serve before).mappings.get? c = some m →
      (Registry.describe c (empty.serve before)).1 =
        .error (.mapping (.unknownTarget c name target)) →
      (∀ m', .register c m' ∉ later) →
      (empty.serve before).isRegistered target = false ∧
      ((∃ md, (Registry.describe c (empty.serve (before ++ later))).1 = .ok md) ↔
        m.Complete c ∧ ∀ a ∈ m.associations,
          (empty.serve (before ++ later)).isRegistered a.target = true)) ∧
    ∀ (before later : List Request) (c : String) (md : Metadata),
      (Registry.describe c (empty.serve before)).1 = .ok md →
      ∀ a ∈ md.associations, (empty.serve (before ++ later)).isRegistered a.target = true := by
  refine ⟨answers_eq sound_empty (sound_of_memo_eq rfl) rfl, ?_, ?_⟩
  · intro before later c name target m hm h hlater
    rw [describe_fst] at h ⊢
    obtain ⟨hname, htarget, -⟩ := unknown_of_view (sound_empty.serveAll before) h
    refine ⟨htarget, view_ok_iff (sound_empty.serveAll _) hname ?_⟩
    rw [serve_append, mapping_serve hlater]
    exact hm
  · intro before later c md h a ha
    rw [describe_fst] at h
    rw [serve_append]
    exact isRegistered_serve (targets_of_view (sound_empty.serveAll before) h a ha) later

theorem memoization_invisible_author :
    (Registry.describe "User" (empty.serve [.register "User" authorMapping])).1 =
        .error (.mapping (.unknownTarget "User" "posts" "Post")) ∧
      ∃ md, (Registry.describe "User" (empty.serve ([.register "User" authorMapping] ++
          [.describe "User", .register "Post" postMapping]))).1 = .ok md ∧
        ∀ a ∈ md.associations, (empty.serve ([.register "User" authorMapping] ++
          [.describe "User", .register "Post" postMapping] ++
          [.setMemoizing false, .register "User" postMapping])).isRegistered a.target = true := by
  have hfail : (Registry.describe "User" (empty.serve [.register "User" authorMapping])).1 =
      .error (.mapping (.unknownTarget "User" "posts" "Post")) := by decide
  obtain ⟨md, hmd⟩ := ((memoization_invisible.2.1 [.register "User" authorMapping]
    [.describe "User", .register "Post" postMapping] "User" "posts" "Post" authorMapping rfl hfail
    (by simp)).2).mpr (by decide)
  exact ⟨hfail, md, hmd, memoization_invisible.2.2 _ _ "User" md hmd⟩

end Registry
end Persistence.Schema
