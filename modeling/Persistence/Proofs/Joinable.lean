import Persistence.Proofs.BothSides
import Persistence.Proofs.WellFormedMappings

/-!
Joining what has been described. A description goes by the kind of an association and by what it
declares, and so does a join. They agree but for one combination: a one-to-many association with a
join column of its own, besides the association that it is mapped by, is described and not joined.
-/

namespace Persistence

namespace Schema

namespace Association

variable {a : Association} {target : Metadata}

/-- What the association is mapped by, if anything, is an association of the target that carries a
join table, where many stand on both sides, or a join column. -/
def Reciprocated (a : Association) (target : Metadata) : Prop :=
  ∀ mappedBy, a.mappedBy = some mappedBy → ∃ b ∈ target.associations, b.name = mappedBy ∧
    if a.kind = .manyToMany then ∃ t, b.joinTable = some t else ∃ c, b.joinColumn = some c

/-- The association is one-to-many and has a join column of its own. -/
def Overdetermined (a : Association) : Prop := a.kind = .oneToMany ∧ ∃ c, a.joinColumn = some c

theorem Reciprocated.column (h : a.Reciprocated target) (hkind : a.kind ≠ .manyToMany)
    {mappedBy : String} (hm : a.mappedBy = some mappedBy) :
    ∃ b c, target.association? mappedBy = some b ∧ b.joinColumn = some c := by
  obtain ⟨b, hb, rfl, hcarries⟩ := h mappedBy hm
  rw [if_neg hkind] at hcarries
  obtain ⟨c, hc⟩ := hcarries
  exact ⟨b, c, Metadata.association?_of_mem hb, hc⟩

theorem Reciprocated.table (h : a.Reciprocated target) (hkind : a.kind = .manyToMany)
    {mappedBy : String} (hm : a.mappedBy = some mappedBy) :
    ∃ b t, target.association? mappedBy = some b ∧ b.joinTable = some t := by
  obtain ⟨b, hb, rfl, hcarries⟩ := h mappedBy hm
  rw [if_pos hkind] at hcarries
  obtain ⟨t, ht⟩ := hcarries
  exact ⟨b, t, Metadata.association?_of_mem hb, ht⟩

theorem join_of_mappedBy {mappedBy : String} (h : a.Reciprocated target)
    (hkind : a.kind = .oneToMany ∨ a.kind = .oneToOne) (hnone : a.joinColumn = none)
    (hm : a.mappedBy = some mappedBy) (source x y : String) :
    ∃ j, a.join source target x y = .ok j := by
  obtain ⟨b, c, hb, hc⟩ := h.column (by rcases hkind with hkind | hkind <;> simp [hkind]) hm
  exact ⟨_, join_mapped_column hkind hnone hm hb hc⟩

theorem join_of_stored (hstored : a.Stored) (h : a.Reciprocated target) (hnot : ¬ a.Overdetermined)
    (source x y : String) : ∃ j, a.join source target x y = .ok j := by
  unfold Stored at hstored
  cases hkind : a.kind with
  | manyToOne =>
    simp only [hkind] at hstored
    obtain ⟨c, hc⟩ := hstored
    exact ⟨_, join_storing_column (.inl hkind) hc⟩
  | oneToOne =>
    simp only [hkind] at hstored
    cases hc : a.joinColumn with
    | some c => exact ⟨_, join_storing_column (.inr hkind) hc⟩
    | none =>
      obtain ⟨c, hsome⟩ | ⟨mappedBy, hm⟩ := hstored
      · simp [hc] at hsome
      · exact join_of_mappedBy h (.inr hkind) hc hm source x y
  | oneToMany =>
    simp only [hkind] at hstored
    obtain ⟨mappedBy, hm⟩ := hstored
    cases hc : a.joinColumn with
    | some c => exact absurd ⟨hkind, c, hc⟩ hnot
    | none => exact join_of_mappedBy h (.inl hkind) hc hm source x y
  | manyToMany =>
    simp only [hkind] at hstored
    cases hm : a.mappedBy with
    | some mappedBy =>
      obtain ⟨b, t, hb, ht⟩ := h.table hkind hm
      exact ⟨_, join_mapped_table hkind hm hb ht⟩
    | none =>
      obtain ⟨t, ht⟩ | ⟨mappedBy, hsome⟩ := hstored
      · exact ⟨_, join_storing_table hkind hm ht⟩
      · simp [hm] at hsome

theorem join_overdetermined (h : a.Overdetermined) (source x y : String) :
    a.join source target x y = .error (.mapping (.joinUndetermined .oneToMany source a.name)) := by
  obtain ⟨hkind, c, hc⟩ := h
  simp only [join, hkind, hc]

end Association

namespace Registry

variable {requests : List Request} {className : String} {md target : Metadata} {a : Association}

theorem wellFormed_of_view {r : Registry} (hr : r.Sound) (h : r.view className = .ok md)
    (ha : a ∈ md.associations) : a.WellFormed r.isRegistered := by
  obtain ⟨-, m, -, hwell, hm, rfl⟩ := (view_eq_ok_iff hr).mp h
  exact hwell.associations a ha

/-- An association of a described class, whose target is described and carries what the association
is mapped by, is joined under any two aliases, unless it is one-to-many and has a join column of
its own. Then it is refused as having neither a join column nor an inverse, though it has both. -/
theorem associationJoin_of_described
    (hmd : (describe className (empty.serve requests)).1 = .ok md) (ha : a ∈ md.associations)
    (htarget : (describe a.target (empty.serve requests)).1 = .ok target)
    (h : a.Reciprocated target) (x y : String) :
    (¬ a.Overdetermined →
      ∃ j, (associationJoin className a.name x y (empty.serve requests)).1 = .ok j) ∧
    (a.Overdetermined → (associationJoin className a.name x y (empty.serve requests)).1 =
      .error (.mapping (.joinUndetermined .oneToMany className a.name))) := by
  rw [describe_fst] at hmd htarget
  have hjoin := run_associationJoin className a.name x y (empty.serve requests)
  rw [associationJoinBy_of_mem hmd ha htarget] at hjoin
  constructor
  · intro hnot
    have hwell := wellFormed_of_view (sound_empty.serveAll requests) hmd ha
    obtain ⟨j, hj⟩ := a.join_of_stored hwell.stored h hnot className x y
    exact ⟨j, hjoin.trans hj⟩
  · exact fun hover => hjoin.trans (Association.join_overdetermined hover className x y)

open Sample in
theorem associationJoin_of_described_tutored : ∃ j, (associationJoin "Student" "tutored" "s" "c"
    (empty.serve [.register "Course" courseMapping, .register "Student" studentMapping])).1 =
      .ok j := by
  have hstudent : (describe "Student" (empty.serve [.register "Course" courseMapping,
      .register "Student" studentMapping])).1 =
        .ok (studentMapping.toMetadata "Student" (by decide)) := by decide
  have hcourse : (describe "Course" (empty.serve [.register "Course" courseMapping,
      .register "Student" studentMapping])).1 =
        .ok (courseMapping.toMetadata "Course" (by decide)) := by decide
  refine (associationJoin_of_described (a := tutoredByStudent) hstudent (by decide) hcourse
    ?_ "s" "c").1 ?_
  · intro mappedBy hm
    obtain rfl : "tutor" = mappedBy := Option.some.inj hm
    exact ⟨tutorOfCourse, by decide, rfl, _, rfl⟩
  · rintro ⟨-, c, hc⟩
    simp [tutoredByStudent] at hc

end Registry
end Schema

namespace Sample

open Schema

def postsOfAuthor : Association where
  name := "posts"
  kind := .oneToMany
  target := "Post"
  mappedBy := some "author"
  joinColumn := some ⟨"author_id", "id", true⟩

def authorOfPost : Association where
  name := "author"
  kind := .manyToOne
  target := "User"
  joinColumn := some ⟨"author_id", "id", true⟩

def writings : List Registry.Request :=
  [.register "User" { userMapping with associations := [postsOfAuthor] },
   .register "Post" { isEntity := true, table := some "posts", associations := [authorOfPost] }]

end Sample

namespace Schema.Registry

open Sample

/-- Both classes are described and the author of a post carries a join column, yet the posts of an
author are not joined. -/
theorem associationJoin_posts_refused :
    ∃ md target, (describe "User" (empty.serve writings)).1 = .ok md ∧
      postsOfAuthor ∈ md.associations ∧
      (describe "Post" (empty.serve writings)).1 = .ok target ∧
      postsOfAuthor.Reciprocated target ∧
      (associationJoin "User" "posts" "u" "p" (empty.serve writings)).1 =
        .error (.mapping (.joinUndetermined .oneToMany "User" "posts")) := by
  refine ⟨Mapping.toMetadata { userMapping with associations := [postsOfAuthor] } "User" (by decide),
    Mapping.toMetadata { isEntity := true, table := some "posts", associations := [authorOfPost] }
      "Post" (by decide), by decide, by decide, by decide, ?_, by decide⟩
  intro mappedBy hm
  obtain rfl : "author" = mappedBy := Option.some.inj hm
  exact ⟨authorOfPost, by decide, rfl, _, rfl⟩

end Schema.Registry
end Persistence
