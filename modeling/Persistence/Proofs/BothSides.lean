import Mathlib.Data.Sym.Sym2
import Persistence.Proofs.Extraction
import Persistence.Proofs.Statements
import Persistence.Proofs.Joining

/-!
The two sides of an association. Joined from either side it ties the same columns together: those
of a join column by the same text, those of a join table by the same equalities, where only the
alias of the join table and the order of the sides tell the two joins apart.
-/

namespace Persistence

namespace Schema

/-- The column under another alias, if it goes by the given one. -/
def QualifiedColumn.rename (old new : String) (c : QualifiedColumn) : QualifiedColumn :=
  if c.aliasName = old then { c with aliasName := new } else c

def ColumnEquality.rename (old new : String) (e : ColumnEquality) : ColumnEquality :=
  ⟨e.left.rename old new, e.right.rename old new⟩

def ColumnEquality.pair (e : ColumnEquality) : Sym2 QualifiedColumn := s(e.left, e.right)

def AssociationJoin.equalities (j : AssociationJoin) : List ColumnEquality :=
  j.steps.flatMap JoinStep.equalities

/-- Two joins tie the same columns together, each as often, but for the alias of a join table. -/
def AssociationJoin.SameColumns (j k : AssociationJoin) (old new : String) : Prop :=
  ((j.equalities.map (ColumnEquality.rename old new)).map ColumnEquality.pair).Perm
    (k.equalities.map ColumnEquality.pair)

/-- Each step is tied to aliases that are known by then. -/
def Scoped (known : List String) : List JoinStep → Prop
  | [] => True
  | s :: rest => (∀ e ∈ s.equalities, e.left.aliasName ∈ s.aliasName :: known ∧
      e.right.aliasName ∈ s.aliasName :: known) ∧ Scoped (s.aliasName :: known) rest

section Aliases

variable (x y : String)

theorem length_linkAlias : (linkAlias x y).length = x.length + 1 + y.length := by
  rw [linkAlias, String.length_append, String.length_append]
  rfl

theorem ne_linkAlias_left : x ≠ linkAlias x y := fun h => by
  have hlength := congrArg String.length h
  rw [length_linkAlias] at hlength
  omega

theorem ne_linkAlias_right : y ≠ linkAlias x y := fun h => by
  have hlength := congrArg String.length h
  rw [length_linkAlias] at hlength
  omega

@[simp] theorem rename_left (new column : String) :
    (⟨x, column⟩ : QualifiedColumn).rename (linkAlias x y) new = ⟨x, column⟩ :=
  if_neg (ne_linkAlias_left x y)

@[simp] theorem rename_right (new column : String) :
    (⟨y, column⟩ : QualifiedColumn).rename (linkAlias x y) new = ⟨y, column⟩ :=
  if_neg (ne_linkAlias_right x y)

@[simp] theorem rename_link (new column : String) :
    (⟨linkAlias x y, column⟩ : QualifiedColumn).rename (linkAlias x y) new = ⟨new, column⟩ :=
  if_pos rfl

end Aliases

namespace Association

variable {a b : Association} {source x y z : String} {target : Metadata} {j : AssociationJoin}

theorem JoinsBy.targetStep (h : a.JoinsBy target x y j) :
    j.target = target.className ∧ j.targetStep.table = target.fullTableName ∧
      j.targetStep.aliasName = y := by
  cases h <;> exact ⟨rfl, rfl, rfl⟩

theorem JoinsBy.scoped (h : a.JoinsBy target x y j) : Scoped [x] j.steps := by
  cases h with
  | direct _ _ _ he =>
    rcases he with rfl | rfl <;>
      simp [AssociationJoin.steps, directJoin, Scoped]
  | through => simp [AssociationJoin.steps, Scoped]

/-- The first association stores, in its join column or its join table, what the second is mapped
by. -/
inductive OtherSide (a b : Association) : Prop
  | column {c : JoinColumn} : a.kind = .manyToOne ∨ a.kind = .oneToOne → a.joinColumn = some c →
      b.kind = .oneToMany ∨ b.kind = .oneToOne → b.joinColumn = none →
      b.mappedBy = some a.name → OtherSide a b
  | table {t : JoinTable} : a.kind = .manyToMany → a.mappedBy = none → a.joinTable = some t →
      b.kind = .manyToMany → b.mappedBy = some a.name → OtherSide a b

def storedEquality (c : JoinColumn) (x y : String) : ColumnEquality :=
  ⟨⟨x, c.name⟩, ⟨y, c.referenced⟩⟩

def linkedJoin (t : JoinTable) (toSource toTarget : List JoinColumn) (target : Metadata)
    (x y : String) : AssociationJoin where
  target := target.className
  links := [⟨t.fullName, linkAlias x y, toSource.map fun c => storedEquality c (linkAlias x y) x⟩]
  targetStep := ⟨target.fullTableName, y,
    toTarget.map fun c => ⟨⟨y, c.referenced⟩, ⟨linkAlias x y, c.name⟩⟩⟩

theorem join_storing_column {c : JoinColumn} (hkind : a.kind = .manyToOne ∨ a.kind = .oneToOne)
    (hc : a.joinColumn = some c) :
    a.join source target x y = .ok (directJoin target y (storedEquality c x y)) := by
  rcases hkind with hkind | hkind <;> simp only [join, hkind, hc] <;> rfl

theorem join_mapped_column {c : JoinColumn} {mappedBy : String}
    (hkind : a.kind = .oneToMany ∨ a.kind = .oneToOne) (hnone : a.joinColumn = none)
    (hmapped : a.mappedBy = some mappedBy) (hb : target.association? mappedBy = some b)
    (hc : b.joinColumn = some c) :
    a.join source target x y = .ok (directJoin target y (storedEquality c y x)) := by
  rcases hkind with hkind | hkind <;>
    simp [join, hkind, hnone, hmapped, inverse, hb, hc, bind, Except.bind, storedEquality]

theorem join_storing_table {t : JoinTable} (hkind : a.kind = .manyToMany)
    (hnone : a.mappedBy = none) (ht : a.joinTable = some t) :
    a.join source target x y =
      .ok (linkedJoin t t.joinColumns t.inverseColumns target x y) := by
  simp only [join, hkind, linkColumns, hnone, ht]
  rfl

theorem join_mapped_table {t : JoinTable} {mappedBy : String} (hkind : a.kind = .manyToMany)
    (hmapped : a.mappedBy = some mappedBy) (hb : target.association? mappedBy = some b)
    (ht : b.joinTable = some t) : a.join source target x y =
      .ok (linkedJoin t t.inverseColumns t.joinColumns target x y) := by
  simp only [join, hkind, linkColumns, hmapped, inverse, hb, ht, bind, Except.bind]
  rfl

def linkPairs (cs : List JoinColumn) (link x : String) : List (Sym2 QualifiedColumn) :=
  cs.map fun c => s(⟨link, c.name⟩, ⟨x, c.referenced⟩)

theorem pairs_linkedJoin (t : JoinTable) (toSource toTarget : List JoinColumn) (target : Metadata)
    (x y new : String) :
    ((linkedJoin t toSource toTarget target x y).equalities.map
        (ColumnEquality.rename (linkAlias x y) new)).map ColumnEquality.pair =
      linkPairs toSource new x ++ linkPairs toTarget new y := by
  simp [AssociationJoin.equalities, AssociationJoin.steps, linkedJoin, linkPairs, storedEquality,
    ColumnEquality.rename, ColumnEquality.pair, Function.comp_def, Sym2.eq_swap]

theorem rename_self (link : String) (e : ColumnEquality) : e.rename link link = e := by
  have h : ∀ c : QualifiedColumn, c.rename link link = c := fun c => by
    unfold QualifiedColumn.rename
    split
    · rename_i hc
      rw [← hc]
    · rfl
  rw [ColumnEquality.rename, h, h]

theorem sameColumns_linkedJoin (t : JoinTable) (cs ds : List JoinColumn) (source : Metadata) :
    (linkedJoin t cs ds target x y).SameColumns (linkedJoin t ds cs source y x)
      (linkAlias x y) (linkAlias y x) := by
  have hpairs := pairs_linkedJoin t ds cs source y x (linkAlias y x)
  rw [show ColumnEquality.rename (linkAlias y x) (linkAlias y x) = id from
    funext (rename_self _), List.map_id] at hpairs
  rw [AssociationJoin.SameColumns, pairs_linkedJoin, hpairs]
  exact List.perm_append_comm

theorem sameColumns_directJoin (c : JoinColumn) (source : Metadata) :
    (directJoin target y (storedEquality c x y)).SameColumns
      (directJoin source x (storedEquality c x y)) (linkAlias x y) (linkAlias y x) := by
  simp [AssociationJoin.SameColumns, AssociationJoin.equalities, AssociationJoin.steps, directJoin,
    storedEquality, ColumnEquality.rename]

theorem steps_directJoin (c : JoinColumn) :
    (directJoin target z (storedEquality c x y)).steps.map JoinStep.condition =
      [x ++ "." ++ c.name ++ " = " ++ (y ++ "." ++ c.referenced)] := rfl

theorem OtherSide.joins {m n : Metadata} (h : OtherSide a b)
    (hinverse : m.association? a.name = some a) (A B x y : String) : ∃ j k,
    a.join A n x y = .ok j ∧ b.join B m y x = .ok k ∧
      j.SameColumns k (linkAlias x y) (linkAlias y x) ∧
      ∀ c, a.kind ≠ .manyToMany → a.joinColumn = some c →
        j.steps.map JoinStep.condition =
          [x ++ "." ++ c.name ++ " = " ++ (y ++ "." ++ c.referenced)] ∧
        k.steps.map JoinStep.condition = j.steps.map JoinStep.condition := by
  cases h with
  | @column c hkind hc hkind' hnone hmapped =>
    refine ⟨_, _, join_storing_column hkind hc,
      join_mapped_column hkind' hnone hmapped hinverse hc, sameColumns_directJoin c m,
      fun c' _ hc' => ?_⟩
    obtain rfl : c = c' := Option.some.inj (hc.symm.trans hc')
    exact ⟨steps_directJoin c, rfl⟩
  | @table t hkind hnone ht hkind' hmapped =>
    exact ⟨_, _, join_storing_table hkind hnone ht,
      join_mapped_table hkind' hmapped hinverse ht, sameColumns_linkedJoin t _ _ m,
      fun _ hnot => absurd hkind hnot⟩

end Association

theorem Metadata.association?_of_mem {m : Metadata} {a : Association} (h : a ∈ m.associations) :
    m.association? a.name = some a := by
  cases hfound : m.association? a.name with
  | none => simpa using List.find?_eq_none.mp hfound a h
  | some b =>
    have hname : b.name = a.name := by simpa using List.find?_some hfound
    have hnodup := (List.nodup_append.mp m.names_nodup).2.1
    rw [eq_of_key_eq hnodup (List.mem_of_find?_eq_some hfound) h hname]

open ObjectQuery (associationJoinBy post_associationJoin)
open Association (OtherSide)

theorem run_associationJoin (source association x y : String) (r : Registry) :
    ((associationJoin source association x y).run r).1 =
      associationJoinBy r.view source association x y := by
  obtain ⟨hok, herror⟩ := Action.post_iff.mp (post_associationJoin source association x y r)
  match h : (associationJoin source association x y).run r with
  | (.ok j, t) => exact (hok j t h).1.symm
  | (.error e, t) => exact (herror e t h).symm

theorem associationJoinBy_of_mem {view : String → Except Error Metadata} {source x y : String}
    {m target : Metadata} {a : Association} (hm : view source = .ok m) (ha : a ∈ m.associations)
    (htarget : view a.target = .ok target) :
    associationJoinBy view source a.name x y = a.join source target x y := by
  simp [associationJoinBy, hm, Metadata.association?_of_mem ha, htarget, bind, Except.bind]

/-- Joined from the side that stores it or from the other, an association ties the same columns
together. -/
theorem join_sides {r : Registry} {A B : String} {m n : Metadata} {a b : Association}
    (hm : r.view A = .ok m) (hn : r.view B = .ok n) (ha : a ∈ m.associations)
    (hb : b ∈ n.associations) (hA : a.target = B) (hB : b.target = A) (h : OtherSide a b)
    (x y : String) : ∃ j k,
      ((associationJoin A a.name x y).run r).1 = .ok j ∧
      ((associationJoin B b.name y x).run r).1 = .ok k ∧
      j.SameColumns k (linkAlias x y) (linkAlias y x) ∧
      (∀ c, a.kind ≠ .manyToMany → a.joinColumn = some c →
        j.steps.map JoinStep.condition =
          [x ++ "." ++ c.name ++ " = " ++ (y ++ "." ++ c.referenced)] ∧
        k.steps.map JoinStep.condition = j.steps.map JoinStep.condition) ∧
      (j.targetStep.table = n.fullTableName ∧ j.targetStep.aliasName = y) ∧
      (k.targetStep.table = m.fullTableName ∧ k.targetStep.aliasName = x) ∧
      Scoped [x] j.steps ∧ Scoped [y] k.steps := by
  subst hA hB
  obtain ⟨j, k, hj, hk, hsame, htexts⟩ :=
    h.joins (n := n) (Metadata.association?_of_mem ha) b.target a.target x y
  have hjby := Association.joinsBy_of_join hj
  have hkby := Association.joinsBy_of_join hk
  rw [run_associationJoin, run_associationJoin, associationJoinBy_of_mem hm ha hn,
    associationJoinBy_of_mem hn hb hm]
  exact ⟨j, k, hj, hk, hsame, htexts, hjby.targetStep.2, hkby.targetStep.2, hjby.scoped,
    hkby.scoped⟩

end Schema

namespace Sample

open Schema

def studentsOfCourse : Association where
  name := "students"
  kind := .manyToMany
  target := "Student"
  joinTable := some
    { name := "enrolments"
      schema := some "campus"
      joinColumns := [⟨"course_code", "code", false⟩, ⟨"course_year", "year", false⟩]
      inverseColumns := [⟨"student_number", "number", false⟩, ⟨"student_school", "school", false⟩] }

def coursesOfStudent : Association where
  name := "courses"
  kind := .manyToMany
  target := "Course"
  mappedBy := some "students"

def tutorOfCourse : Association where
  name := "tutor"
  kind := .manyToOne
  target := "Student"
  joinColumn := some ⟨"tutor_number", "number", true⟩

def tutoredByStudent : Association where
  name := "tutored"
  kind := .oneToMany
  target := "Course"
  mappedBy := some "tutor"

def courseMapping : Mapping where
  isEntity := true
  table := some "courses"
  associations := [studentsOfCourse, tutorOfCourse]

def studentMapping : Mapping where
  isEntity := true
  table := some "students"
  associations := [coursesOfStudent, tutoredByStudent]

def campus : Registry :=
  (Registry.empty.register "Course" courseMapping).register "Student" studentMapping

end Sample

namespace Schema

open Sample

theorem join_sides_campus :
    (∃ j k, ((associationJoin "Course" "students" "c" "s").run campus).1 = .ok j ∧
      ((associationJoin "Student" "courses" "s" "c").run campus).1 = .ok k ∧
      j.SameColumns k "c_s" "s_c" ∧
      j.steps.map JoinStep.condition =
        ["c_s.course_code = c.code AND c_s.course_year = c.year",
         "s.number = c_s.student_number AND s.school = c_s.student_school"] ∧
      k.steps.map JoinStep.condition =
        ["s_c.student_number = s.number AND s_c.student_school = s.school",
         "c.code = s_c.course_code AND c.year = s_c.course_year"]) ∧
    ∃ j k, ((associationJoin "Course" "tutor" "c" "s").run campus).1 = .ok j ∧
      ((associationJoin "Student" "tutored" "s" "c").run campus).1 = .ok k ∧
      j.steps.map JoinStep.condition = ["c.tutor_number = s.number"] ∧
      k.steps.map JoinStep.condition = ["c.tutor_number = s.number"] := by
  have hcourse : campus.view "Course" =
      .ok (courseMapping.toMetadata "Course" (by decide)) := by decide
  have hstudent : campus.view "Student" =
      .ok (studentMapping.toMetadata "Student" (by decide)) := by decide
  constructor
  · obtain ⟨j, k, hj, hk, hsame, -⟩ := join_sides (a := studentsOfCourse) (b := coursesOfStudent)
      hcourse hstudent (by decide) (by decide) rfl rfl (.table rfl rfl rfl rfl rfl) "c" "s"
    refine ⟨j, k, hj, hk, hsame, ?_, ?_⟩
    · obtain rfl := Except.ok.inj (hj.symm.trans (by rfl))
      decide
    · obtain rfl := Except.ok.inj (hk.symm.trans (by rfl))
      decide
  · obtain ⟨j, k, hj, hk, -, hcolumn, -⟩ := join_sides (a := tutorOfCourse) (b := tutoredByStudent)
      hcourse hstudent (by decide) (by decide) rfl rfl (.column (.inl rfl) rfl (.inl rfl) rfl rfl)
      "c" "s"
    obtain ⟨hstored, hmapped⟩ := hcolumn ⟨"tutor_number", "number", true⟩ (by decide) rfl
    exact ⟨j, k, hj, hk, hstored, hmapped.trans hstored⟩

end Schema
end Persistence
