import Mathlib.Data.List.Sort
import Persistence.Proofs.Binding
import Persistence.Proofs.Numerals
import Persistence.Proofs.Plans

/-!
Pages of a result. The windows of the pages hold each row once, in order, and a page past the last
starts behind all rows. The numbers are those that words of sixty-four bits give, and none of them
is cut for a page that has rows.
-/

namespace Persistence

open Schema (Metadata)
open Sql (Direction Select Filter)

namespace Page

variable {total size number k : Nat}

/-- The rows of a page, by their places among all rows. -/
def window (total size number : Nat) : List Nat :=
  (List.range total).filter fun k => offset number size ≤ k ∧ k < offset number size + size

theorem mem_window : k ∈ window total size number ↔
    k < total ∧ offset number size ≤ k ∧ k < offset number size + size := by
  simp [window]

theorem lt_count_iff (hsize : 1 ≤ size) : k < count total size ↔ k * size < total := by
  rw [count, ← Nat.succ_le_iff, Nat.le_div_iff_mul_le hsize, Nat.succ_mul]
  omega

theorem count_eq_ite (hsize : 1 ≤ size) :
    count total size = if total % size = 0 then total / size else total / size + 1 := by
  have hdiv := Nat.div_add_mod' total size
  have hmod := Nat.mod_lt total hsize
  split
  · rw [count, Nat.div_eq_iff hsize]
    omega
  · rw [count, Nat.div_eq_iff hsize, Nat.succ_mul]
    omega

theorem mul_lt_of_le_count (hsize : 1 ≤ size) (hfirst : 1 ≤ number)
    (hlast : number ≤ count total size) : (number - 1) * size < total :=
  (lt_count_iff hsize).mp (by omega)

theorem offset_eq (htotal : total ≤ maxCount) (hsize : 1 ≤ size) (hfirst : 1 ≤ number)
    (hlast : number ≤ count total size) : offset number size = (number - 1) * size := by
  have hlt := mul_lt_of_le_count hsize hfirst hlast
  exact min_eq_left (by omega)

theorem le_offset (htotal : total ≤ maxCount) (hsize : 1 ≤ size) (h : count total size < number) :
    total ≤ offset number size := by
  have hle : ¬ (number - 1) * size < total := fun hlt =>
    absurd ((lt_count_iff hsize).mpr hlt) (by omega)
  exact le_min (not_lt.mp hle) htotal

theorem mem_window_iff_div (htotal : total ≤ maxCount) (hsize : 1 ≤ size) (hfirst : 1 ≤ number)
    (hlast : number ≤ count total size) :
    k ∈ window total size number ↔ k < total ∧ k / size + 1 = number := by
  have hquotient : k / size + 1 = number ↔ k / size = number - 1 := by omega
  rw [mem_window, offset_eq htotal hsize hfirst hlast, hquotient, Nat.div_eq_iff hsize]
  omega

theorem div_lt_count (hsize : 1 ≤ size) (h : k < total) : k / size < count total size :=
  (lt_count_iff hsize).mpr ((Nat.div_mul_le_self k size).trans_lt h)

/-- The windows of the pages, cut at the end of the rows, hold each row once and in order. Past the
last page there is nothing. -/
structure Partition (total size : Nat) : Prop where
  nonempty : ∀ number, 1 ≤ number → number ≤ count total size → window total size number ≠ []
  disjoint : (List.range' 1 (count total size)).Pairwise fun number number' =>
    (window total size number).Disjoint (window total size number')
  cover : (List.range' 1 (count total size)).flatMap (window total size) = List.range total
  beyond : ∀ number, count total size < number →
    total ≤ offset number size ∧ window total size number = []

theorem window_ne_nil (htotal : total ≤ maxCount) (hsize : 1 ≤ size) (hfirst : 1 ≤ number)
    (hlast : number ≤ count total size) : window total size number ≠ [] := by
  refine List.ne_nil_of_mem (a := offset number size) (mem_window.mpr ⟨?_, le_refl _, by omega⟩)
  rw [offset_eq htotal hsize hfirst hlast]
  exact mul_lt_of_le_count hsize hfirst hlast

theorem pairwise_window (htotal : total ≤ maxCount) (hsize : 1 ≤ size) :
    (List.range' 1 (count total size)).Pairwise fun number number' =>
      ∀ k ∈ window total size number, ∀ k' ∈ window total size number', k < k' := by
  refine (List.pairwise_lt_range' 1).imp_of_mem fun hn hn' hlt k hk k' hk' => ?_
  rw [List.mem_range'_1] at hn hn'
  obtain ⟨-, rfl⟩ := (mem_window_iff_div htotal hsize hn.1 (by omega)).mp hk
  obtain ⟨-, rfl⟩ := (mem_window_iff_div htotal hsize hn'.1 (by omega)).mp hk'
  exact Nat.lt_of_div_lt_div (Nat.succ_lt_succ_iff.mp hlt)

theorem mem_flatMap_window (htotal : total ≤ maxCount) (hsize : 1 ≤ size) :
    k ∈ (List.range' 1 (count total size)).flatMap (window total size) ↔ k < total := by
  constructor
  · intro h
    obtain ⟨number, -, hk⟩ := List.mem_flatMap.mp h
    exact (mem_window.mp hk).1
  · intro h
    have hfirst : 1 ≤ k / size + 1 := Nat.le_add_left 1 _
    have hlast : k / size + 1 ≤ count total size := div_lt_count hsize h
    refine List.mem_flatMap.mpr ⟨k / size + 1, List.mem_range'_1.mpr ⟨hfirst, by omega⟩, ?_⟩
    exact (mem_window_iff_div htotal hsize hfirst hlast).mpr ⟨h, rfl⟩

theorem partition (htotal : total ≤ maxCount) (hsize : 1 ≤ size) : Partition total size where
  nonempty _ hfirst hlast := window_ne_nil htotal hsize hfirst hlast
  disjoint := (pairwise_window htotal hsize).imp fun h _ hk hk' => Nat.lt_irrefl _ (h _ hk _ hk')
  cover := by
    -- Both lists go up and have the same members.
    refine List.Pairwise.eq_of_mem_iff (r := (· < ·)) ?_ List.pairwise_lt_range fun k => ?_
    · rw [List.pairwise_flatMap]
      exact ⟨fun number _ => List.pairwise_lt_range.filter _, pairwise_window htotal hsize⟩
    · rw [mem_flatMap_window htotal hsize, List.mem_range]
  beyond number h := by
    have hle := le_offset htotal hsize h
    refine ⟨hle, List.eq_nil_iff_forall_not_mem.mpr fun k hk => ?_⟩
    obtain ⟨hlt, hge, -⟩ := mem_window.mp hk
    omega

/-- A number of sixty-four bits. -/
abbrev Word := BitVec 64

/-- The product, or the greatest word if that is too small for it. -/
def Word.times (x y : Word) : Word := if BitVec.umulOverflow x y then BitVec.allOnes 64 else x * y

def Word.offset (number size : Word) : Word := (number - 1).times size

def Word.count (total size : Word) : Word :=
  if total % size = 0 then total / size else total / size + 1

theorem Word.toNat_le (x : Word) : x.toNat ≤ maxCount := Nat.le_sub_one_of_lt x.isLt

theorem Word.toNat_times (x y : Word) : (x.times y).toNat = min (x.toNat * y.toNat) maxCount := by
  unfold times
  split
  · rename_i h
    have hge : 2 ^ 64 ≤ x.toNat * y.toNat := by simpa [BitVec.umulOverflow] using h
    rw [BitVec.toNat_allOnes]
    exact (min_eq_right ((Nat.sub_le _ 1).trans hge)).symm
  · rename_i h
    have hlt : x.toNat * y.toNat < 2 ^ 64 := by simpa [BitVec.umulOverflow] using h
    rw [BitVec.toNat_mul_of_not_umulOverflow h]
    exact (min_eq_left (Nat.le_sub_one_of_lt hlt)).symm

/-- In words of sixty-four bits all steps are exact, but for the product that gives the offset of a
page past the last. -/
structure Exact (total size : Word) : Prop where
  predecessor : ∀ number : Word, 1 ≤ number.toNat → ¬ BitVec.usubOverflow number 1
  product : ∀ number : Word, 1 ≤ number.toNat → number.toNat ≤ count total.toNat size.toNat →
    ¬ BitVec.umulOverflow (number - 1) size
  successor : total % size ≠ 0 → ¬ BitVec.uaddOverflow (total / size) 1
  offset : ∀ number : Word, 1 ≤ number.toNat →
    (number.offset size).toNat = Page.offset number.toNat size.toNat
  offset_eq : ∀ number, 1 ≤ number → number ≤ Page.count total.toNat size.toNat →
    Page.offset number size.toNat = (number - 1) * size.toNat
  count : (total.count size).toNat = Page.count total.toNat size.toNat

theorem Word.not_usubOverflow_one {number : Word} (h : 1 ≤ number.toNat) :
    ¬ BitVec.usubOverflow number 1 := by
  simpa [BitVec.usubOverflow] using Nat.one_le_iff_ne_zero.mp h

theorem Word.toNat_sub_one {number : Word} (h : 1 ≤ number.toNat) :
    (number - 1).toNat = number.toNat - 1 :=
  BitVec.toNat_sub_of_not_usubOverflow (not_usubOverflow_one h)

theorem Word.mod_eq_zero_iff {x y : Word} : x % y = 0 ↔ x.toNat % y.toNat = 0 := by
  rw [BitVec.toNat_eq, BitVec.toNat_umod]
  rfl

theorem Word.not_uaddOverflow_div {x y : Word} (hy : 1 ≤ y.toNat) (h : x % y ≠ 0) :
    ¬ BitVec.uaddOverflow (x / y) 1 := by
  have hmod : x.toNat % y.toNat ≠ 0 := fun hzero => h (mod_eq_zero_iff.mpr hzero)
  have hpos : 0 < x.toNat := Nat.pos_of_ne_zero fun hzero => hmod (by rw [hzero, Nat.zero_mod])
  have hne : y.toNat ≠ 1 := fun hone => hmod (by rw [hone, Nat.mod_one])
  have hlt : x.toNat / y.toNat < x.toNat := Nat.div_lt_self hpos (by omega)
  simpa [BitVec.uaddOverflow] using hlt.trans_le (Nat.le_sub_one_of_lt x.isLt)

theorem exact (total size : Word) (hsize : 1 ≤ size.toNat) : Exact total size where
  predecessor _ hfirst := Word.not_usubOverflow_one hfirst
  product number hfirst hlast := by
    have hlt := mul_lt_of_le_count hsize hfirst hlast
    rw [← Word.toNat_sub_one hfirst] at hlt
    simpa [BitVec.umulOverflow] using hlt.trans total.isLt
  successor h := Word.not_uaddOverflow_div hsize h
  offset number hfirst := by
    rw [Word.offset, Word.toNat_times, Word.toNat_sub_one hfirst]
    rfl
  offset_eq _ hfirst hlast := Page.offset_eq total.toNat_le hsize hfirst hlast
  count := by
    rw [count_eq_ite hsize, Word.count]
    by_cases h : total % size = 0
    · rw [if_pos h, if_pos (Word.mod_eq_zero_iff.mp h), BitVec.toNat_udiv]
    · rw [if_neg h, if_neg (fun hzero => h (Word.mod_eq_zero_iff.mpr hzero)),
        BitVec.toNat_add_of_not_uaddOverflow (Word.not_uaddOverflow_div hsize h), BitVec.toNat_udiv]
      rfl

end Page

theorem Repository.le_of_toCount? {v : Value} {n : Nat} (h : toCount? v = some n) :
    n ≤ Page.maxCount := by
  cases v with
  | int k =>
    obtain ⟨hk, rfl⟩ : 0 ≤ k.toInt ∧ k.toInt.toNat = n := by simpa [toCount?] using h
    have hlt := k.toInt_lt
    change k.toInt.toNat ≤ 2 ^ 64 - 1
    omega
  | text s =>
    cases hcount : Literal.count (Text.trimBlanks s.toList) with
    | error => simp [toCount?, hcount, Except.toOption] at h
    | ok k =>
      obtain rfl : k = n := by simpa [toCount?, hcount, Except.toOption] using h
      exact Literal.le_of_count hcount
  | _ => simp [toCount?] at h

namespace Manager

open Persistence.Action (post_bind post_liftExcept)

variable {σ : Type} {type : EntityType} {frame : Frame} {conditions : Conditions}

def SendsPlanned (type : EntityType) (frame : Frame) (conditions : Conditions)
    (m t : Manager (Recorded σ)) : Prop :=
  ∃ call, planned m type frame conditions = [call] ∧
    t.session.connection.calls = m.session.connection.calls ++ [⟨call, none⟩]

theorem post_metadata_answers (type : EntityType) (m : Manager σ) : (metadata type).Post
    (fun md t => m.registry.view type.className = .ok md ∧ t.session = m.session ∧
      t.registry.view = m.registry.view) (fun _ _ => True) m := by
  rw [metadata, post_bind, Action.post_get, Action.post_ite]
  refine ⟨fun _ => ?_, fun _ => trivial⟩
  rw [onRegistry, Action.post_onPart]
  exact (ObjectQuery.post_describe type.className m.registry).mono
    (fun md r hr => ⟨hr.1, rfl, hr.2⟩) fun _ _ _ => trivial

theorem planned_congr {m t : Manager (Recorded σ)} (h : t.registry.view = m.registry.view) :
    planned t type frame conditions = planned m type frame conditions := by
  rw [planned, planned, h]

variable [Connection σ] {m t : Manager (Recorded σ)}

theorem post_select_sendsPlanned {md : Metadata} {q s : Select} {f : Filter}
    (hview : m.registry.view type.className = .ok md) (hq : frame md = .ok q)
    (hf : conditions md = .ok f) (hs : s = { q with filter := f }) (h : t.session = m.session) :
    (Repository.select s).Post
      (fun _ u => SendsPlanned type frame conditions m u ∧ u.registry = t.registry)
      (fun _ _ => True) t := by
  have hplanned := planned_eq hview hq hf hs
  rw [Repository.select, post_onSession, Session.select, Session.post_query, h]
  exact (Recorded.post_calls (ask s) _ m.session.connection).mono
    (fun _ _ hc => ⟨⟨ask s, hplanned, hc⟩, rfl⟩) fun _ _ _ => trivial

theorem post_findBy_sendsPlanned (type : EntityType) (criteria : Criteria)
    (order : List (String × Direction)) (limit offset : Option Nat) (m : Manager (Recorded σ)) :
    (Repository.findBy type criteria order limit offset).Post
      (fun _ t => SendsPlanned type (.window order limit offset) (.ofCriteria criteria) m t ∧
        t.registry.view = m.registry.view) (fun _ _ => True) m := by
  rw [Repository.findBy]
  simp only [post_bind, post_liftExcept]
  refine (post_metadata_answers type m).mono (fun md t ht => ?_) fun _ _ => id
  obtain ⟨hview, hsession, hanswers⟩ := ht
  refine ⟨fun f hf => ⟨fun o ho => ?_, fun _ _ => trivial⟩, fun _ _ => trivial⟩
  have hq := Frame.window_eq ho limit offset
  have hconditions : Conditions.ofCriteria criteria md = .ok f := hf
  refine (post_select_sendsPlanned hview hq hconditions rfl hsession).mono (fun rows u hu => ?_)
    fun _ _ => id
  refine (BoundQuery.post_hydrateAll type md rows u).mono (fun _ v hv => ?_) fun _ _ _ => trivial
  rw [hv, hu.2]
  exact ⟨hu.1, hanswers⟩

theorem post_count_sendsPlanned (type : EntityType) (criteria : Criteria) (m : Manager (Recorded σ)) :
    (Repository.count type criteria).Post
      (fun total t => total ≤ Page.maxCount ∧ SendsPlanned type .count (.ofCriteria criteria) m t)
      (fun _ _ => True) m := by
  rw [Repository.count]
  simp only [post_bind, post_liftExcept]
  refine (post_metadata_answers type m).mono (fun md t ht => ?_) fun _ _ => id
  obtain ⟨hview, hsession, -⟩ := ht
  refine ⟨fun f hf => ?_, fun _ _ => trivial⟩
  have hq : Frame.count md = .ok { table := md.fullTableName, projection := .count } := rfl
  have hconditions : Conditions.ofCriteria criteria md = .ok f := hf
  refine (post_select_sendsPlanned hview hq hconditions rfl hsession).mono (fun rows u hu => ?_)
    fun _ _ => id
  split
  · rename_i total htotal
    exact ⟨Repository.le_of_toCount? htotal, hu.1⟩
  · trivial

end Manager

namespace Repository

open Manager (planned)

variable {σ : Type} [Connection σ]

/-- What a page is that was answered: the numbers it was asked for, the number of pages for the
rows that were counted, and two calls, one for its window and one for the count. -/
structure Paged (type : EntityType) (number size : Nat) (criteria : Criteria)
    (order : List (String × Direction)) (m t : Manager (Recorded σ)) (page : Page) : Prop where
  first : 1 ≤ number
  sized : 1 ≤ size ∧ size ≤ Page.maxSize
  number_eq : page.number = number
  size_eq : page.size = size
  total_le : page.total ≤ Page.maxCount
  pageCount_eq : page.pageCount = Page.count page.total size
  calls : ∃ select count,
    planned m type (.window order (some size) (some (Page.offset number size)))
      (.ofCriteria criteria) = [select] ∧
    planned m type .count (.ofCriteria criteria) = [count] ∧
    t.session.connection.calls = m.session.connection.calls ++ [⟨select, none⟩, ⟨count, none⟩]

theorem post_paginate (type : EntityType) (number size : Nat) (criteria : Criteria)
    (order : List (String × Direction)) (m : Manager (Recorded σ)) :
    (paginate type number size criteria order).Post
      (fun page t => Paged type number size criteria order m t page) (fun _ _ => True) m := by
  rw [paginate]
  simp only [Action.post_bind, Action.post_ite, Action.post_throw, Action.post_pure]
  refine ⟨fun _ => trivial, fun hnumber => ⟨fun _ => trivial, fun hsize => ?_⟩⟩
  obtain ⟨hsize, hmax⟩ : 1 ≤ size ∧ size ≤ Page.maxSize := by omega
  refine (Manager.post_findBy_sendsPlanned type criteria order _ _ m).mono (fun items t ht => ?_)
    fun _ _ => id
  obtain ⟨⟨select, hselect, hfirst⟩, hanswers⟩ := ht
  refine (Manager.post_count_sendsPlanned type criteria t).mono (fun total u hu => ?_) fun _ _ => id
  obtain ⟨htotal, count, hcount, hlast⟩ := hu
  rw [Manager.planned_congr hanswers] at hcount
  have hcalls : u.session.connection.calls =
      m.session.connection.calls ++ [⟨select, none⟩, ⟨count, none⟩] := by
    rw [hlast, hfirst, List.append_assoc]
    rfl
  exact {
    first := Nat.pos_of_ne_zero hnumber
    sized := ⟨hsize, hmax⟩
    number_eq := rfl
    size_eq := rfl
    total_le := htotal
    pageCount_eq := rfl
    calls := ⟨select, count, hselect, hcount, hcalls⟩ }

/-- Pages hold each row once and in order, whatever the number of rows, and words of sixty-four bits
are enough to compute them. A page that is answered was selected with its size and its offset, and
says how many pages hold the rows that were counted. -/
theorem pages_partition {size : Page.Word} (hsize : 1 ≤ size.toNat) :
    (∀ total : Page.Word, Page.Partition total.toNat size.toNat ∧ Page.Exact total size) ∧
    ∀ type number criteria order (m t : Manager (Recorded σ)) page,
      (paginate type number size.toNat criteria order).run m = (.ok page, t) →
        Paged type number size.toNat criteria order m t page :=
  ⟨fun total => ⟨Page.partition total.toNat_le hsize, Page.exact total size hsize⟩,
    fun type number criteria order m _ _ hrun =>
      (post_paginate type number size.toNat criteria order m).of_run_ok hrun⟩

open Sample (Scripted user manager)

def crowd : Manager (Recorded Scripted) :=
  manager [] ⟨{ rows := [[], [.ofList [("COUNT(*)", .text "18446744073709551615")]]] }, []⟩

def lastPage : Page := ⟨[], 18446744073709551615, 18446744073709552, 1000, 18446744073709552⟩

theorem pages_partition_crowd :
    Page.Partition 18446744073709551615 1000 ∧ Page.Exact (.allOnes 64) 1000 ∧
    Paged user 18446744073709552 1000 .empty [] crowd
      ((paginate user 18446744073709552 1000 .empty []).run crowd).2 lastPage ∧
    ((paginate user 18446744073709552 1000 .empty []).run crowd).2.session.connection.calls =
      [⟨.query "SELECT id, name FROM users LIMIT 1000 OFFSET 18446744073709551000" [], none⟩,
       ⟨.query "SELECT COUNT(*) FROM users" [], none⟩] := by
  have hrun : (paginate user 18446744073709552 1000 .empty []).run crowd =
      (.ok lastPage, ((paginate user 18446744073709552 1000 .empty []).run crowd).2) :=
    Action.run_eq_of_fst (by decide +kernel)
  have hsize : 1 ≤ (1000 : Page.Word).toNat := by decide
  obtain ⟨htotals, hruns⟩ := pages_partition (σ := Scripted) hsize
  obtain ⟨hpartition, hexact⟩ := htotals (.allOnes 64)
  exact ⟨hpartition, hexact, hruns _ _ _ _ _ _ _ hrun, by decide +kernel⟩

end Repository

end Persistence
