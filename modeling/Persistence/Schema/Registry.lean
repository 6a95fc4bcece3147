import Persistence.Action
import Persistence.Schema.Checks

/-!
The registry: which class has which mapping.

Metadata is built from a mapping when a class is first described, and kept from then on unless the
registry is told not to. What has been kept for a class is dropped when the class is registered
again. `view` says what describing a class answers; describing changes only what is kept.
-/

namespace Persistence.Schema

structure Registry where
  mappings : OrderedMap String Mapping := .empty
  /-- The metadata kept so far. -/
  memo : OrderedMap String Metadata := .empty
  memoizing : Bool := true

/-- Work that may describe classes of a registry and may fail. -/
abbrev RegistryM := Action Registry

namespace Registry

def empty : Registry := {}

/-- Gives a class a mapping. A class that has one keeps its place and loses what was kept. -/
def register (r : Registry) (className : String) (m : Mapping) : Registry :=
  { r with mappings := r.mappings.insert className m, memo := r.memo.erase className }

/-- Changes what the mapping of a registered class declares. Kept metadata stays as it is. -/
def revise (r : Registry) (className : String) (m : Mapping) : Registry :=
  if r.mappings.contains className then { r with mappings := r.mappings.insert className m } else r

def setMemoizing (r : Registry) (on : Bool) : Registry :=
  { r with memoizing := on, memo := if on then r.memo else .empty }

def isRegistered (r : Registry) (className : String) : Bool := r.mappings.contains className

def classes (r : Registry) : List String := r.mappings.keys

/-- Whether the metadata of a class is kept, so that each description of it is the same one. -/
def isMemoized (r : Registry) (className : String) : Bool := r.memo.contains className

def invalidate (r : Registry) (className : String) : Registry :=
  { r with memo := r.memo.erase className }

def invalidateAll (r : Registry) : Registry := { r with memo := .empty }

/-- Builds the metadata of a class from its mapping. -/
def build (r : Registry) (className : String) : Except Error Metadata :=
  match r.mappings.get? className with
  | none => .error (.mapping (.notAnEntity className))
  | some m => m.build className r.isRegistered

/-- The answer to a description: what is kept, else what the mapping gives. -/
def view (r : Registry) (className : String) : Except Error Metadata :=
  if Text.isBlankText className then .error (.validation .emptyClassName)
  else match r.memo.get? className with
    | some m => .ok m
    | none => r.build className

def remember (r : Registry) (className : String) (m : Metadata) : Registry :=
  if r.memoizing then { r with memo := r.memo.insert className m } else r

/-- The metadata of a class. -/
def describe (className : String) : RegistryM Metadata := fun r =>
  match r.view className with
  | .ok m => (.ok m, r.remember className m)
  | .error e => (.error e, r)

theorem build_remember (r : Registry) (c d : String) (m : Metadata) :
    (r.remember c m).build d = r.build d := by
  by_cases h : r.memoizing = true
  · simp only [remember, h, if_true]
    rfl
  · simp only [remember, h, Bool.false_eq_true, if_false]

theorem view_remember {r : Registry} {c : String} {m : Metadata} (h : r.view c = .ok m) :
    (r.remember c m).view = r.view := by
  funext d
  unfold view
  rw [build_remember]
  by_cases hm : r.memoizing = true
  · by_cases hd : c = d
    · subst hd
      unfold view at h
      by_cases hb : Text.isBlankText c = true
      · simp [hb]
      · rw [if_neg hb] at h
        simp only [remember, hm, if_true, OrderedMap.get?_insert, if_neg hb]
        exact h.symm
    · simp [remember, hm, OrderedMap.get?_insert, hd]
  · simp [remember, hm]

theorem describe_fst (c : String) (r : Registry) : (describe c r).1 = r.view c := by
  unfold describe
  split <;> simp_all

theorem view_describe_snd (c : String) (r : Registry) : (describe c r).2.view = r.view := by
  unfold describe
  split
  · rename_i m h
    exact view_remember h
  · rfl

end Registry
end Persistence.Schema
