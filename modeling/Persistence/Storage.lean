import Persistence.Error

/-!
Storages: the types of the fields an instance keeps its values in.

A storage takes exactly the values of its kind, and an optional one takes null besides. An integer
is taken by a double field as the nearest double and by a field of thirty-two bits if it fits.
-/

namespace Persistence

inductive Storage.Base
  | int64
  | int32
  | double
  | bool
  | text
  | bytes
deriving DecidableEq

structure Storage where
  base : Storage.Base
  optional : Bool
deriving DecidableEq

namespace Storage

def Base.name : Base → String
  | .int64 => "i64"
  | .int32 => "i32"
  | .double => "f64"
  | .bool => "bool"
  | .text => "String"
  | .bytes => "Vec<u8>"

def Base.initial : Base → Value
  | .int64 | .int32 => .int 0
  | .double => .double (Double.ofInt 0)
  | .bool => .bool false
  | .text => .text ""
  | .bytes => .bytes ByteArray.empty

def Base.convert (base : Base) (v : Value) : Except Error Value :=
  match base, v with
  | .int64, .int n => .ok (.int n)
  | .int32, .int n =>
    if -2147483648 ≤ n.toInt ∧ n.toInt < 2147483648 then .ok v else .error (.conversion v base.name)
  | .double, .double x => .ok (.double x)
  | .double, .int n => .ok (.double (Double.ofInt n.toInt))
  | .bool, .bool b => .ok (.bool b)
  | .text, .text s => .ok (.text s)
  | .bytes, .bytes b => .ok (.bytes b)
  | _, _ => .error (.conversion v base.name)

def initial (s : Storage) : Value := if s.optional then .null else s.base.initial

def convert (s : Storage) (v : Value) : Except Error Value :=
  if s.optional ∧ v = .null then .ok .null else s.base.convert v

theorem Base.convert_convert {b : Base} {v w : Value} (h : b.convert v = .ok w) :
    b.convert w = .ok w := by
  cases b <;> cases v <;> simp only [Base.convert, Except.ok.injEq, reduceCtorEq] at h
  case int32.int n =>
    split at h
    · rename_i hn
      simp only [Except.ok.injEq] at h
      subst h
      exact if_pos hn
    · simp at h
  all_goals
    subst h
    rfl

theorem convert_convert {s : Storage} {v w : Value} (h : s.convert v = .ok w) :
    s.convert w = .ok w := by
  unfold convert at h ⊢
  split at h
  · simp_all
  · split
    · simp_all
    · exact Base.convert_convert h

theorem convert_initial (s : Storage) : s.convert s.initial = .ok s.initial := by
  obtain ⟨b, optional⟩ := s
  cases optional
  · cases b <;> rfl
  · simp [convert, initial]

end Storage
end Persistence
