/-!
Comparison of names that ignores the case of the ASCII letters.

Keywords, type names, aggregate names and column names reported by a database are compared this
way. Letters outside ASCII are compared as they stand.
-/

namespace Persistence.Text

def asciiLower (s : String) : String := String.ofList (s.toList.map Char.toLower)

def sameName (a b : String) : Bool := a.toList.map Char.toLower == b.toList.map Char.toLower

theorem sameName_iff {a b : String} :
    sameName a b = true ↔ a.toList.map Char.toLower = b.toList.map Char.toLower := by
  simp [sameName]

@[simp] theorem sameName_refl (a : String) : sameName a a = true := by simp [sameName]

theorem sameName_comm (a b : String) : sameName a b = sameName b a :=
  Bool.eq_iff_iff.2 ⟨fun h => sameName_iff.2 (sameName_iff.1 h).symm,
    fun h => sameName_iff.2 (sameName_iff.1 h).symm⟩

end Persistence.Text
