import Mathlib

/-! Integers of 64 bits, or 32, with a sign. A sum is brought back into the range where the language
wraps around, and refused where the store counts with a check. -/
namespace GameIM.Lib

def IsInt64 (n : Int) : Prop := -2 ^ 63 ≤ n ∧ n < 2 ^ 63

instance (n : Int) : Decidable (IsInt64 n) := inferInstanceAs (Decidable (_ ∧ _))

def IsInt32 (n : Int) : Prop := -2 ^ 31 ≤ n ∧ n < 2 ^ 31

instance (n : Int) : Decidable (IsInt32 n) := inferInstanceAs (Decidable (_ ∧ _))

/-- The value of an int64 expression whose mathematical value is `n`. -/
def wrap64 (n : Int) : Int := n.bmod (2 ^ 64)

theorem wrap64_of_isInt64 {n : Int} (fits : IsInt64 n) : wrap64 n = n := by
  obtain ⟨low, high⟩ := fits
  exact Int.bmod_eq_of_le (by omega) (by omega)

/-- Whether an addition leaves the range, from a value inside it. -/
def Overflows (old delta : Int) : Prop := (0 < delta ∧ 2 ^ 63 ≤ old + delta) ∨ (delta < 0 ∧ old + delta < -2 ^ 63)

instance (old delta : Int) : Decidable (Overflows old delta) := inferInstanceAs (Decidable (_ ∨ _))

theorem isInt64_add {old delta : Int} (fits : IsInt64 old) (room : ¬ Overflows old delta) : IsInt64 (old + delta) := by
  obtain ⟨low, high⟩ := fits
  simp only [Overflows, not_or, not_and] at room
  constructor
  · by_contra below
    exact room.2 (by omega) (by omega)
  · by_contra above
    exact room.1 (by omega) (by omega)

/-- A double has these exactly. -/
def IsExact (n : Int) : Prop := n.natAbs ≤ 2 ^ 53

instance (n : Int) : Decidable (IsExact n) := inferInstanceAs (Decidable (_ ≤ _))

theorem IsExact.isInt64 {n : Int} (exact : IsExact n) : IsInt64 n := by
  unfold IsExact at exact
  exact ⟨by omega, by omega⟩

end GameIM.Lib
