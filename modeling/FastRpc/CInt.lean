import Mathlib.Data.Int.Notation
import Mathlib.Tactic.NormNum

/-! # The C type `int`

Values of type `int` are integers between `-2 ^ 31` and `2 ^ 31 - 1`.  Arithmetic wraps: a result is
brought back into this range by `wrap`, which changes nothing on a result that lies in it
(`wrap_of_inRange`). -/

namespace CInt

/-- `INT_MAX`. -/
abbrev intMax : ℤ := 2 ^ 31 - 1

/-- A value of type `int`. -/
def InRange (z : ℤ) : Prop := -2 ^ 31 ≤ z ∧ z ≤ intMax

instance (z : ℤ) : Decidable (InRange z) := inferInstanceAs (Decidable (_ ∧ _))

/-- The `int` with the low 32 bits of `z`. -/
def wrap (z : ℤ) : ℤ := Int.bmod z (2 ^ 32)

/-- The `uint32_t` with the low 32 bits of `z`. -/
def toU32 (z : ℤ) : ℤ := z % 2 ^ 32

theorem intMax_eq : intMax = 2147483647 := by decide

theorem inRange_of_nonneg {z : ℤ} (h0 : 0 ≤ z) (h : z ≤ intMax) : InRange z := ⟨by omega, h⟩

theorem wrap_of_inRange {z : ℤ} (h : InRange z) : wrap z = z := by
  obtain ⟨hlo, hhi⟩ := h
  unfold wrap Int.bmod
  norm_num at *
  omega

theorem inRange_wrap (z : ℤ) : InRange (wrap z) := by
  unfold InRange wrap Int.bmod
  norm_num
  omega

theorem toU32_of_nonneg {z : ℤ} (h0 : 0 ≤ z) (h : z ≤ intMax) : toU32 z = z := by
  unfold toU32
  norm_num at *
  omega

end CInt
