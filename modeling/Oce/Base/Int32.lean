import Mathlib.Algebra.Group.Int.Defs
import Mathlib.Algebra.Group.Nat.Defs
import Mathlib.Data.Int.Init
import Mathlib.Tactic.TypeStar

/-!
# Numbers of 32 bits

A number that does not fit an `int` is cut when it is stored in one. Where an operation on `int`s
leaves their range, its result is not defined.
-/

set_option autoImplicit false

namespace Oce.Base

/-- The values of an `int`. -/
def IsInt (n : ℤ) : Prop := -2 ^ 31 ≤ n ∧ n < 2 ^ 31

instance (n : ℤ) : Decidable (IsInt n) := inferInstanceAs (Decidable (_ ∧ _))

/-- A wider number stored in an `int`. -/
def asInt (n : ℤ) : ℤ := n.bmod (2 ^ 32)

theorem asInt_of_isInt {n : ℤ} (h : IsInt n) : asInt n = n := by
  obtain ⟨hlo, hhi⟩ := h
  exact Int.bmod_eq_of_le (by omega) (by omega)

/-- A sum that runs over the end of the range comes out at its beginning. -/
theorem asInt_of_le {n : ℤ} (h : 2 ^ 31 ≤ n) (h' : n < 2 ^ 32) : asInt n = n - 2 ^ 32 := by
  have hwrap : asInt n = asInt (n - 2 ^ 32) := by
    unfold asInt
    exact (Int.sub_bmod_right n (2 ^ 32)).symm
  rw [hwrap, asInt_of_isInt ⟨by omega, by omega⟩]

theorem asInt_asInt_add (n k : ℤ) : asInt (asInt n + k) = asInt (n + k) := Int.bmod_add_bmod

end Oce.Base
