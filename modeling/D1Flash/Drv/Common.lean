import Mathlib.Algebra.Group.Nat.Defs
import Mathlib.Tactic.Common

namespace D1Flash
set_option autoImplicit true

abbrev csiOk : Int := 0
abbrev csiError : Int := -1

/-- An `int` passed on as `uint32_t`. -/
def toU32 (n : Int) : Nat := (n % 0x100000000).toNat

/-- A `uint32_t` given back as `int32_t`. -/
def toI32 (n : Nat) : Int := if n < 0x80000000 then n else (n : Int) - 0x100000000

theorem toU32_of_lt (h : n < 0x80000000) : toU32 (n : Nat) = n := by
  unfold toU32
  omega

theorem toI32_nonneg (h : n < 0x80000000) : ¬ toI32 n < 0 := by
  rw [toI32, if_pos h]
  omega

/-- A whole number nearest to `n / base`. -/
def Nearest (q n base : Nat) : Prop := 2 * n ≤ 2 * (q * base) + base ∧ 2 * (q * base) ≤ 2 * n + base

end D1Flash
