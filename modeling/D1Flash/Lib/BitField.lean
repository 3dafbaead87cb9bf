import Mathlib.Algebra.Group.Nat.Defs
import Mathlib.Tactic.Common

namespace BitField
set_option autoImplicit true

/-- A word with `val` put at `shift`, where `width` bits are cleared first. A value wider than
that is not masked. -/
def setBits (shift width : Nat) (reg val : BitVec w) : BitVec w :=
  (reg &&& ~~~((BitVec.allOnes w >>> (w - width)) <<< shift)) ||| (val <<< shift)

theorem mask_getLsbD (shift width : Nat) (hi : i < w) (hw : width ≤ w) :
    ((BitVec.allOnes w >>> (w - width)) <<< shift).getLsbD i =
      decide (shift ≤ i ∧ i < shift + width) := by
  rw [BitVec.getLsbD_shiftLeft, BitVec.getLsbD_ushiftRight, BitVec.getLsbD_allOnes,
    decide_eq_true hi, Bool.true_and, ← decide_not, ← Bool.decide_and]
  apply decide_eq_decide.2
  omega

theorem setBits_below (reg val : BitVec w) (hw : width ≤ w) (hi : i < shift) :
    (setBits shift width reg val).getLsbD i = reg.getLsbD i := by
  by_cases h : i < w
  · have hm : ¬ (shift ≤ i ∧ i < shift + width) := fun hm => Nat.not_le.2 hi hm.1
    rw [setBits, BitVec.getLsbD_or, BitVec.getLsbD_and, BitVec.getLsbD_not, mask_getLsbD _ _ h hw,
      BitVec.getLsbD_shiftLeft, decide_eq_false hm, decide_eq_true h, decide_eq_true hi]
    simp only [Bool.not_false, Bool.not_true, Bool.and_true, Bool.and_false, Bool.false_and,
      Bool.or_false]
  · rw [BitVec.getLsbD_of_ge _ _ (Nat.not_lt.1 h), BitVec.getLsbD_of_ge _ _ (Nat.not_lt.1 h)]

theorem setBits_above (reg val : BitVec w) (hw : width ≤ w) (hv : val.toNat < 2 ^ width)
    (hi : shift + width ≤ i) : (setBits shift width reg val).getLsbD i = reg.getLsbD i := by
  by_cases h : i < w
  · have hm : ¬ (shift ≤ i ∧ i < shift + width) := fun hm => Nat.not_le.2 hm.2 hi
    have hbit : val.getLsbD (i - shift) = false := by
      have hle : 2 ^ width ≤ 2 ^ (i - shift) := Nat.pow_le_pow_right (by decide) (by omega)
      exact Nat.testBit_lt_two_pow (Nat.lt_of_lt_of_le hv hle)
    rw [setBits, BitVec.getLsbD_or, BitVec.getLsbD_and, BitVec.getLsbD_not, mask_getLsbD _ _ h hw,
      BitVec.getLsbD_shiftLeft, decide_eq_false hm, decide_eq_true h, hbit]
    simp only [Bool.not_false, Bool.and_true, Bool.and_false, Bool.or_false]
  · rw [BitVec.getLsbD_of_ge _ _ (Nat.not_lt.1 h), BitVec.getLsbD_of_ge _ _ (Nat.not_lt.1 h)]

theorem and_low_toNat (x : BitVec w) (hk : k ≤ w) :
    (x &&& BitVec.ofNat w (2 ^ k - 1)).toNat = x.toNat % 2 ^ k := by
  have hlt : 2 ^ k - 1 < 2 ^ w :=
    Nat.lt_of_lt_of_le (Nat.sub_lt (Nat.two_pow_pos k) Nat.one_pos)
      (Nat.pow_le_pow_right (by decide) hk)
  rw [BitVec.toNat_and, BitVec.toNat_ofNat, Nat.mod_eq_of_lt hlt, Nat.and_two_pow_sub_one_eq_mod]

theorem and_high_toNat (x : BitVec w) (k : Nat) :
    (x &&& ~~~(BitVec.ofNat w (2 ^ k - 1))).toNat = x.toNat / 2 ^ k * 2 ^ k := by
  have hshift : x &&& ~~~(BitVec.ofNat w (2 ^ k - 1)) = (x >>> k) <<< k := by
    apply BitVec.eq_of_getLsbD_eq
    intro i hi
    rw [BitVec.getLsbD_and, BitVec.getLsbD_not, BitVec.getLsbD_shiftLeft,
      BitVec.getLsbD_ushiftRight, BitVec.getLsbD_ofNat, Nat.testBit_two_pow_sub_one,
      decide_eq_true hi]
    by_cases hik : i < k
    · rw [decide_eq_true hik]
      simp only [Bool.and_true, Bool.not_true, Bool.and_false, Bool.false_and]
    · have hsub : k + (i - k) = i := Nat.add_sub_cancel' (Nat.le_of_not_lt hik)
      rw [decide_eq_false hik, hsub]
      simp only [Bool.and_false, Bool.not_false, Bool.and_true, Bool.true_and]
  have hle : x.toNat / 2 ^ k * 2 ^ k < 2 ^ w :=
    Nat.lt_of_le_of_lt (Nat.div_mul_le_self _ _) x.isLt
  rw [hshift, BitVec.toNat_shiftLeft, BitVec.toNat_ushiftRight, Nat.shiftRight_eq_div_pow,
    Nat.shiftLeft_eq, Nat.mod_eq_of_lt hle]

theorem one_shiftLeft_getLsbD (c : Nat) (hd : d < w) :
    (1#w <<< c).getLsbD d = decide (d = c) := by
  rw [BitVec.getLsbD_shiftLeft, decide_eq_true hd, Bool.true_and, BitVec.getLsbD_one]
  by_cases hlt : d < c
  · rw [decide_eq_true hlt, decide_eq_false (Nat.ne_of_lt hlt)]
    rfl
  · have hw : 0 < w := Nat.lt_of_le_of_lt (Nat.zero_le d) hd
    rw [decide_eq_false hlt, decide_eq_true hw, Bool.not_false, Bool.true_and, Bool.true_and]
    apply decide_eq_decide.2
    omega

end BitField
