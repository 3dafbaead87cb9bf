import Mathlib.Algebra.BigOperators.Intervals
import Mathlib.Algebra.Order.BigOperators.Group.Finset

namespace Bins
set_option autoImplicit true

variable (len : Nat → Int)

/-- The walk over the bins from `k` on: a position past the end of a bin goes on in the next one.
It is `none` when `turns` bins are not enough. -/
def locate : Nat → Nat → Int → Option (Nat × Int)
  | 0, _, _ => none
  | turns + 1, k, n => if n > len k then locate turns (k + 1) (n - len k) else some (k, n)

/-- What the bins from `a` up to `b` hold together. -/
def before (a b : Nat) : Int := ∑ i ∈ Finset.Ico a b, len i

variable {len}

@[simp] theorem before_self : before len a a = 0 := by
  rw [before, Finset.Ico_self, Finset.sum_empty]

theorem before_first (len : Nat → Int) (h : a < b) :
    before len a b = len a + before len (a + 1) b :=
  Finset.sum_eq_sum_Ico_succ_bot h len

theorem before_last (len : Nat → Int) (h : a ≤ b) : before len a (b + 1) = before len a b + len b :=
  Finset.sum_Ico_succ_top h len

theorem before_nonneg (h : ∀ i, 0 ≤ len i) : 0 ≤ before len a b :=
  Finset.sum_nonneg fun i _ => h i

theorem before_mono (hlen : ∀ i, 0 ≤ len i) (hb : b ≤ c) : before len a b ≤ before len a c :=
  Finset.sum_le_sum_of_subset_of_nonneg (Finset.Ico_subset_Ico_right hb) fun i _ _ => hlen i

theorem locate_before (hlen : ∀ i, 0 ≤ len i) (hpos : 0 < r) (hr : r ≤ len k) (ha : a ≤ k)
    (ht : k < a + turns) : locate len turns a (before len a k + r) = some (k, r) := by
  induction turns generalizing a with
  | zero => omega
  | succ turns ih =>
    rw [locate]
    rcases Nat.eq_or_lt_of_le ha with rfl | hlt
    · rw [before_self, Int.zero_add, if_neg (by omega)]
    · have hnn := before_nonneg (a := a + 1) (b := k) hlen
      rw [before_first len hlt, if_pos (by omega)]
      have hrest : len a + before len (a + 1) k + r - len a = before len (a + 1) k + r := by omega
      rw [hrest]
      exact ih hlt (by omega)

/-- What the walk ends with: the position is the bins it passed and what is left in its bin. -/
theorem locate_spec (h : locate len turns a n = some (k, r)) :
    a ≤ k ∧ n = before len a k + r ∧ r ≤ len k := by
  induction turns generalizing a n with
  | zero => cases h
  | succ turns ih =>
    rw [locate] at h
    split at h
    · obtain ⟨hk, hn, hr⟩ := ih h
      have hf := before_first len hk
      exact ⟨Nat.le_of_succ_le hk, by omega, hr⟩
    · cases h
      exact ⟨Nat.le_refl k, by rw [before_self, Int.zero_add], by omega⟩

theorem before_inj (hlen : ∀ i, 0 ≤ len i) (hr : 0 < r ∧ r ≤ len k) (hr' : 0 < r' ∧ r' ≤ len k')
    (hk : a ≤ k) (hk' : a ≤ k') (h : before len a k + r = before len a k' + r') :
    k = k' ∧ r = r' := by
  have hl : locate len (k + k' + 1) a (before len a k + r) = some (k, r) :=
    locate_before hlen hr.1 hr.2 hk (by omega)
  have hl' : locate len (k + k' + 1) a (before len a k' + r') = some (k', r') :=
    locate_before hlen hr'.1 hr'.2 hk' (by omega)
  rw [h, hl'] at hl
  cases hl
  exact ⟨rfl, rfl⟩

theorem locate_pos (h : locate len turns a n = some (k, r)) (hn : 0 < n) : 0 < r := by
  induction turns generalizing a n with
  | zero => cases h
  | succ turns ih =>
    rw [locate] at h
    split at h
    · exact ih h (by omega)
    · cases h
      exact hn

theorem locate_more (h : locate len turns a n = some p) (hle : turns ≤ turns') :
    locate len turns' a n = some p := by
  induction turns generalizing turns' a n with
  | zero => cases h
  | succ turns ih =>
    obtain ⟨t, rfl⟩ := Nat.exists_eq_succ_of_ne_zero (Nat.pos_iff_ne_zero.1 (Nat.lt_of_lt_of_le
      turns.succ_pos hle))
    rw [locate] at h ⊢
    split at h
    · next hgt => rw [if_pos hgt]; exact ih h (Nat.le_of_succ_le_succ hle)
    · next hgt => rw [if_neg hgt]; exact h

/-- Bins that hold the position together are enough for the walk. -/
theorem locate_ends (len : Nat → Int) (a turns : Nat) (h : n ≤ before len a (a + turns + 1)) :
    ∃ k r, locate len (turns + 1) a n = some (k, r) ∧ k ≤ a + turns := by
  induction turns generalizing a n with
  | zero =>
    rw [Nat.add_zero, before_last len (Nat.le_refl a), before_self, Int.zero_add] at h
    rw [locate, if_neg (by omega)]
    exact ⟨a, n, rfl, Nat.le_refl a⟩
  | succ turns ih =>
    rw [locate]
    split
    · have hf := before_first len (a := a) (b := a + (turns + 1) + 1) (by omega)
      have hb : a + (turns + 1) + 1 = a + 1 + turns + 1 := by omega
      rw [hb] at hf h
      obtain ⟨k, r, hl, hk⟩ := ih (a + 1) (n := n - len a) (by omega)
      exact ⟨k, r, hl, by omega⟩
    · exact ⟨a, n, rfl, Nat.le_add_right a _⟩

theorem le_before (h : ∀ i, c ≤ len i) (a m : Nat) : (m : Int) * c ≤ before len a (a + m) := by
  have hs := Finset.card_nsmul_le_sum (Finset.Ico a (a + m)) len c fun i _ => h i
  rw [Nat.card_Ico, Nat.add_sub_cancel_left] at hs
  exact hs

theorem before_le (h : ∀ i, len i ≤ c) (a m : Nat) : before len a (a + m) ≤ (m : Int) * c := by
  have hs := Finset.sum_le_card_nsmul (Finset.Ico a (a + m)) len c fun i _ => h i
  rw [Nat.card_Ico, Nat.add_sub_cancel_left] at hs
  exact hs

end Bins
