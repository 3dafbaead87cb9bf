import D1Flash.Lib.BitField
import Mathlib.Logic.Function.Basic

namespace RegFile
open BitField
set_option autoImplicit true

/-- Bits of one register of a file. -/
structure Field where
  off : Nat
  shift : Nat
  width : Nat
  deriving DecidableEq

namespace Field

def get (f : Field) (regs : Nat → BitVec w) : BitVec w :=
  (regs f.off >>> f.shift) &&& (BitVec.allOnes w >>> (w - f.width))

def set (f : Field) (v : BitVec w) (regs : Nat → BitVec w) : Nat → BitVec w :=
  Function.update regs f.off (setBits f.shift f.width (regs f.off) v)

/-- The bit `i` of the register at `off` is one of the field. -/
def Has (f : Field) (off i : Nat) : Prop := off = f.off ∧ f.shift ≤ i ∧ i < f.shift + f.width

instance (f : Field) (off i : Nat) : Decidable (f.Has off i) :=
  inferInstanceAs (Decidable (_ ∧ _))

def Apart (f g : Field) : Prop := ∀ off i, f.Has off i → ¬ g.Has off i

theorem Apart.symm (h : Apart f g) : Apart g f := fun off i hg hf => h off i hf hg

theorem apart_of_ranges {f g : Field}
    (h : f.off ≠ g.off ∨ f.shift + f.width ≤ g.shift ∨ g.shift + g.width ≤ f.shift) :
    f.Apart g := by
  rintro off i ⟨hf, hf₁, hf₂⟩ ⟨hg, hg₁, hg₂⟩
  omega

theorem get_getLsbD (f : Field) (regs : Nat → BitVec w) (hw : f.width ≤ w) (i : Nat) :
    (f.get regs).getLsbD i = (decide (i < f.width) && (regs f.off).getLsbD (f.shift + i)) := by
  by_cases hi : i < w
  · have hmask := mask_getLsbD 0 f.width hi hw
    rw [BitVec.shiftLeft_zero] at hmask
    rw [get, BitVec.getLsbD_and, BitVec.getLsbD_ushiftRight, hmask, Bool.and_comm]
    congr 1
    apply decide_eq_decide.2
    omega
  · have hlt : ¬ i < f.width := fun h => hi (Nat.lt_of_lt_of_le h hw)
    rw [BitVec.getLsbD_of_ge _ _ (Nat.not_lt.1 hi), decide_eq_false hlt, Bool.false_and]

theorem set_getLsbD (f : Field) (regs : Nat → BitVec w) (hw : f.shift + f.width ≤ w)
    (hv : v.toNat < 2 ^ f.width) (off i : Nat) :
    (f.set v regs off).getLsbD i =
      if f.Has off i then v.getLsbD (i - f.shift) else (regs off).getLsbD i := by
  rw [set, Function.update_apply]
  by_cases hoff : off = f.off
  · subst hoff
    rw [if_pos rfl]
    by_cases hi : f.Has f.off i
    · have hiw : i < w := Nat.lt_of_lt_of_le hi.2.2 hw
      rw [if_pos hi, setBits, BitVec.getLsbD_or, BitVec.getLsbD_and, BitVec.getLsbD_not,
        mask_getLsbD _ _ hiw (by omega), BitVec.getLsbD_shiftLeft, decide_eq_true hi.2,
        decide_eq_true hiw, decide_eq_false (Nat.not_lt.2 hi.2.1)]
      simp only [Bool.not_true, Bool.and_false, Bool.not_false, Bool.and_true, Bool.true_and,
        Bool.false_or]
    · rw [if_neg hi]
      rcases Nat.lt_or_ge i f.shift with hlo | hlo
      · exact setBits_below _ _ (by omega) hlo
      · apply setBits_above _ _ (by omega) hv
        apply Nat.le_of_not_lt
        intro hhi
        exact hi ⟨rfl, hlo, hhi⟩
  · rw [if_neg hoff, if_neg fun h => hoff h.1]

theorem get_set (f : Field) (regs : Nat → BitVec w) (hw : f.shift + f.width ≤ w)
    (hv : v.toNat < 2 ^ f.width) : f.get (f.set v regs) = v := by
  apply BitVec.eq_of_getLsbD_eq
  intro i _
  rw [get_getLsbD _ _ (by omega), set_getLsbD f regs hw hv]
  by_cases hi : i < f.width
  · have hhas : f.Has f.off (f.shift + i) := ⟨rfl, Nat.le_add_right _ _, by omega⟩
    rw [if_pos hhas, decide_eq_true hi, Bool.true_and, Nat.add_sub_cancel_left]
  · have hle : 2 ^ f.width ≤ 2 ^ i := Nat.pow_le_pow_right (by decide) (Nat.not_lt.1 hi)
    have hbit : v.getLsbD i = false := Nat.testBit_lt_two_pow (Nat.lt_of_lt_of_le hv hle)
    rw [decide_eq_false hi, Bool.false_and, hbit]

theorem get_set_apart (h : Apart f g) (regs : Nat → BitVec w) (hw : f.shift + f.width ≤ w)
    (hg : g.width ≤ w) (hv : v.toNat < 2 ^ f.width) : g.get (f.set v regs) = g.get regs := by
  apply BitVec.eq_of_getLsbD_eq
  intro i _
  rw [get_getLsbD _ _ hg, get_getLsbD _ _ hg, set_getLsbD f regs hw hv]
  by_cases hi : i < g.width
  · have hhas : g.Has g.off (g.shift + i) := ⟨rfl, Nat.le_add_right _ _, by omega⟩
    rw [if_neg (h.symm _ _ hhas)]
  · rw [decide_eq_false hi, Bool.false_and, Bool.false_and]

theorem set_comm (h : Apart f g) (regs : Nat → BitVec w) (hf : f.shift + f.width ≤ w)
    (hg : g.shift + g.width ≤ w) (hv : v.toNat < 2 ^ f.width) (hu : u.toNat < 2 ^ g.width) :
    g.set u (f.set v regs) = f.set v (g.set u regs) := by
  funext off
  apply BitVec.eq_of_getLsbD_eq
  intro i _
  rw [set_getLsbD g _ hg hu, set_getLsbD f _ hf hv, set_getLsbD f _ hf hv, set_getLsbD g _ hg hu]
  by_cases hi : f.Has off i
  · rw [if_neg (h off i hi), if_pos hi, if_pos hi]
  · rw [if_neg hi, if_neg hi]

end Field

abbrev Sets (w : Nat) : Type := List (Field × BitVec w)

/-- The writes of the values, one after the other. -/
def setAll (sets : Sets w) (regs : Nat → BitVec w) : Nat → BitVec w :=
  sets.foldl (fun regs p => p.1.set p.2 regs) regs

/-- The fields are in the registers, and the values fit. -/
def Fit (sets : Sets w) : Prop := ∀ p ∈ sets, p.1.shift + p.1.width ≤ w ∧ p.2.toNat < 2 ^ p.1.width

def AllApart (sets : Sets w) : Prop := sets.Pairwise fun p q => p.1.Apart q.1

theorem Fit.tail {sets : Sets w} (h : Fit (p :: sets)) : Fit sets :=
  fun q hq => h q (List.mem_cons_of_mem p hq)

theorem setAll_getLsbD {sets : Sets w} (hf : Fit sets) (regs : Nat → BitVec w)
    (hno : ∀ p ∈ sets, ¬ p.1.Has off i) :
    (setAll sets regs off).getLsbD i = (regs off).getLsbD i := by
  induction sets generalizing regs with
  | nil => rfl
  | cons p sets ih =>
    obtain ⟨hw, hv⟩ := hf p List.mem_cons_self
    have htail := ih hf.tail (p.1.set p.2 regs) fun q hq => hno q (List.mem_cons_of_mem p hq)
    rw [Field.set_getLsbD p.1 regs hw hv, if_neg (hno p List.mem_cons_self)] at htail
    exact htail

theorem get_setAll_apart {sets : Sets w} (hf : Fit sets) (f : Field) (hw : f.width ≤ w)
    (regs : Nat → BitVec w) (h : ∀ p ∈ sets, p.1.Apart f) :
    f.get (setAll sets regs) = f.get regs := by
  induction sets generalizing regs with
  | nil => rfl
  | cons p sets ih =>
    obtain ⟨hpw, hv⟩ := hf p List.mem_cons_self
    have htail := ih hf.tail (p.1.set p.2 regs) fun q hq => h q (List.mem_cons_of_mem p hq)
    rw [Field.get_set_apart (h p List.mem_cons_self) regs hpw hw hv] at htail
    exact htail

theorem get_setAll {sets : Sets w} (hf : Fit sets) (ha : AllApart sets) (regs : Nat → BitVec w)
    (hp : p ∈ sets) : p.1.get (setAll sets regs) = p.2 := by
  induction sets generalizing regs with
  | nil => cases hp
  | cons q sets ih =>
    obtain ⟨hq, htail⟩ := List.pairwise_cons.1 ha
    obtain ⟨hw, hv⟩ := hf q List.mem_cons_self
    cases List.mem_cons.1 hp with
    | inl he =>
      subst he
      have hlater := get_setAll_apart hf.tail p.1 (Nat.le_trans (Nat.le_add_left _ _) hw)
        (p.1.set p.2 regs) fun r hr => (hq r hr).symm
      exact hlater.trans (Field.get_set p.1 regs hw hv)
    | inr hmem => exact ih hf.tail htail (q.1.set q.2 regs) hmem

end RegFile
