import Mathlib.Data.List.GetD
import Mathlib.Logic.Function.Basic
import Mathlib.Tactic.Common

namespace NorArray
set_option autoImplicit true

def slice (m : Nat → β) (a n : Nat) : List β :=
  (List.range n).map fun j => m (a + j)

@[simp] theorem slice_length (m : Nat → β) : (slice m a n).length = n := by
  simp only [slice, List.length_map, List.length_range]

@[simp] theorem slice_zero (m : Nat → β) : slice m a 0 = [] := rfl

theorem slice_append (m : Nat → β) : slice m a n ++ slice m (a + n) k = slice m a (n + k) := by
  simp only [slice, List.range_add, List.map_append, List.map_map]
  congr 1
  apply List.map_congr_left
  intro j _
  simp only [Function.comp_apply, Nat.add_assoc]

theorem slice_succ (m : Nat → β) : slice m a (n + 1) = m a :: slice m (a + 1) n := by
  rw [Nat.add_comm n 1, ← slice_append]
  rfl

theorem slice_getElem (m : Nat → β) (h : j < (slice m a n).length) :
    (slice m a n)[j] = m (a + j) := by
  simp only [slice, List.getElem_map, List.getElem_range]

theorem slice_const (x : β) : slice (fun _ => x) a n = List.replicate n x := by
  apply List.ext_getElem
  · rw [slice_length, List.length_replicate]
  · intro j hj hj'
    rw [slice_getElem, List.getElem_replicate]

theorem slice_congr (h : ∀ i, a ≤ i → i < a + n → m i = m' i) : slice m a n = slice m' a n := by
  apply List.map_congr_left
  intro j hj
  exact h _ (by omega) (by have := List.mem_range.1 hj; omega)

theorem slice_eq_iff : slice m a n = slice m' a n ↔ ∀ i, a ≤ i → i < a + n → m i = m' i := by
  refine ⟨fun h i hi hi' => ?_, slice_congr⟩
  have hj : i - a < n := by omega
  have hcell := List.map_inj_left.1 h (i - a) (List.mem_range.2 hj)
  rwa [Nat.add_sub_cancel' hi] at hcell

/-- The data is what the cells from `a` on hold, as far as the condition goes. -/
def Matches (P : Nat → Prop) (d : List β) (m : Nat → β) (a : Nat) : Prop :=
  ∀ j (h : j < d.length), P (a + j) → d[j] = m (a + j)

theorem Matches.of_eq {P : Nat → Prop} (hd : d = slice m' a n)
    (h : ∀ i, a ≤ i → i < a + n → P i → m' i = m i) : Matches P d m a := by
  subst hd
  intro j hj hP
  rw [slice_length] at hj
  rw [slice_getElem]
  exact h _ (Nat.le_add_right _ _) (Nat.add_lt_add_left hj _) hP

theorem Matches.eq_slice {P : Nat → Prop} (h : Matches P d m a)
    (hP : ∀ i, a ≤ i → i < a + d.length → P i) : d = slice m a d.length := by
  apply List.ext_getElem (slice_length _).symm
  intro j hj hj'
  rw [slice_getElem, h j hj (hP _ (Nat.le_add_right _ _) (Nat.add_lt_add_left hj _))]

def put (m : Nat → β) (a : Nat) (d : List β) : Nat → β :=
  fun i => if a ≤ i then d.getD (i - a) (m i) else m i

theorem put_outside (m : Nat → β) (h : i < a ∨ a + d.length ≤ i) : put m a d i = m i := by
  unfold put
  split
  · exact List.getD_eq_default _ _ (by omega)
  · rfl

theorem put_inside (m : Nat → β) (h : a ≤ i) (h' : i - a < d.length) :
    put m a d i = d[i - a] := by
  rw [put, if_pos h, List.getD_eq_getElem _ _ h']

@[simp] theorem put_nil (m : Nat → β) : put m a [] = m := by
  funext i
  exact put_outside m (by simp only [List.length_nil]; omega)

theorem put_append (m : Nat → β) : put (put m a d) (a + d.length) e = put m a (d ++ e) := by
  funext i
  by_cases hi : a + d.length ≤ i
  · rw [put, if_pos hi, put, put, if_pos (by omega), if_pos (by omega),
      List.getD_append_right _ _ _ _ (by omega), List.getD_eq_default d _ (by omega)]
    congr 1
    omega
  · rw [put_outside _ (by omega)]
    by_cases ha : a ≤ i
    · rw [put, put, if_pos ha, if_pos ha, List.getD_append _ _ _ _ (by omega)]
    · rw [put_outside m (by omega), put_outside m (by omega)]

theorem slice_put (m : Nat → β) : slice (put m (a + n) d) a (n + d.length) = slice m a n ++ d := by
  rw [← slice_append]
  have h₁ : slice (put m (a + n) d) a n = slice m a n :=
    slice_congr fun i _ hi => put_outside m (.inl hi)
  have h₂ : slice (put m (a + n) d) (a + n) d.length = d := by
    apply List.ext_getElem (slice_length _)
    intro j hj hj'
    rw [slice_getElem, put_inside m (Nat.le_add_right _ _) (by omega)]
    congr 1
    omega
  rw [h₁, h₂]

theorem put_cons (m : Nat → β) : put (Function.update m a x) (a + 1) d = put m a (x :: d) := by
  have h : Function.update m a x = put m a [x] := by
    funext i
    by_cases hi : i = a
    · subst hi
      rw [Function.update_self, put_inside m (Nat.le_refl i) (by simp)]
      simp
    · rw [Function.update_of_ne hi, put_outside m (by simp only [List.length_singleton]; omega)]
  rw [h]
  exact put_append m

/-- A cell that an erase sets to `erased` and a program can only move down with `meet`. -/
class NorCell (β : Type) where
  erased : β
  meet : β → β → β
  meet_erased : ∀ x, meet x erased = x
  meet_comm : ∀ x y, meet x y = meet y x
  meet_assoc : ∀ x y z, meet (meet x y) z = meet x (meet y z)
  meet_self : ∀ x, meet x x = x

export NorCell (erased meet)

instance : NorCell UInt8 where
  erased := 0xFF
  meet x y := x &&& y
  meet_erased _ := by
    have h : (0xFF : UInt8) = -1 := by decide
    rw [h, UInt8.and_neg_one]
  meet_comm := UInt8.and_comm
  meet_assoc := UInt8.and_assoc
  meet_self _ := UInt8.and_self

variable [NorCell β]

theorem erased_meet (x : β) : meet erased x = x := by
  rw [NorCell.meet_comm, NorCell.meet_erased]

def erase (m : Nat → β) (a n : Nat) : Nat → β :=
  fun i => if a ≤ i ∧ i < a + n then erased else m i

/-- Programming meets the cells from `a` on with the data. -/
def program (m : Nat → β) (a : Nat) (d : List β) : Nat → β :=
  fun i => if a ≤ i then meet (m i) (d.getD (i - a) erased) else m i

theorem erase_inside (m : Nat → β) (h : a ≤ i) (h' : i < a + n) : erase m a n i = erased :=
  if_pos ⟨h, h'⟩

theorem erase_outside (m : Nat → β) (h : i < a ∨ a + n ≤ i) : erase m a n i = m i :=
  if_neg (by omega)

@[simp] theorem erase_zero (m : Nat → β) : erase m a 0 = m := by
  funext i
  exact erase_outside m (by omega)

theorem erase_append (m : Nat → β) : erase (erase m a n) (a + n) k = erase m a (n + k) := by
  funext i
  unfold erase
  split
  · rw [if_pos (by omega)]
  · split
    · rw [if_pos (by omega)]
    · rw [if_neg (by omega)]

theorem erase_of_erased (m : Nat → β) (h : m i = erased) : erase m a n i = erased := by
  unfold erase
  split
  · rfl
  · exact h

theorem program_below (m : Nat → β) (h : i < a) : program m a d i = m i :=
  if_neg (by omega)

theorem program_above (m : Nat → β) (h : a + d.length ≤ i) : program m a d i = m i := by
  unfold program
  split
  · rw [List.getD_eq_default _ _ (by omega), NorCell.meet_erased]
  · rfl

theorem program_outside (m : Nat → β) (h : i < a ∨ a + d.length ≤ i) :
    program m a d i = m i := by
  rcases h with h | h
  · exact program_below m h
  · exact program_above m h

theorem program_inside (m : Nat → β) (h : a ≤ i) :
    program m a d i = meet (m i) (d.getD (i - a) erased) :=
  if_pos h

@[simp] theorem program_nil (m : Nat → β) : program m a [] = m := by
  funext i
  exact program_outside m (by simp only [List.length_nil]; omega)

theorem program_append (m : Nat → β) :
    program (program m a d) (a + d.length) e = program m a (d ++ e) := by
  funext i
  by_cases hi : a + d.length ≤ i
  · rw [program_inside _ hi, program_above m hi, program_inside m (by omega),
      List.getD_append_right _ _ _ _ (by omega)]
    congr 2
    omega
  · rw [program_below _ (by omega)]
    by_cases ha : a ≤ i
    · rw [program_inside m ha, program_inside m ha, List.getD_append _ _ _ _ (by omega)]
    · rw [program_below m (by omega), program_below m (by omega)]

theorem program_again (m : Nat → β) : program (program m a d) a d = program m a d := by
  funext i
  by_cases hi : a ≤ i
  · rw [program_inside _ hi, program_inside m hi, NorCell.meet_assoc, NorCell.meet_self]
  · rw [program_below _ (Nat.lt_of_not_le hi)]

theorem program_erased (m : Nat → β) (h : ∀ x ∈ d, x = erased) : program m a d = m := by
  funext i
  by_cases hi : a ≤ i ∧ i < a + d.length
  · rw [program_inside m hi.1, List.getD_eq_getElem _ _ (by omega), h _ (List.getElem_mem _),
      NorCell.meet_erased]
  · exact program_outside m (by omega)

theorem program_blank (m : Nat → β) (h : ∀ i, a ≤ i → i < a + d.length → m i = erased) :
    program m a d = put m a d := by
  funext i
  by_cases hi : a ≤ i ∧ i < a + d.length
  · rw [program_inside m hi.1, h i hi.1 hi.2, erased_meet, put_inside m hi.1 (by omega),
      List.getD_eq_getElem _ _ (by omega)]
  · rw [program_outside m (by omega), put_outside m (by omega)]

theorem slice_program (m : Nat → β) (h : ∀ i, a ≤ i → i < a + d.length → m i = erased) :
    slice (program m a d) a d.length = d := by
  apply List.ext_getElem (slice_length _)
  intro j hj hj'
  rw [slice_getElem, program_inside _ (by omega), h _ (by omega) (by omega), erased_meet,
    Nat.add_sub_cancel_left, List.getD_eq_getElem _ _ hj']

end NorArray
