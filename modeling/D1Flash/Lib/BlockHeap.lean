import D1Flash.Lib.NorArray
import Mathlib.Algebra.Group.Nat.Defs
import Mathlib.Data.List.Pairwise

namespace BlockHeap
open NorArray (put slice)
set_option autoImplicit true

/-- Two blocks, each a start and a size, without a byte in common. -/
def Apart (b c : Nat × Nat) : Prop := b.1 + b.2 ≤ c.1 ∨ c.1 + c.2 ≤ b.1

/-- A memory with the blocks in it that are in use. -/
structure Heap where
  mem : Nat → UInt8
  blocks : List (Nat × Nat)
  pos : ∀ b ∈ blocks, 0 < b.1 ∧ 0 < b.2
  inSpace : ∀ b ∈ blocks, b.1 + b.2 ≤ 2 ^ 64
  apart : blocks.Pairwise Apart

namespace Heap

def write (h : Heap) (a : Nat) (d : List UInt8) : Heap := { h with mem := put h.mem a d }

/-- The contents of a block are the same in two heaps. -/
def Keeps (h h' : Heap) (b : Nat × Nat) : Prop := ∀ i < b.2, h'.mem (b.1 + i) = h.mem (b.1 + i)

theorem Keeps.trans (h₁ : Keeps h h' b) (h₂ : Keeps h' h'' b) : Keeps h h'' b :=
  fun i hi => (h₂ i hi).trans (h₁ i hi)

end Heap

/-- What is asked of an allocation of `n` bytes: no block, or a new one besides those in use, which
keep their contents. -/
structure Mallocs (n : Nat) (h : Heap) (r : Nat × Heap) : Prop where
  null : r.1 = 0 → r.2.blocks = h.blocks
  block : r.1 ≠ 0 → ∃ k, n ≤ k ∧ r.2.blocks = (r.1, k) :: h.blocks
  keeps : ∀ b ∈ h.blocks, h.Keeps r.2 b

theorem Mallocs.fresh (hm : Mallocs n h (p, h')) (hp : p ≠ 0) :
    ∃ k, n ≤ k ∧ (p, k) ∈ h'.blocks ∧
      ∀ b ∈ h.blocks, b ∈ h'.blocks ∧ Apart (p, k) b ∧ p ≠ b.1 := by
  obtain ⟨k, hk, hblocks⟩ := hm.block hp
  have hpair := h'.apart
  have hpos := h'.pos
  dsimp only at hblocks
  rw [hblocks] at hpair hpos ⊢
  refine ⟨k, hk, List.mem_cons_self, ?_⟩
  intro b hb
  have hap := (List.pairwise_cons.1 hpair).1 b hb
  have hk₀ := (hpos (p, k) List.mem_cons_self).2
  have hb₀ := (hpos b (List.mem_cons_of_mem _ hb)).2
  refine ⟨List.mem_cons_of_mem _ hb, hap, ?_⟩
  rintro rfl
  rcases hap with hle | hle
  · omega
  · omega

/-- What is asked of a free: the block goes, the others stay and keep their contents. -/
structure Frees (p : Nat) (h h' : Heap) : Prop where
  blocks : ∀ b, b ∈ h'.blocks ↔ b ∈ h.blocks ∧ b.1 ≠ p
  keeps : ∀ b ∈ h'.blocks, h.Keeps h' b

def Heap.top (h : Heap) : Nat := h.blocks.foldr (fun b t => max (b.1 + b.2) t) 0x1000

theorem Heap.le_top (h : Heap) (hb : b ∈ h.blocks) : b.1 + b.2 ≤ h.top := by
  rw [top]
  generalize h.blocks = bs at hb
  induction bs with
  | nil => cases hb
  | cons c cs ih =>
    rw [List.foldr_cons]
    rcases List.mem_cons.1 hb with rfl | hb
    · exact Nat.le_max_left _ _
    · exact Nat.le_trans (ih hb) (Nat.le_max_right _ _)

theorem Heap.top_pos (h : Heap) : 0 < h.top := by
  rw [top]
  induction h.blocks with
  | nil => decide
  | cons c cs ih => exact Nat.lt_of_lt_of_le ih (Nat.le_max_right _ _)

/-- An allocator that takes the memory after the last block. -/
def bump (n : Nat) (h : Heap) : Nat × Heap :=
  if hn : 0 < n ∧ h.top + n ≤ 2 ^ 64 then
    (h.top, {
      mem := h.mem
      blocks := (h.top, n) :: h.blocks
      pos := List.forall_mem_cons.2 ⟨⟨h.top_pos, hn.1⟩, h.pos⟩
      inSpace := List.forall_mem_cons.2 ⟨hn.2, h.inSpace⟩
      apart := .cons (fun _ hb => .inr (h.le_top hb)) h.apart })
  else (0, h)

theorem bump_mallocs (n : Nat) (h : Heap) : Mallocs n h (bump n h) := by
  rw [bump]
  split
  · exact ⟨fun h0 => (Nat.ne_of_gt h.top_pos h0).elim, fun _ => ⟨n, Nat.le_refl n, rfl⟩,
      fun _ _ _ _ => rfl⟩
  · exact ⟨fun _ => rfl, fun h0 => (h0 rfl).elim, fun _ _ _ _ => rfl⟩

def drop (p : Nat) (h : Heap) : Heap where
  mem := h.mem
  blocks := h.blocks.filter fun b => b.1 ≠ p
  pos b hb := h.pos b (List.mem_filter.1 hb).1
  inSpace b hb := h.inSpace b (List.mem_filter.1 hb).1
  apart := h.apart.filter _

theorem drop_frees (p : Nat) (h : Heap) : Frees p h (drop p h) where
  blocks b := by
    rw [drop, List.mem_filter, decide_eq_true_iff]
  keeps _ _ _ _ := rfl

end BlockHeap
