import D1Flash.Lib.BlockHeap

namespace D1Flash
open BlockHeap NorArray
set_option autoImplicit true

/-- The heap, with the reads of `memcpy` and the calls of `mm_free`. -/
structure LibcRun where
  heap : Heap
  reads : List (Nat × Nat)
  frees : List Nat

def LibcRun.memcpy (w : LibcRun) (dst src n : Nat) : LibcRun where
  heap := w.heap.write dst (slice w.heap.mem src n)
  reads := w.reads ++ [(src, n)]
  frees := w.frees

section
variable (mmMalloc : UInt64 → Heap → Nat × Heap) (mmFree : Nat → Heap → Heap)

/-- `realloc`; pointers are addresses, 0 is `NULL`. -/
def realloc (ptr : Nat) (size : UInt64) (w : LibcRun) : Nat × LibcRun :=
  match mmMalloc size w.heap with
  | (newPtr, heap) =>
    let w := { w with heap := heap }
    if newPtr = 0 then (newPtr, w)
    else if ptr ≠ 0 then
      let w := w.memcpy newPtr ptr size.toNat
      (newPtr, { w with heap := mmFree ptr w.heap, frees := w.frees ++ [ptr] })
    else (newPtr, w)

def calloc (nmemb size : UInt64) (heap : Heap) : Nat × Heap :=
  match mmMalloc (size * nmemb) heap with
  | (ptr, heap) =>
    if ptr ≠ 0 then (ptr, heap.write ptr (List.replicate (size * nmemb).toNat 0))
    else (ptr, heap)

end

/-- What a `realloc` of the block `b` to `n` bytes is to do. -/
structure Reallocs (h : Heap) (b : Nat × Nat) (n : Nat) (r : Nat × LibcRun) : Prop where
  null : r.1 = 0 → b ∈ r.2.heap.blocks ∧ h.Keeps r.2.heap b ∧ r.2.frees = []
  block : r.1 ≠ 0 → ∃ k, n ≤ k ∧ (r.1, k) ∈ r.2.heap.blocks ∧
    (∀ i < min b.2 n, r.2.heap.mem (r.1 + i) = h.mem (b.1 + i)) ∧
    b ∉ r.2.heap.blocks ∧ r.2.frees = [b.1]
  reads : ∀ s ∈ r.2.reads, b.1 ≤ s.1 ∧ s.1 + s.2 ≤ b.1 + b.2

/-- What a `calloc` of `n` bytes is to do. -/
def Callocs (n : Nat) (r : Nat × Heap) : Prop :=
  r.1 ≠ 0 → ∃ k, n ≤ k ∧ (r.1, k) ∈ r.2.blocks ∧ ∀ i < n, r.2.mem (r.1 + i) = 0

section
variable {mmMalloc : UInt64 → Heap → Nat × Heap} {mmFree : Nat → Heap → Heap}
  (hmalloc : ∀ n h, Mallocs n.toNat h (mmMalloc n h))
  (hfree : ∀ p (h : Heap), (∃ k, (p, k) ∈ h.blocks) → Frees p h (mmFree p h))

include hmalloc in
/-- Zeroed memory is large enough exactly when the product of the sizes does not wrap. -/
theorem calloc_iff (nmemb size : UInt64) (h : Heap) :
    Callocs (nmemb.toNat * size.toNat) (calloc mmMalloc nmemb size h) ↔
      (mmMalloc (size * nmemb) h).1 = 0 ∨ nmemb.toNat * size.toNat < 2 ^ 64 := by
  have hspec := hmalloc (size * nmemb) h
  rw [calloc]
  rcases hm : mmMalloc (size * nmemb) h with ⟨p, h'⟩
  rw [hm] at hspec
  dsimp only
  by_cases hp : p = 0
  · rw [if_neg (not_not.2 hp)]
    exact ⟨fun _ => .inl hp, fun _ h0 => (h0 hp).elim⟩
  · rw [if_pos hp]
    constructor
    · intro hc
      obtain ⟨k, hk, hmem, -⟩ := hc hp
      have hspace := h'.inSpace _ hmem
      have hpos := (h'.pos _ hmem).1
      exact .inr (by omega)
    · intro hor _
      have hlt := hor.resolve_left hp
      obtain ⟨k, hk, hnew, -⟩ := hspec.fresh hp
      have hprod : (size * nmemb).toNat = nmemb.toNat * size.toNat := by
        rw [UInt64.toNat_mul, Nat.mul_comm, Nat.mod_eq_of_lt hlt]
      rw [hprod] at hk ⊢
      refine ⟨k, hk, hnew, fun i hi => ?_⟩
      have hin : p + i - p < (List.replicate (nmemb.toNat * size.toNat) (0 : UInt8)).length := by
        rw [List.length_replicate]
        omega
      exact (put_inside h'.mem (Nat.le_add_right p i) hin).trans (List.getElem_replicate hin)

include hmalloc hfree in
/-- A block is moved without reading past it exactly when it does not grow. -/
theorem realloc_iff (h : Heap) (hb : b ∈ h.blocks) (n : UInt64) :
    Reallocs h b n.toNat (realloc mmMalloc mmFree b.1 n ⟨h, [], []⟩) ↔
      (mmMalloc n h).1 = 0 ∨ n.toNat ≤ b.2 := by
  have hspec := hmalloc n h
  have hb₁ := (h.pos b hb).1
  rw [realloc]
  rcases hm : mmMalloc n h with ⟨p, h'⟩
  rw [hm] at hspec
  dsimp only
  by_cases hp : p = 0
  · rw [if_pos hp]
    refine ⟨fun _ => .inl hp, fun _ => ⟨fun _ => ⟨?_, hspec.keeps b hb, rfl⟩, ?_, nofun⟩⟩
    · show b ∈ h'.blocks
      rw [hspec.null hp]
      exact hb
    · exact fun h0 => (h0 hp).elim
  · rw [if_neg hp, if_pos (Nat.ne_of_gt hb₁)]
    obtain ⟨k, hk, hnew, hold⟩ := hspec.fresh hp
    constructor
    · intro hr
      have hread := hr.reads (b.1, n.toNat) List.mem_cons_self
      exact .inr (by omega)
    · intro hor
      have hn := hor.resolve_left hp
      obtain ⟨hb', hap, hne⟩ := hold b hb
      -- the copy goes to the new block, so the old one is as it was
      let h₁ := h'.write p (slice h'.mem b.1 n.toNat)
      have hf : Frees b.1 h₁ (mmFree b.1 h₁) := hfree b.1 h₁ ⟨b.2, hb'⟩
      have hmem : (p, k) ∈ (mmFree b.1 h₁).blocks := (hf.blocks _).2 ⟨hnew, hne⟩
      refine ⟨fun h0 => (hp h0).elim, fun _ => ⟨k, hk, hmem, ?_, ?_, rfl⟩, ?_⟩
      · intro i hi
        have hcopy : h₁.mem (p + i) = h'.mem (b.1 + i) := by
          have hlen : p + i - p < (slice h'.mem b.1 n.toNat).length := by
            rw [slice_length]
            omega
          refine (put_inside h'.mem (Nat.le_add_right p i) hlen).trans ?_
          rw [slice_getElem, Nat.add_sub_cancel_left]
        exact (hf.keeps _ hmem i (by omega)).trans (hcopy.trans (hspec.keeps b hb i (by omega)))
      · exact fun hc => ((hf.blocks b).1 hc).2 rfl
      · intro s hs
        cases List.mem_singleton.1 hs
        exact ⟨Nat.le_refl _, Nat.add_le_add_left hn _⟩

include hmalloc hfree in
/-- `realloc` and `calloc` over a correct heap: shrinking, and products that do not wrap. -/
theorem realloc_calloc_iff :
    (∀ (h : Heap) (b : Nat × Nat), b ∈ h.blocks → ∀ n : UInt64,
      Reallocs h b n.toNat (realloc mmMalloc mmFree b.1 n ⟨h, [], []⟩) ↔
        (mmMalloc n h).1 = 0 ∨ n.toNat ≤ b.2) ∧
    ∀ (h : Heap) (nmemb size : UInt64),
      Callocs (nmemb.toNat * size.toNat) (calloc mmMalloc nmemb size h) ↔
        (mmMalloc (size * nmemb) h).1 = 0 ∨ nmemb.toNat * size.toNat < 2 ^ 64 :=
  ⟨fun h _ hb n => realloc_iff hmalloc hfree h hb n,
    fun h nmemb size => calloc_iff hmalloc nmemb size h⟩

end

/-- A heap with one block of 64 bytes in use. -/
def smallHeap : Heap where
  mem a := UInt8.ofNat a
  blocks := [(0x2000, 64)]
  pos := by decide
  inSpace := by decide
  apart := List.pairwise_singleton _ _

def bumpMalloc (n : UInt64) (h : Heap) : Nat × Heap := bump n.toNat h

theorem bumpMalloc_mallocs (n : UInt64) (h : Heap) : Mallocs n.toNat h (bumpMalloc n h) :=
  bump_mallocs n.toNat h

theorem drop_frees_live (p : Nat) (h : Heap) (_ : ∃ k, (p, k) ∈ h.blocks) : Frees p h (drop p h) :=
  drop_frees p h

theorem realloc_calloc_small :
    Reallocs smallHeap (0x2000, 64) 16 (realloc bumpMalloc drop 0x2000 16 ⟨smallHeap, [], []⟩) ∧
      Callocs 15 (calloc bumpMalloc 3 5 smallHeap) := by
  obtain ⟨hrealloc, hcalloc⟩ := realloc_calloc_iff bumpMalloc_mallocs drop_frees_live
  exact ⟨(hrealloc smallHeap (0x2000, 64) List.mem_cons_self 16).2 (.inr (by decide)),
    (hcalloc smallHeap 3 5).2 (.inr (by decide))⟩

/-- A block that grows is read past its end, and a product that wraps gives a small block. -/
theorem realloc_calloc_fail :
    ¬ Reallocs smallHeap (0x2000, 64) 128 (realloc bumpMalloc drop 0x2000 128 ⟨smallHeap, [], []⟩) ∧
      ¬ Callocs (0x2000000000000001 * 8) (calloc bumpMalloc 0x2000000000000001 8 smallHeap) := by
  constructor
  · intro h
    have hor :=
      (realloc_iff bumpMalloc_mallocs drop_frees_live smallHeap List.mem_cons_self 128).1 h
    revert hor
    decide
  · intro h
    have hor := (calloc_iff bumpMalloc_mallocs 0x2000000000000001 8 smallHeap).1 h
    revert hor
    decide

end D1Flash
