import D1Flash.Lib.Loops
import Mathlib.Algebra.GroupWithZero.Nat
import Mathlib.Tactic.Common

namespace Tiling
open Loops (whileLoop whileLoop_done whileLoop_more)
set_option autoImplicit true

variable (start len : β → Nat)

/-- The blocks follow each other from `a` on. -/
def From : Nat → List β → Prop
  | _, [] => True
  | a, b :: bs => start b = a ∧ From (a + len b) bs

def total (bs : List β) : Nat := (bs.map len).sum

@[simp] theorem total_nil : total len [] = 0 := rfl

@[simp] theorem total_cons (b : β) (bs : List β) : total len (b :: bs) = len b + total len bs := rfl

variable {start len}

theorem From.mem (h : From start len a bs) (hb : b ∈ bs) :
    a ≤ start b ∧ start b + len b ≤ a + total len bs := by
  induction bs generalizing a with
  | nil => cases hb
  | cons c bs ih =>
    obtain ⟨hc, hbs⟩ := h
    rw [total_cons, ← Nat.add_assoc]
    cases hb with
    | head =>
      rw [hc]
      exact ⟨Nat.le_refl a, Nat.le_add_right _ _⟩
    | tail _ hb =>
      obtain ⟨hle, hend⟩ := ih hbs hb
      exact ⟨Nat.le_trans (Nat.le_add_right _ _) hle, hend⟩

theorem From.pairwise (h : From start len a bs) :
    bs.Pairwise fun b c => start b + len b ≤ start c := by
  induction bs generalizing a with
  | nil => exact .nil
  | cons b bs ih =>
    obtain ⟨hb, hbs⟩ := h
    apply List.Pairwise.cons _ (ih hbs)
    intro c hc
    rw [hb]
    exact (hbs.mem hc).1

theorem from_append : From start len a (bs ++ cs) ↔
    From start len a bs ∧ From start len (a + total len bs) cs := by
  induction bs generalizing a with
  | nil => exact (and_iff_right trivial).symm
  | cons b bs ih =>
    rw [List.cons_append, From, From, ih, total_cons, Nat.add_assoc]
    exact and_assoc.symm

theorem From.replace (h : From start len a (bs ++ (cs ++ ds)))
    (hf : From start len (a + total len bs) cs → From start len (a + total len bs) cs')
    (ht : total len cs' = total len cs) : From start len a (bs ++ (cs' ++ ds)) := by
  obtain ⟨hbs, h⟩ := from_append.1 h
  obtain ⟨hcs, hds⟩ := from_append.1 h
  refine from_append.2 ⟨hbs, from_append.2 ⟨hf hcs, ?_⟩⟩
  rw [ht]
  exact hds

/-- A loop that goes from block to block visits them all. -/
theorem From.walk {more : σ → Bool} {turn : σ → σ} {visit : σ → β → σ}
    (h : From start len a bs) (pos : σ → Nat)
    (hmore : ∀ s, more s = true ↔ pos s < a + total len bs)
    (hlen : ∀ b ∈ bs, 0 < len b)
    (hturn : ∀ b ∈ bs, ∀ s, pos s = start b →
      turn s = visit s b ∧ pos (visit s b) = start b + len b)
    (hs : pos s = a) (hf : bs.length ≤ fuel) :
    whileLoop more turn fuel s = some (bs.foldl visit s) := by
  induction bs generalizing a s fuel with
  | nil =>
    refine whileLoop_done (Bool.eq_false_iff.2 fun hm => ?_) fuel
    exact Nat.lt_irrefl _ (hs ▸ (hmore s).1 hm)
  | cons b bs ih =>
    obtain ⟨hb, hbs⟩ := h
    have hpos := hlen b List.mem_cons_self
    obtain ⟨hstep, hnext⟩ := hturn b List.mem_cons_self s (hs.trans hb.symm)
    rw [hb] at hnext
    rw [total_cons, ← Nat.add_assoc] at hmore
    cases fuel with
    | zero => cases hf
    | succ fuel =>
      rw [whileLoop_more ((hmore s).2 (by omega)), hstep]
      exact ih hbs hmore (fun c hc => hlen c (List.mem_cons_of_mem b hc))
        (fun c hc => hturn c (List.mem_cons_of_mem b hc)) hnext (Nat.le_of_succ_le_succ hf)

theorem total_append (bs cs : List β) :
    total len (bs ++ cs) = total len bs + total len cs := by
  rw [total, List.map_append, List.sum_append]
  rfl

end Tiling
