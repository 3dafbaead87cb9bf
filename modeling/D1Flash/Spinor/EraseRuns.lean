import D1Flash.Lib.BitRuns
import D1Flash.Spinor.Cache

namespace D1Flash
open BitRuns (IsRun runs scan mem_runs runs_ascending)
set_option autoImplicit true

inductive NorCall where
  | read (addr len : Nat)
  | write (addr : Nat) (buf : List Byte)
  | erase (addr len : Nat)
  deriving DecidableEq

/-- The operations with a log of the calls and of what they returned. -/
def NorOps.logging (ops : NorOps σ) : NorOps (σ × List (NorCall × Int)) where
  norRead addr len s :=
    match ops.norRead addr len s.1 with
    | (r, s₁) => (r, s₁, s.2 ++ [(.read addr len, r.1)])
  norWrite addr buf s :=
    match ops.norWrite addr buf s.1 with
    | (ret, s₁) => (ret, s₁, s.2 ++ [(.write addr buf, ret)])
  norErase addr len s :=
    match ops.norErase addr len s.1 with
    | (ret, s₁) => (ret, s₁, s.2 ++ [(.erase addr len, ret)])

theorem NorOps.logging_norErase (ops : NorOps σ) (h : ops.norErase addr len s = (ret, s'))
    (log : List (NorCall × Int)) :
    ops.logging.norErase addr len (s, log) = (ret, s', log ++ [(.erase addr len, ret)]) := by
  simp only [logging, h]

/-- The erase of a run of blocks. -/
def NorCache.runErase (c : NorCache) (nor : NorFlash) (r : Nat × Nat) : NorCall :=
  .erase (c.getAddrByBlk nor r.1) (u32 ((r.2 - r.1) * nor.blkSize))

/-- Calls made in the order of a list until one of them fails. -/
structure CallsInOrder (want : List NorCall) (ret : Int) (log : List (NorCall × Int)) : Prop where
  calls : log.map Prod.fst <+: want
  done : (∀ e ∈ log, e.2 = 0) → ret = 0 ∧ log.map Prod.fst = want
  failed : ∀ pre e post, log = pre ++ e :: post → e.2 ≠ 0 → post = [] ∧ ret = e.2

namespace CallsInOrder

theorem nil : CallsInOrder [] 0 [] where
  calls := List.nil_prefix
  done := fun _ => ⟨rfl, rfl⟩
  failed := by
    intro pre e post h
    cases pre <;> cases h

theorem fail (h : ret ≠ 0) : CallsInOrder (call :: want) ret [(call, ret)] where
  calls := List.cons_prefix_cons.2 ⟨rfl, List.nil_prefix⟩
  done := fun h0 => (h (h0 _ (List.mem_singleton.2 rfl))).elim
  failed := by
    intro pre e post he _
    obtain ⟨rfl, h₁⟩ | ⟨p, rfl, h₁⟩ := List.cons_eq_append_iff.1 he
    · cases h₁
      exact ⟨rfl, rfl⟩
    · cases p <;> cases h₁

theorem cons (h : CallsInOrder want ret log) :
    CallsInOrder (call :: want) ret ((call, 0) :: log) where
  calls := List.cons_prefix_cons.2 ⟨rfl, h.calls⟩
  done := by
    intro h0
    obtain ⟨hret, hall⟩ := h.done fun e he => h0 e (List.mem_cons_of_mem _ he)
    exact ⟨hret, congrArg (call :: ·) hall⟩
  failed := by
    intro pre e post he hne
    obtain ⟨rfl, h₁⟩ | ⟨p, rfl, h₁⟩ := List.cons_eq_append_iff.1 he
    · cases h₁
      exact (hne rfl).elim
    · exact h.failed p e post h₁ hne

theorem ret_eq_zero (h : CallsInOrder want ret log) : ret = 0 ↔ ∀ e ∈ log, e.2 = 0 := by
  constructor
  · intro h0 e he
    obtain ⟨pre, post, rfl⟩ := List.append_of_mem he
    by_contra hne
    exact hne ((h.failed pre e post rfl hne).2 ▸ h0)
  · exact fun hall => (h.done hall).1

end CallsInOrder

section Each

variable (ops : NorOps σ) (nor : NorFlash) (c : NorCache)

/-- The erases of some runs, up to the first that fails. -/
def eraseEach : List (Nat × Nat) → σ → Int × σ
  | [], s => (0, s)
  | r :: rs, s =>
    match ops.norErase (c.getAddrByBlk nor r.1) (u32 ((r.2 - r.1) * nor.blkSize)) s with
    | (ret, s) => if ret ≠ 0 then (ret, s) else eraseEach rs s

/-- The delayed erases of the loop are the erases of the runs that it scans. -/
theorem norFlushEraseLoop_eq_eraseEach :
    norFlushEraseLoop ops nor c n start stop s =
      eraseEach ops nor c (scan c.bitmapBlk n start stop) s := by
  induction n generalizing start stop s with
  | zero =>
    rw [norFlushEraseLoop, scan]
    by_cases hss : start = stop
    · rw [if_neg (not_not.2 hss), if_pos hss, eraseEach]
    · rw [if_pos hss, if_neg hss]
      rcases h : ops.norErase (c.getAddrByBlk nor start) (u32 ((stop - start) * nor.blkSize)) s
        with ⟨ret, s₁⟩
      simp only [eraseEach, h]
      by_cases h0 : ret = 0
      · rw [if_neg (not_not.2 h0), h0]
      · rw [if_pos h0]
  | succ n ih =>
    rw [norFlushEraseLoop, scan]
    split
    · exact ih
    · split
      · exact ih
      · simp only [eraseEach, ih]

theorem eraseEach_logging (h : eraseEach ops nor c rs s = (ret, s')) (log : List (NorCall × Int)) :
    ∃ calls, eraseEach ops.logging nor c rs (s, log) = (ret, s', log ++ calls) ∧
      CallsInOrder (rs.map (c.runErase nor)) ret calls := by
  induction rs generalizing s log with
  | nil =>
    cases h
    exact ⟨[], by rw [eraseEach, List.append_nil], .nil⟩
  | cons r rs ih =>
    rw [eraseEach] at h
    rcases h₁ : ops.norErase (c.getAddrByBlk nor r.1) (u32 ((r.2 - r.1) * nor.blkSize)) s
      with ⟨ret₁, s₁⟩
    simp only [h₁] at h
    rw [eraseEach, ops.logging_norErase h₁]
    dsimp only
    by_cases h0 : ret₁ = 0
    · subst h0
      rw [if_neg (not_not.2 rfl)] at h ⊢
      obtain ⟨calls, hcalls, hord⟩ := ih h (log ++ [(c.runErase nor r, 0)])
      refine ⟨(c.runErase nor r, 0) :: calls, ?_, hord.cons⟩
      rw [List.append_cons log _ calls]
      exact hcalls
    · rw [if_pos h0] at h ⊢
      cases h
      exact ⟨[(c.runErase nor r, ret)], rfl, .fail h0⟩

end Each

/-- In a window that ends in the address space nothing wraps. -/
theorem NorCache.runErase_exact {c : NorCache} {nor : NorFlash}
    (hr : IsRun c.bitmapBlk c.blkCnt r) (hblk : c.blkCnt * nor.blkSize < 0x100000000)
    (haddr : c.addr + c.blkCnt * nor.blkSize ≤ 0x100000000) (hpos : 0 < nor.blkSize) :
    c.runErase nor r = .erase (c.addr + r.1 * nor.blkSize) ((r.2 - r.1) * nor.blkSize) := by
  have hlt : r.1 * nor.blkSize < c.blkCnt * nor.blkSize :=
    Nat.mul_lt_mul_of_pos_right (Nat.lt_of_lt_of_le hr.nonempty hr.le) hpos
  have hle : (r.2 - r.1) * nor.blkSize ≤ c.blkCnt * nor.blkSize :=
    Nat.mul_le_mul_right _ (Nat.le_trans (Nat.sub_le _ _) hr.le)
  rw [runErase, getAddrByBlk, u32_of_lt (by omega), u32_of_lt (by omega)]

/-- A flush erases the maximal runs of marked blocks once each and in ascending order, until an
erase fails. -/
theorem norFlushErase_runs (ops : NorOps σ) (nor : NorFlash) (c : NorCache) (s : σ) :
    let r := norFlushErase ops nor c s
    ∃ (rs : List (Nat × Nat)) (log : List (NorCall × Int)),
      rs.Pairwise (fun q q' => q.2 < q'.1) ∧ (∀ q, q ∈ rs ↔ IsRun c.bitmapBlk c.blkCnt q) ∧
      norFlushErase ops.logging nor c (s, []) = (r.1, r.2.1, r.2.2, log) ∧
      CallsInOrder (rs.map (c.runErase nor)) r.1 log ∧
      ((∀ e ∈ log, e.2 = 0) → r.2.1 = { c with bitmapBlk := fun _ => false }) ∧
      ((∃ e ∈ log, e.2 ≠ 0) → r.2.1 = c) ∧
      (0 < nor.blkSize → c.blkCnt * nor.blkSize < 0x100000000 →
        c.addr + c.blkCnt * nor.blkSize ≤ 0x100000000 → ∀ q ∈ rs,
          c.runErase nor q = .erase (c.addr + q.1 * nor.blkSize) ((q.2 - q.1) * nor.blkSize)) := by
  intro r
  rcases h : norFlushEraseLoop ops nor c c.blkCnt 0 0 s with ⟨ret, s'⟩
  have hrs := h
  rw [norFlushEraseLoop_eq_eraseEach] at hrs
  obtain ⟨log, hlog, hord⟩ := eraseEach_logging ops nor c hrs []
  rw [← norFlushEraseLoop_eq_eraseEach, List.nil_append] at hlog
  have hr : r =
      if ret ≠ 0 then (ret, c, s') else (0, { c with bitmapBlk := fun _ => false }, s') := by
    simp only [r, norFlushErase, h]
  have hret : r.1 = ret := by
    rw [hr]
    split
    · rfl
    · next h0 => exact (not_not.1 h0).symm
  refine ⟨runs c.bitmapBlk c.blkCnt, log, runs_ascending, fun _ => mem_runs, ?_, ?_, ?_, ?_, ?_⟩
  · rw [norFlushErase, hlog, hr]
    dsimp only
    split
    · rfl
    · rfl
  · rw [hret]
    exact hord
  · intro hall
    rw [hr, if_neg (not_not.2 (hord.ret_eq_zero.2 hall))]
  · rintro ⟨e, he, hne⟩
    have h0 : ret ≠ 0 := fun h0 => hne (hord.ret_eq_zero.1 h0 e he)
    rw [hr, if_pos h0]
  · intro hpos hblk haddr q hq
    exact NorCache.runErase_exact (mem_runs.1 hq) hblk haddr hpos

end D1Flash
