import Mathlib.Logic.Function.Iterate

namespace D1Flash
set_option autoImplicit true

/-- The kernel's semaphores behind `hal_sem_post` and `hal_sem_timedwait`. A wait is taken where it
ends, on what has been posted until then. -/
class HalSem (ς : Type) where
  halSemPost : ς → Int × ς
  halSemTimedwait : Nat → ς → Int × ς

/-- What the driver relies on: a post adds a token, and a wait takes one or expires. -/
structure HalSem.Counts [HalSem ς] (tokens : ς → Nat) : Prop where
  post : ∀ x, tokens (halSemPost x).2 = tokens x + 1
  taken : ∀ ms x, 0 < tokens x →
    (halSemTimedwait ms x).1 = 0 ∧ tokens (halSemTimedwait ms x).2 + 1 = tokens x
  expired : ∀ ms x, tokens x = 0 →
    (halSemTimedwait ms x).1 ≠ 0 ∧ tokens (halSemTimedwait ms x).2 = 0

theorem HalSem.Counts.wait [HalSem ς] {tokens : ς → Nat} (h : Counts tokens) (ms : Nat) (x : ς) :
    ((halSemTimedwait ms x).1 = 0 ↔ 0 < tokens x) ∧
      tokens (halSemTimedwait ms x).2 = tokens x - 1 := by
  rcases Nat.eq_zero_or_pos (tokens x) with h0 | hpos
  · obtain ⟨hret, htok⟩ := h.expired ms x h0
    exact ⟨iff_of_false hret fun hp => Nat.ne_of_gt hp h0, by rw [htok, h0]⟩
  · obtain ⟨hret, htok⟩ := h.taken ms x hpos
    exact ⟨iff_of_true hret hpos, by rw [← htok, Nat.add_sub_cancel]⟩

theorem HalSem.Counts.posts [HalSem ς] {tokens : ς → Nat} (h : Counts tokens) (n : Nat) (x : ς) :
    tokens ((fun x => (halSemPost x).2)^[n] x) = tokens x + n := by
  induction n generalizing x with
  | zero => rfl
  | succ n ih =>
    rw [Function.iterate_succ_apply, ih, h.post, Nat.add_assoc, Nat.add_comm 1]

structure CountSem where
  count : Nat
  deriving DecidableEq

instance : HalSem CountSem where
  halSemPost x := (0, ⟨x.count + 1⟩)
  halSemTimedwait _ x := if 0 < x.count then (0, ⟨x.count - 1⟩) else (-2, x)

theorem CountSem.counts : HalSem.Counts CountSem.count where
  post _ := rfl
  taken _ x h := by
    rw [HalSem.halSemTimedwait, instHalSemCountSem]
    dsimp only
    rw [if_pos h]
    exact ⟨rfl, Nat.sub_add_cancel h⟩
  expired _ x h := by
    rw [HalSem.halSemTimedwait, instHalSemCountSem]
    dsimp only
    rw [if_neg (h ▸ Nat.lt_irrefl 0)]
    exact ⟨show (-2 : Int) ≠ 0 by decide, h⟩

/-- The stubs of a build without a kernel. -/
structure BareSem where
  deriving DecidableEq

instance : HalSem BareSem where
  halSemPost x := (0, x)
  halSemTimedwait _ x := (0, x)

end D1Flash
