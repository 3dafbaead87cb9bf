import Mathlib.Tactic.Common

namespace Plans
set_option autoImplicit true

/-- Calls in a row, with what each transfers, up to the first that fails. -/
def run : List (σ → (Int × List β) × σ) → σ → (Int × List β) × σ
  | [], s => ((0, []), s)
  | f :: fs, s =>
    match f s with
    | ((ret, d), s) =>
      if ret ≠ 0 then ((ret, []), s)
      else
        match run fs s with
        | ((ret, ds), s) => ((ret, d ++ ds), s)

def Succeeds : List (σ → (Int × List β) × σ) → σ → Prop
  | [], _ => True
  | f :: fs, s => (f s).1.1 = 0 ∧ Succeeds fs (f s).2

/-- A call that transfers the data when it succeeds. -/
def sending (d : List β) (f : σ → Int × σ) (s : σ) : (Int × List β) × σ :=
  match f s with
  | (ret, s) => ((ret, d), s)

variable {f : σ → (Int × List β) × σ} {fs gs : List (σ → (Int × List β) × σ)}

theorem run_cons_fail (h : f s = ((ret, d), s')) (h0 : ret ≠ 0) :
    run (f :: fs) s = ((ret, []), s') := by
  rw [run, h]
  exact if_pos h0

theorem run_cons_ok (h : f s = ((0, d), s')) :
    run (f :: fs) s = (((run fs s').1.1, d ++ (run fs s').1.2), (run fs s').2) := by
  rw [run, h]
  rfl

/-- A row of calls returns 0 exactly when each of them succeeds. -/
theorem run_eq_zero_iff (s : σ) : (run fs s).1.1 = 0 ↔ Succeeds fs s := by
  induction fs generalizing s with
  | nil => exact ⟨fun _ => trivial, fun _ => rfl⟩
  | cons f fs ih =>
    rcases h : f s with ⟨⟨ret, d⟩, s'⟩
    rw [Succeeds, h]
    by_cases h0 : ret = 0
    · subst h0
      rw [run_cons_ok h, ← ih s']
      exact ⟨fun h => ⟨rfl, h⟩, fun h => h.2⟩
    · rw [run_cons_fail h h0]
      exact ⟨fun h => (h0 h).elim, fun h => (h0 h.1).elim⟩

theorem run_sending (d : List β) {f : σ → Int × σ} (h : f s = (ret, s')) :
    run (sending d f :: fs) s = if ret ≠ 0 then ((ret, []), s')
      else (((run fs s').1.1, d ++ (run fs s').1.2), (run fs s').2) := by
  have hs : sending d f s = ((ret, d), s') := by rw [sending, h]
  by_cases h0 : ret = 0
  · subst h0
    rw [run_cons_ok hs, if_neg (not_not.2 rfl)]
  · rw [run_cons_fail hs h0, if_pos h0]

theorem run_single (f : σ → Int × σ) (s : σ) :
    run [sending ([] : List β) f] s = (((f s).1, []), (f s).2) := by
  rcases h : f s with ⟨ret, s'⟩
  rw [run_sending [] h]
  by_cases h0 : ret = 0
  · subst h0
    rfl
  · rw [if_pos h0]

theorem run_append_fail (h0 : (run fs s).1.1 ≠ 0) : run (fs ++ gs) s = run fs s := by
  induction fs generalizing s with
  | nil => exact (h0 rfl).elim
  | cons f fs ih =>
    rcases h : f s with ⟨⟨ret, d⟩, s'⟩
    rw [List.cons_append]
    by_cases hr : ret = 0
    · subst hr
      rw [run_cons_ok h] at h0
      rw [run_cons_ok h, run_cons_ok h, ih h0]
    · rw [run_cons_fail h hr, run_cons_fail h hr]

theorem run_append_ok (h0 : (run fs s).1.1 = 0) :
    run (fs ++ gs) s = (((run gs (run fs s).2).1.1, (run fs s).1.2 ++ (run gs (run fs s).2).1.2),
      (run gs (run fs s).2).2) := by
  induction fs generalizing s with
  | nil => rfl
  | cons f fs ih =>
    rcases h : f s with ⟨⟨ret, d⟩, s'⟩
    rw [List.cons_append]
    by_cases hr : ret = 0
    · subst hr
      rw [run_cons_ok h] at h0
      rw [run_cons_ok h, run_cons_ok h, ih h0]
      simp only [List.append_assoc]
    · rw [run_cons_fail h hr] at h0
      exact (hr h0).elim

end Plans
