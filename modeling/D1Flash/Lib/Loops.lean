import Mathlib.Tactic.Common

namespace Loops
set_option autoImplicit true

/-- `while (more(s)) s = body(s);` for at most `fuel` rounds; `none` is a loop that
has not ended. -/
def whileLoop (more : σ → Bool) (body : σ → σ) : Nat → σ → Option σ
  | 0, s => if more s then none else some s
  | fuel + 1, s => if more s then whileLoop more body fuel (body s) else some s

def Halts (more : σ → Bool) (body : σ → σ) (s : σ) : Prop :=
  ∃ fuel t, whileLoop more body fuel s = some t

variable {more : σ → Bool} {body : σ → σ} {I : σ → Prop}

theorem whileLoop_done (h : more s = false) (fuel : Nat) :
    whileLoop more body fuel s = some s := by
  cases fuel with
  | zero => rw [whileLoop, h, if_neg Bool.false_ne_true]
  | succ fuel => rw [whileLoop, h, if_neg Bool.false_ne_true]

theorem whileLoop_more (h : more s = true) (fuel : Nat) :
    whileLoop more body (fuel + 1) s = whileLoop more body fuel (body s) := by
  rw [whileLoop, if_pos h]

/-- What the body keeps holds where the loop ends. -/
theorem whileLoop_invariant (hbody : ∀ s, I s → more s = true → I (body s)) (hs : I s)
    (h : whileLoop more body fuel s = some t) : I t ∧ more t = false := by
  induction fuel generalizing s with
  | zero =>
    cases hm : more s with
    | true =>
      rw [whileLoop, hm, if_pos rfl] at h
      cases h
    | false =>
      rw [whileLoop_done hm] at h
      cases h
      exact ⟨hs, hm⟩
  | succ fuel ih =>
    cases hm : more s with
    | true =>
      rw [whileLoop_more hm] at h
      exact ih (hbody s hs hm) h
    | false =>
      rw [whileLoop_done hm] at h
      cases h
      exact ⟨hs, hm⟩

theorem whileLoop_unique (h : whileLoop more body fuel s = some t)
    (h' : whileLoop more body fuel' s = some t') : t = t' := by
  induction fuel generalizing s fuel' with
  | zero =>
    cases hm : more s with
    | true =>
      rw [whileLoop, hm, if_pos rfl] at h
      cases h
    | false =>
      rw [whileLoop_done hm] at h h'
      cases h
      cases h'
      rfl
  | succ fuel ih =>
    cases hm : more s with
    | true =>
      rw [whileLoop_more hm] at h
      cases fuel' with
      | zero =>
        rw [whileLoop, hm, if_pos rfl] at h'
        cases h'
      | succ fuel' =>
        rw [whileLoop_more hm] at h'
        exact ih h h'
    | false =>
      rw [whileLoop_done hm] at h h'
      cases h
      cases h'
      rfl

/-- A loop whose rounds all take from a measure ends. -/
theorem halts_of_measure (μ : σ → Nat)
    (hbody : ∀ s, I s → more s = true → I (body s) ∧ μ (body s) < μ s) (hs : I s) :
    Halts more body s := by
  have hall : ∀ fuel s, I s → μ s ≤ fuel → ∃ t, whileLoop more body fuel s = some t := by
    intro fuel
    induction fuel with
    | zero =>
      intro s hs hle
      cases hm : more s with
      | true =>
        have hlt := (hbody s hs hm).2
        omega
      | false => exact ⟨s, whileLoop_done hm 0⟩
    | succ fuel ih =>
      intro s hs hle
      cases hm : more s with
      | true =>
        obtain ⟨hs', hlt⟩ := hbody s hs hm
        rw [whileLoop_more hm]
        apply ih (body s) hs'
        omega
      | false => exact ⟨s, whileLoop_done hm _⟩
  obtain ⟨t, ht⟩ := hall (μ s) s hs (Nat.le_refl _)
  exact ⟨μ s, t, ht⟩

/-- A loop that keeps its test true never ends. -/
theorem not_halts_of_invariant (hbody : ∀ s, I s → more s = true ∧ I (body s)) (hs : I s) :
    ¬ Halts more body s := by
  rintro ⟨fuel, t, h⟩
  obtain ⟨ht, hm⟩ := whileLoop_invariant (fun s hs _ => (hbody s hs).2) hs h
  rw [(hbody t ht).1] at hm
  cases hm

end Loops
