import Mathlib.Tactic.Common

namespace Runs
set_option autoImplicit true

/-- The outputs of a run and the state it ends in. -/
def run (step : σ → α → ο × σ) : σ → List α → List ο × σ
  | s, [] => ([], s)
  | s, a :: as =>
    let r := step s a
    let t := run step r.2 as
    (r.1 :: t.1, t.2)

/-- Every step of the run meets the condition in the state it is taken in. -/
def Along (step : σ → α → ο × σ) (G : σ → α → Prop) : σ → List α → Prop
  | _, [] => True
  | s, a :: as => G s a ∧ Along step G (step s a).2 as

instance Along.decidable (step : σ → α → ο × σ) (G : σ → α → Prop)
    [∀ s a, Decidable (G s a)] : ∀ s as, Decidable (Along step G s as)
  | _, [] => isTrue trivial
  | s, a :: as =>
    haveI := Along.decidable step G (step s a).2 as
    inferInstanceAs (Decidable (G s a ∧ Along step G (step s a).2 as))

theorem run_append (step : σ → α → ο × σ) (s : σ) (as bs : List α) :
    run step s (as ++ bs) =
      ((run step s as).1 ++ (run step (run step s as).2 bs).1,
        (run step (run step s as).2 bs).2) := by
  induction as generalizing s with
  | nil => rfl
  | cons a as ih => simp only [List.cons_append, run, ih]

theorem along_of_forall {step : σ → α → ο × σ} {P : σ → α → Prop}
    (h : ∀ a ∈ as, ∀ s, P s a) : Along step P s as := by
  induction as generalizing s with
  | nil => trivial
  | cons a as ih =>
    exact ⟨h a List.mem_cons_self s, ih fun b hb => h b (List.mem_cons_of_mem a hb)⟩

/-- What one step preserves under its condition, a whole run preserves. -/
theorem invariant {step : σ → α → ο × σ} {G : σ → α → Prop} {I : σ → Prop}
    (hstep : ∀ s a, I s → G s a → I (step s a).2) (hs : I s) (hg : Along step G s as) :
    I (run step s as).2 := by
  induction as generalizing s with
  | nil => exact hs
  | cons a as ih => exact ih (hstep s a hs hg.1) hg.2

/-- What every step from a good state shows, every step of a run shows. -/
theorem along_of_invariant {step : σ → α → ο × σ} {G P : σ → α → Prop} {I : σ → Prop}
    (hstep : ∀ s a, I s → G s a → I (step s a).2 ∧ P s a) (hs : I s)
    (hg : Along step G s as) : Along step P s as := by
  induction as generalizing s with
  | nil => trivial
  | cons a as ih =>
    obtain ⟨hs', hp⟩ := hstep s a hs hg.1
    exact ⟨hp, ih hs' hg.2⟩

/-- Two properties of steps that agree in every good state of a run in which `H` holds, where one
keeps the states good. -/
theorem along_iff_within {step : σ → α → ο × σ} {G P H : σ → α → Prop} {I : σ → Prop}
    (hiff : ∀ s a, I s → H s a → (P s a ↔ G s a))
    (hstep : ∀ s a, I s → H s a → P s a → I (step s a).2)
    (hs : I s) (hh : Along step H s as) : Along step P s as ↔ Along step G s as := by
  induction as generalizing s with
  | nil => exact Iff.rfl
  | cons a as ih =>
    obtain ⟨ha, hh⟩ := hh
    constructor
    · intro h
      exact ⟨(hiff s a hs ha).1 h.1, (ih (hstep s a hs ha h.1) hh).1 h.2⟩
    · intro h
      have hp := (hiff s a hs ha).2 h.1
      exact ⟨hp, (ih (hstep s a hs ha hp) hh).2 h.2⟩

theorem along_iff {step : σ → α → ο × σ} {G P : σ → α → Prop} {I : σ → Prop}
    (hiff : ∀ s a, I s → (P s a ↔ G s a)) (hstep : ∀ s a, I s → P s a → I (step s a).2)
    (hs : I s) : Along step P s as ↔ Along step G s as :=
  along_iff_within (H := fun _ _ => True) (fun s a hi _ => hiff s a hi)
    (fun s a hi _ => hstep s a hi) hs (along_of_forall fun _ _ _ => trivial)

theorem along_iff_of_mem {step : σ → α → ο × σ} {G P : σ → α → Prop} {I : σ → Prop} {Q : α → Prop}
    (hiff : ∀ s a, I s → (P s a ↔ G s a)) (hstep : ∀ s a, I s → Q a → P s a → I (step s a).2)
    (hs : I s) (hq : ∀ a ∈ as, Q a) : Along step P s as ↔ Along step G s as :=
  along_iff_within (H := fun _ a => Q a) (fun s a hi _ => hiff s a hi) hstep hs
    (along_of_forall fun a ha _ => hq a ha)

/-- Two machines that a relation keeps in step give the same outputs. -/
theorem simulation {step : σ → α → ο × σ} {step' : τ → α → ο × τ} {G : σ → α → Prop}
    {G' : τ → α → Prop} {R : σ → τ → Prop}
    (hstep : ∀ s t a, R s t → G s a → G' t a →
      (step s a).1 = (step' t a).1 ∧ R (step s a).2 (step' t a).2)
    (hr : R s t) (hg : Along step G s as) (hg' : Along step' G' t as) :
    (run step s as).1 = (run step' t as).1 ∧ R (run step s as).2 (run step' t as).2 := by
  induction as generalizing s t with
  | nil => exact ⟨rfl, hr⟩
  | cons a as ih =>
    obtain ⟨ho, hr'⟩ := hstep s t a hr hg.1 hg'.1
    obtain ⟨hos, hrs⟩ := ih hr' hg.2 hg'.2
    exact ⟨by simp only [run, ho, hos], hrs⟩

/-- What every step keeps between the state and `next` of the observer, a run keeps. -/
theorem run_observed {step : σ → α → ο × σ} {next : τ → α → ο → τ} {G : α → Prop}
    {R : σ → τ → Prop}
    (hstep : ∀ s t a, R s t → G a → R (step s a).2 (next t a (step s a).1))
    (hr : R s t) (hg : ∀ a ∈ as, G a) :
    R (run step s as).2 ((as.zip (run step s as).1).foldl (fun t p => next t p.1 p.2) t) := by
  induction as generalizing s t with
  | nil => exact hr
  | cons a as ih =>
    exact ih (hstep s t a hr (hg a List.mem_cons_self)) fun b hb => hg b (List.mem_cons_of_mem a hb)

/-- A run of steps that can go wrong; `none` is a run that did. -/
def exec (step : σ → α → Option (ο × σ)) : σ → List α → Option (List ο × σ)
  | s, [] => some ([], s)
  | s, a :: as =>
    match step s a with
    | none => none
    | some (o, s) =>
      match exec step s as with
      | none => none
      | some (os, s) => some (o :: os, s)

theorem exec_cons {step : σ → α → Option (ο × σ)} (h : exec step s (a :: as) = some (os, t)) :
    ∃ o u os', step s a = some (o, u) ∧ exec step u as = some (os', t) ∧ os = o :: os' := by
  rw [exec] at h
  cases hs : step s a with
  | none => rw [hs] at h; cases h
  | some p =>
    rw [hs] at h
    dsimp only at h
    cases he : exec step p.2 as with
    | none => rw [he] at h; cases h
    | some q =>
      rw [he] at h
      cases h
      exact ⟨p.1, p.2, q.1, rfl, he, rfl⟩

/-- Where every step from a good state succeeds and tracks `next` of the observer, a whole run
does. -/
theorem exec_tracks {step : σ → α → Option (ο × σ)} {next : τ → α → ο → τ} {G : α → Prop}
    {R : σ → τ → Prop}
    (hstep : ∀ s t a, R s t → G a → ∃ o s', step s a = some (o, s') ∧ R s' (next t a o))
    (hr : R s t) (hg : ∀ a ∈ as, G a) :
    ∃ os s', exec step s as = some (os, s') ∧ os.length = as.length ∧
      R s' ((as.zip os).foldl (fun t p => next t p.1 p.2) t) := by
  induction as generalizing s t with
  | nil => exact ⟨[], s, rfl, rfl, hr⟩
  | cons a as ih =>
    obtain ⟨o, s₁, h₁, hr₁⟩ := hstep s t a hr (hg a List.mem_cons_self)
    obtain ⟨os, s', h, hlen, hr'⟩ := ih hr₁ fun b hb => hg b (List.mem_cons_of_mem a hb)
    exact ⟨o :: os, s', by rw [exec, h₁]; dsimp only; rw [h], congrArg Nat.succ hlen, hr'⟩

/-- What every step that succeeds keeps between the state and `next` of the observer, a run that
succeeds keeps. -/
theorem exec_observed {step : σ → α → Option (ο × σ)} {next : τ → α → ο → τ} {R : σ → τ → Prop}
    (hstep : ∀ s t a o s', R s t → step s a = some (o, s') → R s' (next t a o))
    (hr : R s t) (h : exec step s as = some (os, s')) :
    R s' ((as.zip os).foldl (fun t p => next t p.1 p.2) t) := by
  induction as generalizing s t os with
  | nil =>
    cases h
    exact hr
  | cons a as ih =>
    obtain ⟨o, u, os', hs, he, rfl⟩ := exec_cons h
    exact ih (hstep s t a o u hr hs) he

/-- Both steps go wrong, or both give the same output and related states. -/
def Lockstep (R : σ → σ → Prop) (r r' : Option (ο × σ)) : Prop :=
  r = none ∧ r' = none ∨ ∃ o s t, r = some (o, s) ∧ r' = some (o, t) ∧ R s t

theorem Lockstep.some {R : σ → σ → Prop} (o : ο) (h : R s t) :
    Lockstep R (some (o, s)) (some (o, t)) :=
  .inr ⟨o, s, t, rfl, rfl, h⟩

theorem Lockstep.map {R : σ → σ → Prop} (f : ο → π) {r r' : Option (ο × σ)}
    (h : Lockstep R r r') :
    Lockstep R (r.map fun p => (f p.1, p.2)) (r'.map fun p => (f p.1, p.2)) := by
  cases h with
  | inl h =>
    rw [h.1, h.2]
    exact .inl ⟨rfl, rfl⟩
  | inr h =>
    obtain ⟨o, s, t, hs, ht, hst⟩ := h
    rw [hs, ht]
    exact .some (f o) hst

/-- Steps in lockstep make runs with the same outputs. -/
theorem exec_lockstep {step : σ → α → Option (ο × σ)} {R : σ → σ → Prop} {G : α → Prop}
    (hstep : ∀ s t a, R s t → G a → Lockstep R (step s a) (step t a))
    (hr : R s t) (hg : ∀ a ∈ as, G a) :
    (exec step s as).map Prod.fst = (exec step t as).map Prod.fst := by
  induction as generalizing s t with
  | nil => rfl
  | cons a as ih =>
    rw [exec, exec]
    cases hstep s t a hr (hg a List.mem_cons_self) with
    | inl h => rw [h.1, h.2]
    | inr h =>
      obtain ⟨o, s', t', hs, ht, hr'⟩ := h
      have hih := ih hr' fun b hb => hg b (List.mem_cons_of_mem a hb)
      rw [hs, ht]
      dsimp only
      cases he : exec step s' as with
      | none =>
        rw [he] at hih
        cases he' : exec step t' as with
        | none => rfl
        | some q => rw [he'] at hih; cases hih
      | some p =>
        rw [he] at hih
        cases he' : exec step t' as with
        | none => rw [he'] at hih; cases hih
        | some q =>
          rw [he'] at hih
          dsimp only
          rw [Option.map_some, Option.map_some, Option.some.inj hih]

end Runs
