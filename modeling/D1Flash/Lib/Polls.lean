import Mathlib.Tactic.Common

namespace Polls
set_option autoImplicit true

/-- `while (!ready && budget--);` from reading `k` on, where a budget of 0 turns into `top`. It
gives the budget left and the number of the next reading. -/
def wait (read : Nat → σ → Bool × σ) (top : Nat) : Nat → Nat → σ → (Nat × Nat) × σ
  | 0, k, s =>
    match read k s with
    | (true, s) => ((0, k + 1), s)
    | (false, s) => ((top, k + 1), s)
  | budget + 1, k, s =>
    match read k s with
    | (true, s) => ((budget + 1, k + 1), s)
    | (false, s) => wait read top budget (k + 1) s

/-- The state after `n` readings. -/
def after (read : Nat → σ → Bool × σ) : Nat → Nat → σ → σ
  | 0, _, s => s
  | n + 1, k, s => after read n (k + 1) (read k s).2

/-- None of the next `n` readings is ready. -/
def Misses (read : Nat → σ → Bool × σ) : Nat → Nat → σ → Prop
  | 0, _, _ => True
  | n + 1, k, s => (read k s).1 = false ∧ Misses read n (k + 1) (read k s).2

/-- After `j` readings that are not ready comes one that is. -/
def Hit (read : Nat → σ → Bool × σ) : Nat → Nat → σ → Prop
  | 0, k, s => (read k s).1 = true
  | j + 1, k, s => (read k s).1 = false ∧ Hit read j (k + 1) (read k s).2

theorem misses_iff {read : Nat → σ → Bool × σ} :
    Misses read n k s ↔ ∀ i < n, (read (k + i) (after read i k s)).1 = false := by
  induction n generalizing k s with
  | zero => exact iff_of_true trivial fun i hi => absurd hi (Nat.not_lt_zero i)
  | succ n ih =>
    constructor
    · rintro ⟨h₀, h⟩ i hi
      cases i with
      | zero => exact h₀
      | succ i =>
        have hrest := ih.1 h i (Nat.lt_of_succ_lt_succ hi)
        rwa [Nat.add_assoc, Nat.add_comm 1 i] at hrest
    · intro h
      refine ⟨h 0 (Nat.succ_pos n), ih.2 fun i hi => ?_⟩
      have hrest := h (i + 1) (Nat.succ_lt_succ hi)
      rwa [Nat.add_comm i 1, ← Nat.add_assoc, Nat.add_comm 1 i] at hrest

theorem hit_iff {read : Nat → σ → Bool × σ} :
    Hit read j k s ↔ Misses read j k s ∧ (read (k + j) (after read j k s)).1 = true := by
  induction j generalizing k s with
  | zero => exact ⟨fun h => ⟨trivial, h⟩, fun h => h.2⟩
  | succ j ih =>
    have hk : k + 1 + j = k + (j + 1) := by omega
    rw [Hit, ih, Misses, hk, and_assoc]
    rfl

theorem hit_or_misses (read : Nat → σ → Bool × σ) (n k : Nat) (s : σ) :
    (∃ j < n, Hit read j k s) ∨ Misses read n k s := by
  induction n generalizing k s with
  | zero => exact .inr trivial
  | succ n ih =>
    cases hr : (read k s).1 with
    | true => exact .inl ⟨0, Nat.succ_pos n, hr⟩
    | false =>
      cases ih (k + 1) (read k s).2 with
      | inl h =>
        obtain ⟨j, hj, hhit⟩ := h
        exact .inl ⟨j + 1, Nat.succ_lt_succ hj, hr, hhit⟩
      | inr h => exact .inr ⟨hr, h⟩

theorem Hit.misses {read : Nat → σ → Bool × σ} (h : Hit read j k s) : Misses read j k s := by
  induction j generalizing k s with
  | zero => trivial
  | succ j ih => exact ⟨h.1, ih h.2⟩

theorem Misses.of_succ {read : Nat → σ → Bool × σ} (h : Misses read (n + 1) k s) :
    Misses read n k s := by
  induction n generalizing k s with
  | zero => trivial
  | succ n ih => exact ⟨h.1, ih h.2⟩

section Waits
variable {read : Nat → σ → Bool × σ} (top : Nat)

theorem wait_ready (h : (read k s).1 = true) (budget : Nat) :
    wait read top budget k s = ((budget, k + 1), (read k s).2) := by
  cases budget with
  | zero =>
    rw [wait]
    generalize read k s = r at h
    cases r
    cases h
    rfl
  | succ budget =>
    rw [wait]
    generalize read k s = r at h
    cases r
    cases h
    rfl

theorem wait_spent (h : (read k s).1 = false) :
    wait read top 0 k s = ((top, k + 1), (read k s).2) := by
  rw [wait]
  generalize read k s = r at h
  cases r
  cases h
  rfl

theorem wait_again (h : (read k s).1 = false) (budget : Nat) :
    wait read top (budget + 1) k s = wait read top budget (k + 1) (read k s).2 := by
  rw [wait]
  generalize read k s = r at h
  cases r
  cases h
  rfl

theorem wait_hit (h : Hit read j k s) (hj : j ≤ budget) :
    wait read top budget k s = ((budget - j, k + (j + 1)), after read (j + 1) k s) := by
  induction j generalizing budget k s with
  | zero => exact wait_ready top h budget
  | succ j ih =>
    cases budget with
    | zero => omega
    | succ budget =>
      rw [wait_again top h.1, ih h.2 (Nat.le_of_succ_le_succ hj), Nat.succ_sub_succ,
        Nat.add_assoc k 1, Nat.add_comm 1 (j + 1)]
      rfl

/-- A wait that meets none: the last reading is made with no budget left. -/
theorem wait_misses (h : Misses read (budget + 1) k s) :
    wait read top budget k s = ((top, k + (budget + 1)), after read (budget + 1) k s) := by
  induction budget generalizing k s with
  | zero => exact wait_spent top h.1
  | succ budget ih =>
    rw [wait_again top h.1, ih h.2, Nat.add_assoc k 1, Nat.add_comm 1 (budget + 1)]
    rfl

theorem wait_cases (read : Nat → σ → Bool × σ) (budget k : Nat) (s : σ) :
    (∃ j ≤ budget, Hit read j k s ∧
      wait read top budget k s = ((budget - j, k + (j + 1)), after read (j + 1) k s)) ∨
    (Misses read (budget + 1) k s ∧
      wait read top budget k s = ((top, k + (budget + 1)), after read (budget + 1) k s)) := by
  cases hit_or_misses read (budget + 1) k s with
  | inl h =>
    obtain ⟨j, hj, hhit⟩ := h
    have hle := Nat.le_of_lt_succ hj
    exact .inl ⟨j, hle, hhit, wait_hit top hhit hle⟩
  | inr h => exact .inr ⟨h, wait_misses top h⟩

end Waits

/-! Readings that do not depend on the state. -/

section Streams
variable {ready : Nat → Bool}

/-- How many of the `n` readings from `k` on are ready. -/
def hits (ready : Nat → Bool) (k n : Nat) : Nat := (List.range' k n).countP ready

theorem hits_add (ready : Nat → Bool) (k m n : Nat) :
    hits ready k (m + n) = hits ready k m + hits ready (k + m) n := by
  have hr : List.range' k (m + n) = List.range' k m ++ List.range' (k + m) n := by
    rw [List.range'_append_1]
  rw [hits, hr, List.countP_append]
  rfl

theorem hits_le (ready : Nat → Bool) (k n : Nat) : hits ready k n ≤ n := by
  have h := List.countP_le_length (p := ready) (l := List.range' k n)
  rwa [List.length_range'] at h

variable {read : Nat → σ → Bool × σ}

theorem Hit.is_ready (hr : ∀ k s, (read k s).1 = ready k) (h : Hit read j k s) :
    ready (k + j) = true := by
  induction j generalizing k s with
  | zero => exact (hr k s).symm.trans h
  | succ j ih =>
    have hj := ih h.2
    rwa [Nat.add_assoc, Nat.add_comm 1 j] at hj

theorem Misses.not_ready (hr : ∀ k s, (read k s).1 = ready k) (h : Misses read (n + 1) k s) :
    ready (k + n) = false := by
  induction n generalizing k s with
  | zero => exact (hr k s).symm.trans h.1
  | succ n ih =>
    have hn := ih h.2
    rwa [Nat.add_assoc, Nat.add_comm 1 n] at hn

theorem Misses.hits (hr : ∀ k s, (read k s).1 = ready k) (h : Misses read n k s) :
    hits ready k n = 0 := by
  induction n generalizing k s with
  | zero => rfl
  | succ n ih =>
    rw [Nat.add_comm, hits_add, ih h.2, Polls.hits, List.range'_one, List.countP_singleton,
      ← hr k s, h.1]
    rfl

theorem Hit.hits (hr : ∀ k s, (read k s).1 = ready k) (h : Hit read j k s) :
    Polls.hits ready k (j + 1) = 1 := by
  induction j generalizing k s with
  | zero =>
    rw [Polls.hits, List.range'_one, List.countP_singleton, ← hr k s, show _ = true from h]
    rfl
  | succ j ih =>
    rw [Nat.add_comm, hits_add, ih h.2, Polls.hits, List.range'_one, List.countP_singleton,
      ← hr k s, h.1]
    rfl

/-- `n` waits share a budget of `t` and leave some of it: that many readings are ready before `t`
are not. -/
def Paced (ready : Nat → Bool) (n t k : Nat) : Prop := n ≤ hits ready k (n + t - 1)

instance (ready : Nat → Bool) (n t k : Nat) : Decidable (Paced ready n t k) :=
  inferInstanceAs (Decidable (_ ≤ _))

theorem paced_zero (ready : Nat → Bool) (t k : Nat) : Paced ready 0 t k := Nat.zero_le _

/-- The first of the waits takes its misses from the budget. -/
theorem paced_hit (hr : ∀ k s, (read k s).1 = ready k) (h : Hit read j k s) (hj : j < t) :
    Paced ready (n + 1) t k ↔ Paced ready n (t - j) (k + (j + 1)) := by
  have hsum : n + 1 + t - 1 = j + 1 + (n + (t - j) - 1) := by omega
  rw [Paced, hsum, hits_add, h.hits hr, Paced]
  omega

theorem not_paced_of_misses (hr : ∀ k s, (read k s).1 = ready k) (h : Misses read t k s) :
    ¬ Paced ready (n + 1) t k := by
  have hsum : n + 1 + t - 1 = t + n := by omega
  rw [Paced, hsum, hits_add, h.hits hr]
  have hle := hits_le ready (k + t) n
  omega

/-- How a wait with a budget of `t` ends: with what is left of it, and after how many readings. -/
inductive Waited (ready : Nat → Bool) (top t k : Nat) : Nat → Nat → Prop
  | hit (hj : j < t) (hready : ready (k + j) = true) (hhits : hits ready k (j + 1) = 1)
      (hpaced : ∀ n, Paced ready (n + 1) t k ↔ Paced ready n (t - j) (k + (j + 1))) :
      Waited ready top t k (t - j) (j + 1)
  | last (hhits : hits ready k (t + 1) = 1) (hpaced : ∀ n, ¬ Paced ready (n + 1) t k) :
      Waited ready top t k 0 (t + 1)
  | wrap (hready : ready (k + t) = false) (hhits : hits ready k (t + 1) = 0)
      (hpaced : ∀ n, ¬ Paced ready (n + 1) t k) : Waited ready top t k top (t + 1)

theorem wait_waited (hr : ∀ k s, (read k s).1 = ready k) (top t k : Nat) (s : σ) :
    ∃ left n, wait read top t k s = ((left, k + n), after read n k s) ∧
      Waited ready top t k left n := by
  cases wait_cases top read t k s with
  | inl h =>
    obtain ⟨j, hj, hhit, hw⟩ := h
    refine ⟨_, _, hw, ?_⟩
    cases Nat.eq_or_lt_of_le hj with
    | inl he =>
      subst he
      rw [Nat.sub_self]
      exact .last (hhit.hits hr) fun n => not_paced_of_misses hr hhit.misses
    | inr hlt => exact .hit hlt (hhit.is_ready hr) (hhit.hits hr) fun n => paced_hit hr hhit hlt
  | inr h =>
    obtain ⟨hmiss, hw⟩ := h
    exact ⟨_, _, hw, .wrap (hmiss.not_ready hr) (hmiss.hits hr)
      fun n => not_paced_of_misses hr hmiss.of_succ⟩

end Streams

end Polls
