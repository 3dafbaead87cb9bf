import Mathlib.Data.List.Basic

namespace BitRuns
set_option autoImplicit true

/-- A maximal run of set bits below `n`, as its first place and the place after its last. -/
structure IsRun (bits : Nat → Bool) (n : Nat) (r : Nat × Nat) : Prop where
  nonempty : r.1 < r.2
  le : r.2 ≤ n
  set : ∀ b, r.1 ≤ b → b < r.2 → bits b = true
  before : ∀ b, b + 1 = r.1 → bits b = false
  after : r.2 = n ∨ bits r.2 = false

/-- The runs that a scan meets in `n` more places from `stop` on, when the set bits since `start`
are the run that it is in. -/
def scan (bits : Nat → Bool) : Nat → Nat → Nat → List (Nat × Nat)
  | 0, start, stop => if start = stop then [] else [(start, stop)]
  | n + 1, start, stop =>
    if bits stop then scan bits n start (stop + 1)
    else if start = stop then scan bits n (stop + 1) (stop + 1)
    else (start, stop) :: scan bits n (stop + 1) (stop + 1)

def runs (bits : Nat → Bool) (n : Nat) : List (Nat × Nat) := scan bits n 0 0

example : runs (fun i => i % 4 ≠ 0) 8 = [(1, 4), (5, 8)] := by decide

variable {bits : Nat → Bool}

theorem IsRun.eq_scanned (h : IsRun bits n r) (hset : ∀ b, start ≤ b → b < stop → bits b = true)
    (hn : stop = n ∨ bits stop = false) (hs : stop ≤ n) (hstart : start ≤ r.1)
    (hstop : r.1 < stop) : r = (start, stop) := by
  have h₁ : r.1 = start := by
    rcases Nat.eq_or_lt_of_le hstart with he | hlt
    · exact he.symm
    · have hb := h.before (r.1 - 1) (by omega)
      rw [hset (r.1 - 1) (by omega) (by omega)] at hb
      cases hb
  have h₂ : r.2 = stop := by
    have hle := h.le
    have hlt := h.nonempty
    rcases Nat.lt_trichotomy r.2 stop with hr | hr | hr
    · rcases h.after with hb | hb
      · omega
      · rw [hset r.2 (by omega) hr] at hb
        cases hb
    · exact hr
    · rcases hn with hb | hb
      · omega
      · rw [h.set stop (by omega) hr] at hb
        cases hb
  rw [← h₁, ← h₂]

theorem IsRun.start_ne (h : IsRun bits n r) (hb : bits b = false) : r.1 ≠ b := by
  intro he
  have hset := h.set b (by omega) (by have := h.nonempty; omega)
  rw [hb] at hset
  cases hset

theorem isRun_of_scanned (hset : ∀ b, start ≤ b → b < stop → bits b = true)
    (hbefore : ∀ b, b + 1 = start → bits b = false) (hn : stop = n ∨ bits stop = false)
    (hs : stop ≤ n) (hlt : start < stop) : IsRun bits n (start, stop) :=
  ⟨hlt, hs, hset, hbefore, hn⟩

/-- A scan meets the maximal runs, and nothing else. -/
theorem mem_scan (hset : ∀ b, start ≤ b → b < stop → bits b = true)
    (hbefore : ∀ b, b + 1 = start → bits b = false) (h : start ≤ stop) :
    r ∈ scan bits n start stop ↔ IsRun bits (stop + n) r ∧ start ≤ r.1 := by
  induction n generalizing start stop with
  | zero =>
    rw [scan]
    by_cases hss : start = stop
    · rw [if_pos hss]
      constructor
      · intro hr
        cases hr
      · rintro ⟨hr, hle⟩
        have hlt := hr.nonempty
        have hend := hr.le
        omega
    · rw [if_neg hss, List.mem_singleton]
      constructor
      · rintro rfl
        exact ⟨isRun_of_scanned hset hbefore (.inl rfl) (Nat.le_refl _) (by omega), Nat.le_refl _⟩
      · rintro ⟨hr, hle⟩
        have hlt := hr.nonempty
        have hend := hr.le
        exact hr.eq_scanned hset (.inl rfl) (Nat.le_refl _) hle (by omega)
  | succ n ih =>
    have hcnt : stop + (n + 1) = stop + 1 + n := by omega
    rw [scan, hcnt]
    cases hbit : bits stop with
    | true =>
      rw [if_pos rfl]
      apply ih _ hbefore (by omega)
      intro b hb hb'
      by_cases hbs : b = stop
      · rw [hbs, hbit]
      · exact hset b hb (by omega)
    | false =>
      rw [if_neg Bool.false_ne_true]
      have hrest : r ∈ scan bits n (stop + 1) (stop + 1) ↔
          IsRun bits (stop + 1 + n) r ∧ stop + 1 ≤ r.1 := by
        apply ih _ _ (Nat.le_refl _)
        · intro b hb hb'
          omega
        · intro b hb
          rw [Nat.succ.inj hb, hbit]
      by_cases hss : start = stop
      · rw [if_pos hss, hrest]
        constructor
        · rintro ⟨hr, hle⟩
          exact ⟨hr, by omega⟩
        · rintro ⟨hr, hle⟩
          have hne := hr.start_ne hbit
          exact ⟨hr, by omega⟩
      · rw [if_neg hss, List.mem_cons, hrest]
        constructor
        · rintro (rfl | ⟨hr, hle⟩)
          · exact ⟨isRun_of_scanned hset hbefore (.inr hbit) (by omega) (by omega), Nat.le_refl _⟩
          · exact ⟨hr, by omega⟩
        · rintro ⟨hr, hle⟩
          by_cases hlt : r.1 < stop
          · exact .inl (hr.eq_scanned hset (.inr hbit) (by omega) hle hlt)
          · have hne := hr.start_ne hbit
            exact .inr ⟨hr, by omega⟩

theorem mem_runs : r ∈ runs bits n ↔ IsRun bits n r := by
  have h : r ∈ scan bits n 0 0 ↔ IsRun bits (0 + n) r ∧ 0 ≤ r.1 :=
    mem_scan (fun b _ hb => absurd hb (Nat.not_lt_zero b))
      (fun b hb => absurd hb (Nat.succ_ne_zero b)) (Nat.le_refl 0)
  rw [runs, h, Nat.zero_add]
  exact and_iff_left (Nat.zero_le _)

theorem le_scan (h : start ≤ stop) (hr : r ∈ scan bits n start stop) : start ≤ r.1 := by
  induction n generalizing start stop with
  | zero =>
    rw [scan] at hr
    split at hr
    · cases hr
    · exact Nat.le_of_eq (congrArg Prod.fst (List.mem_singleton.1 hr)).symm
  | succ n ih =>
    rw [scan] at hr
    split at hr
    · exact ih (by omega) hr
    · split at hr
      · exact Nat.le_trans (by omega) (ih (Nat.le_refl _) hr)
      · rcases List.mem_cons.1 hr with rfl | hr
        · exact Nat.le_refl _
        · exact Nat.le_trans (by omega) (ih (Nat.le_refl _) hr)

theorem scan_ascending (h : start ≤ stop) :
    (scan bits n start stop).Pairwise fun r r' => r.2 < r'.1 := by
  induction n generalizing start stop with
  | zero =>
    rw [scan]
    split
    · exact .nil
    · exact List.pairwise_singleton _ _
  | succ n ih =>
    rw [scan]
    split
    · exact ih (by omega)
    · split
      · exact ih (Nat.le_refl _)
      · exact .cons (fun r hr => le_scan (Nat.le_refl _) hr) (ih (Nat.le_refl _))

theorem runs_ascending : (runs bits n).Pairwise fun r r' => r.2 < r'.1 :=
  scan_ascending (Nat.le_refl 0)

theorem set_mem_scan (hb : bits b = true) (hlo : start ≤ b) (hhi : b < stop + n) :
    ∃ r ∈ scan bits n start stop, r.1 ≤ b ∧ b < r.2 := by
  induction n generalizing start stop with
  | zero =>
    rw [scan, if_neg (by omega)]
    exact ⟨(start, stop), List.mem_cons_self, hlo, hhi⟩
  | succ n ih =>
    rw [scan]
    cases hbit : bits stop with
    | true =>
      rw [if_pos rfl]
      exact ih hlo (by omega)
    | false =>
      rw [if_neg Bool.false_ne_true]
      have hne : b ≠ stop := by
        rintro rfl
        rw [hb] at hbit
        cases hbit
      by_cases hss : start = stop
      · rw [if_pos hss]
        exact ih (by omega) (by omega)
      · rw [if_neg hss]
        by_cases hlt : b < stop
        · exact ⟨(start, stop), List.mem_cons_self, hlo, hlt⟩
        · have hrest : ∃ r ∈ scan bits n (stop + 1) (stop + 1), r.1 ≤ b ∧ b < r.2 :=
            ih (by omega) (by omega)
          obtain ⟨r, hr, hr₁, hr₂⟩ := hrest
          exact ⟨r, List.mem_cons_of_mem _ hr, hr₁, hr₂⟩

theorem exists_run (hb : bits b = true) (hn : b < n) : ∃ r ∈ runs bits n, r.1 ≤ b ∧ b < r.2 :=
  set_mem_scan hb (Nat.zero_le b) (by rwa [Nat.zero_add])

end BitRuns
