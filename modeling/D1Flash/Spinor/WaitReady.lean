import D1Flash.Spinor.Transfer

namespace D1Flash
set_option autoImplicit true

/-- The polls made so far and the milliseconds slept. -/
structure WaitCount where
  polls : Nat
  sleeps : Nat
  deriving DecidableEq

/-- A chip that answers the status polls one after the other. -/
def scriptPort (answer : Nat → Int × List Byte) : SpiPort WaitCount where
  halSpiXfer _ s := (answer s.polls, { s with polls := s.polls + 1 })
  mdelay n s := { s with sleeps := s.sleeps + n }

/-- The transfer succeeds and the busy bit of the status register is clear. -/
def pollReady (a : Int × List Byte) : Bool :=
  a.1 == 0 && a.2.getD 1 0 &&& norBusyMask == 0

variable (answer : Nat → Int × List Byte)

theorem norIsBusy_script (s : WaitCount) :
    ∃ busy, norIsBusy (scriptPort answer) s = (busy, { s with polls := s.polls + 1 }) ∧
      (busy = 0 ↔ pollReady (answer s.polls) = true) := by
  rcases ha : answer s.polls with ⟨ret, reg⟩
  have hread : norReadStatus (scriptPort answer) s =
      (if ret ≠ 0 then (ret, 0) else (0, reg.getD 1 0), { s with polls := s.polls + 1 }) := by
    simp only [norReadStatus, norTransfer, scriptPort, ha]
    split <;> rfl
  rw [norIsBusy, hread, pollReady]
  by_cases hret : ret = 0
  · rw [if_neg (not_not.2 hret)]
    dsimp only
    rw [if_neg (by decide), hret]
    by_cases hbit : reg.getD 1 0 &&& norBusyMask = 0
    · rw [if_neg (not_not.2 hbit), hbit]
      exact ⟨0, rfl, by decide⟩
    · rw [if_pos hbit]
      refine ⟨1, rfl, ?_⟩
      simp only [beq_self_eq_true, Bool.true_and, beq_iff_eq, hbit, iff_false]
      decide
  · rw [if_pos hret]
    dsimp only
    rw [if_pos hret]
    refine ⟨ret, rfl, ?_⟩
    rw [beq_eq_false_iff_ne.2 hret, Bool.false_and]
    exact iff_of_false hret Bool.false_ne_true

/-- The poll among the next `n` that sees the chip ready. -/
def firstReady (polls n : Nat) : Option Nat :=
  (List.range' polls n).find? fun i => pollReady (answer i)

theorem firstReady_succ (q n : Nat) :
    firstReady answer q (n + 1) =
      if pollReady (answer q) = true then some q else firstReady answer (q + 1) n := by
  rw [firstReady, List.range'_succ, List.find?_cons]
  cases pollReady (answer q) with
  | true => rfl
  | false => rfl

theorem firstReady_add (q m n : Nat) :
    firstReady answer q (m + n) = (firstReady answer q m).or (firstReady answer (q + m) n) := by
  rw [firstReady, ← List.range'_append_1, List.find?_append]
  rfl

theorem firstReady_some (h : firstReady answer q n = some i) :
    q ≤ i ∧ i < q + n ∧ pollReady (answer i) = true ∧ ∀ j, q ≤ j → j < i →
    pollReady (answer j) = false := by
  obtain ⟨hi, hmem, hj⟩ := List.find?_range'_eq_some.1 h
  rw [List.mem_range'_1] at hmem
  exact ⟨hmem.1, hmem.2, hi, fun j hq hlt => by simpa using hj j hq hlt⟩

theorem firstReady_none (h : firstReady answer q n = none) :
    ∀ j, q ≤ j → j < q + n → pollReady (answer j) = false := by
  intro j hq hlt
  simpa using List.find?_range'_eq_none.1 h j hq hlt

theorem timesLoop_script (n : Nat) (s : WaitCount) :
    timesLoop (scriptPort answer) n s =
      match firstReady answer s.polls n with
      | some i => (true, { s with polls := i + 1 })
      | none => (false, { s with polls := s.polls + n }) := by
  induction n generalizing s with
  | zero => rfl
  | succ n ih =>
    obtain ⟨busy, hb, hz⟩ := norIsBusy_script answer s
    rw [timesLoop, hb, firstReady_succ]
    by_cases hr : pollReady (answer s.polls) = true
    · dsimp only
      rw [if_pos (hz.2 hr), if_pos hr]
    · dsimp only
      rw [if_neg (fun h => hr (hz.1 h)), if_neg hr, ih]
      cases firstReady answer (s.polls + 1) n with
      | some i => rfl
      | none =>
        dsimp only
        rw [Nat.add_right_comm, Nat.add_assoc]

/-- While the counter does not wrap, every round that sees the chip busy sleeps. -/
theorem msLoop_script (hn : n < 2 ^ 32) (s : WaitCount) :
    msLoop (scriptPort answer) n s =
      match firstReady answer s.polls n with
      | some i => (true, ⟨i + 1, s.sleeps + (i - s.polls)⟩)
      | none => (false, ⟨s.polls + n, s.sleeps + n⟩) := by
  induction n generalizing s with
  | zero => rfl
  | succ n ih =>
    obtain ⟨busy, hb, hz⟩ := norIsBusy_script answer s
    have hne : u32 (n + 1) ≠ 0 := by
      rw [u32]
      omega
    rw [msLoop, hb, firstReady_succ]
    by_cases hr : pollReady (answer s.polls) = true
    · dsimp only
      rw [if_pos (hz.2 hr), if_pos hr]
      dsimp only
      rw [Nat.sub_self]
      rfl
    · dsimp only
      rw [if_neg (fun h => hr (hz.1 h)), if_neg hr, if_pos hne, ih (Nat.lt_of_succ_lt hn)]
      cases hf : firstReady answer (s.polls + 1) n with
      | some i =>
        have hi := (firstReady_some answer hf).1
        simp only [scriptPort, hf, Prod.mk.injEq, WaitCount.mk.injEq, true_and]
        omega
      | none =>
        simp only [scriptPort, hf, Prod.mk.injEq, WaitCount.mk.injEq, true_and]
        omega

/-- The sleeps of the first `k` rounds that see the chip busy: the round that holds a zero counter
does not sleep. -/
def roundSleeps (ms k : Nat) : Nat := if ms = 0 then k - 1 else k

theorem msLoop_fresh (hms : ms < 2 ^ 32) :
    msLoop (scriptPort answer) (preDecIters ms) ⟨0, 0⟩ =
      match firstReady answer 0 (preDecIters ms) with
      | some i => (true, ⟨i + 1, roundSleeps ms i⟩)
      | none => (false, ⟨preDecIters ms, roundSleeps ms (preDecIters ms)⟩) := by
  by_cases h0 : ms = 0
  · -- the wrapped counter: one round without a sleep, then 2^32 - 1 with one
    obtain ⟨busy, hb, hz⟩ := norIsBusy_script answer ⟨0, 0⟩
    have hiters : preDecIters ms = 4294967295 + 1 := by
      rw [h0]
      rfl
    rw [hiters, msLoop, hb, firstReady_succ]
    by_cases hr : pollReady (answer 0) = true
    · dsimp only
      rw [if_pos (hz.2 hr), if_pos hr]
      dsimp only
      rw [roundSleeps, if_pos h0]
    · dsimp only
      rw [if_neg (fun h => hr (hz.1 h)), if_neg hr, if_neg (by decide),
        msLoop_script answer (by decide)]
      cases hf : firstReady answer (0 + 1) 4294967295 with
      | some i =>
        simp only [Nat.zero_add, roundSleeps, if_pos h0]
      | none =>
        simp only [Nat.zero_add, roundSleeps, if_pos h0]
  · rw [preDecIters, if_neg h0, msLoop_script answer hms]
    simp only [Nat.zero_add, Nat.sub_zero, roundSleeps, if_neg h0]

/-- The whole wait: it ends at the first poll that sees the chip ready, or after all its rounds. -/
theorem norWaitReady_script (hms : ms < 2 ^ 32) (times : Nat) :
    norWaitReady (scriptPort answer) ms times ⟨0, 0⟩ =
      match firstReady answer 0 (preDecIters ms + (preDecIters times + 1)) with
      | some i => (0, ⟨i + 1, roundSleeps ms (min i (preDecIters ms))⟩)
      | none =>
        (-eBusy, ⟨preDecIters ms + (preDecIters times + 1), roundSleeps ms (preDecIters ms)⟩) := by
  rw [norWaitReady, msLoop_fresh answer hms, firstReady_add]
  cases hf : firstReady answer 0 (preDecIters ms) with
  | some i =>
    have hi := (firstReady_some answer hf).2.1
    dsimp only [Option.some_or]
    rw [Nat.min_eq_left (by omega)]
  | none =>
    dsimp only
    rw [Option.none_or, timesLoop_script, Nat.zero_add, firstReady_add]
    cases hf' : firstReady answer (preDecIters ms) (preDecIters times) with
    | some i =>
      have hi := (firstReady_some answer hf').1
      dsimp only [Option.some_or]
      rw [Nat.min_eq_right hi]
    | none =>
      obtain ⟨busy, hb, hz⟩ := norIsBusy_script answer
        ⟨preDecIters ms + preDecIters times, roundSleeps ms (preDecIters ms)⟩
      dsimp only
      rw [hb, Option.none_or, firstReady_succ]
      by_cases hr : pollReady (answer (preDecIters ms + preDecIters times)) = true
      · dsimp only
        rw [if_pos (hz.2 hr), if_pos hr]
        dsimp only
        rw [Nat.min_eq_right (Nat.le_add_right _ _)]
      · dsimp only
        rw [if_neg (fun h => hr (hz.1 h)), if_neg hr]
        rfl

/-- What the wait promises: its polls and sleeps are bounded by its arguments, it succeeds if and
only if a poll it made saw the chip ready, and it fails with `-EBUSY` only. -/
def WaitKept (ms times : Nat) (r : Int × WaitCount) : Prop :=
  r.2.polls ≤ max ms 1 + max times 1 + 1 ∧ r.2.sleeps ≤ ms ∧
    (r.1 = 0 ↔ ∃ i < r.2.polls, pollReady (answer i) = true) ∧ (r.1 ≠ 0 → r.1 = -eBusy)

/-- Neither counter starts at zero, or the chip is seen ready before a wrapped counter shows. -/
def WaitBounded (ms times : Nat) : Prop :=
  ms ≠ 0 ∧ times ≠ 0 ∨ ∃ i < ms + 2, pollReady (answer i) = true

theorem waitKept_of_ready (hf : firstReady answer 0 n = some i) (ms times sleeps : Nat) :
    WaitKept answer ms times (0, ⟨i + 1, sleeps⟩) ↔
      i ≤ max ms 1 + max times 1 ∧ sleeps ≤ ms := by
  have hr := (firstReady_some answer hf).2.2.1
  constructor
  · rintro ⟨hp, hs, -⟩
    exact ⟨Nat.le_of_succ_le_succ hp, hs⟩
  · rintro ⟨hp, hs⟩
    have hready : (0 : Int) = 0 ↔ ∃ j < i + 1, pollReady (answer j) = true :=
      iff_of_true rfl ⟨i, Nat.lt_succ_self i, hr⟩
    exact ⟨Nat.succ_le_succ hp, hs, hready, fun h => absurd rfl h⟩

theorem waitKept_of_busy (hf : firstReady answer 0 n = none) (ms times sleeps : Nat) :
    WaitKept answer ms times (-eBusy, ⟨n, sleeps⟩) ↔
      n ≤ max ms 1 + max times 1 + 1 ∧ sleeps ≤ ms := by
  have hnone := firstReady_none answer hf
  constructor
  · rintro ⟨hp, hs, -⟩
    exact ⟨hp, hs⟩
  · rintro ⟨hp, hs⟩
    have hbusy : ¬ ∃ i < n, pollReady (answer i) = true := by
      rintro ⟨i, hi, hr⟩
      rw [hnone i (Nat.zero_le i) (by omega)] at hr
      cases hr
    have hret : (-eBusy : Int) ≠ 0 := by decide
    exact ⟨hp, hs, iff_of_false hret hbusy, fun _ => rfl⟩

theorem preDecIters_pos (n : Nat) : 0 < preDecIters n ∧ n ≤ preDecIters n := by
  rw [preDecIters]
  split <;> omega

theorem ready_before_iff (hf : firstReady answer 0 m = some i) (n : Nat) :
    (∃ j < n, pollReady (answer j) = true) ↔ i < n := by
  obtain ⟨-, -, hr, hbefore⟩ := firstReady_some answer hf
  constructor
  · rintro ⟨j, hj, hready⟩
    apply Nat.lt_of_not_le
    intro hle
    rw [hbefore j (Nat.zero_le j) (Nat.lt_of_lt_of_le hj hle)] at hready
    cases hready
  · intro hi
    exact ⟨i, hi, hr⟩

/-- The wait keeps its promise on exactly these arguments and answers. -/
theorem norWaitReady_kept_iff (ms times : UInt32) :
    WaitKept answer ms.toNat times.toNat
        (norWaitReady (scriptPort answer) ms.toNat times.toNat ⟨0, 0⟩) ↔
      WaitBounded answer ms.toNat times.toNat := by
  rw [norWaitReady_script answer ms.toNat_lt]
  generalize ms.toNat = ms
  generalize times.toNat = times
  have hN := preDecIters_pos ms
  have hM := preDecIters_pos times
  have hzero : preDecIters 0 = 0x100000000 := rfl
  have hsucc : ∀ n, n ≠ 0 → preDecIters n = n := fun n hn => if_neg hn
  cases hf : firstReady answer 0 (preDecIters ms + (preDecIters times + 1)) with
  | some i =>
    have hi := (firstReady_some answer hf).2.1
    dsimp only
    rw [waitKept_of_ready answer hf, WaitBounded, ready_before_iff answer hf, roundSleeps]
    by_cases hms : ms = 0
    · rw [if_pos hms, hms, hzero]
      omega
    · rw [hsucc ms hms] at hi
      rw [if_neg hms, hsucc ms hms]
      by_cases htimes : times = 0
      · omega
      · rw [hsucc times htimes] at hi
        omega
  | none =>
    have hnone := firstReady_none answer hf
    have hbusy : ¬ ∃ i < ms + 2, pollReady (answer i) = true := by
      rintro ⟨i, hi, hr⟩
      rw [hnone i (Nat.zero_le i) (by omega)] at hr
      cases hr
    dsimp only
    rw [waitKept_of_busy answer hf, WaitBounded, or_iff_left hbusy, roundSleeps]
    by_cases hms : ms = 0
    · rw [if_pos hms, hms, hzero]
      omega
    · rw [if_neg hms, hsucc ms hms]
      by_cases htimes : times = 0
      · rw [htimes, hzero]
        omega
      · rw [hsucc times htimes]
        omega

/-- A chip that never answers: `nor_wait_ready(0, 1)` sleeps for 2^32 - 1 ms and polls 2^32 + 2
times. -/
theorem norWaitReady_wraps :
    norWaitReady (scriptPort fun _ => (-1, [])) 0 1 ⟨0, 0⟩ = (-eBusy, ⟨4294967298, 4294967295⟩) ∧
      ¬ WaitKept (fun _ => (-1, [])) 0 1
      (norWaitReady (scriptPort fun _ => (-1, [])) 0 1 ⟨0, 0⟩) := by
  have hwait : norWaitReady (scriptPort fun _ => (-1, [])) 0 1 ⟨0, 0⟩ =
      (-eBusy, ⟨4294967298, 4294967295⟩) := by
    rw [norWaitReady_script _ (by decide)]
    have hnone : firstReady (fun _ => (-1, [])) 0 (preDecIters 0 + (preDecIters 1 + 1)) = none := by
      rw [firstReady, List.find?_range'_eq_none]
      intro i _ _
      rfl
    rw [hnone]
    rfl
  rw [hwait]
  refine ⟨rfl, ?_⟩
  rintro ⟨hpolls, -⟩
  exact absurd hpolls (by decide)

end D1Flash
