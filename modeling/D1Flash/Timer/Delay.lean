import D1Flash.Timer.SunxiTimer

namespace D1Flash
open Runs
set_option autoImplicit true

namespace TimerSys

/-- The limits of a timer as `sunxi_timer_init` sets them. -/
def Initialised (timer : Nat) (s : TimerSys) : Prop :=
  (s.gTimer timer).minDeltaTicks = timerSyncTicks ∧ (s.gTimer timer).maxDeltaTicks = 0xffffffff

@[simp] theorem halWritel_gTimer (s : TimerSys) (v : BitVec 32) (off : Nat) :
    (s.halWritel v off).gTimer = s.gTimer := rfl

theorem halWritel_regs (s : TimerSys) (v : BitVec 32) (off o : Nat) :
    (s.halWritel v off).regs o = if o = off then v else s.regs o :=
  Function.update_apply _ _ _ _

theorem Initialised.congr {s s' : TimerSys} (h : s.Initialised timer) (he : s'.gTimer = s.gTimer) :
    s'.Initialised timer := by
  rw [Initialised, he]
  exact h

theorem Initialised.setTimer {s : TimerSys} (h : s.Initialised timer) {t : SunxiTimer}
    (ht : timer = j → t.minDeltaTicks = timerSyncTicks ∧ t.maxDeltaTicks = 0xffffffff) :
    (s.setTimer j t).Initialised timer := by
  have hget : (s.setTimer j t).gTimer timer = if timer = j then t else s.gTimer timer :=
    Function.update_apply _ _ _ _
  rw [Initialised, hget]
  by_cases hj : timer = j
  · rw [if_pos hj]
    exact ht hj
  · rw [if_neg hj]
    exact h

end TimerSys

open TimerSys

theorem sunxiTimerInit_gTimer (id : Nat) (granted : Bool) (s : TimerSys) :
    (sunxiTimerInit id granted s).gTimer =
      Function.update s.gTimer id
        { timerId := id, clkRate := 24000000, irq := sunxiIrqTmr id, minDeltaTicks := timerSyncTicks
          maxDeltaTicks := 0xffffffff, callback := 0, param := 0 } := by
  cases granted with
  | false => rfl
  | true => rfl

theorem sunxiTimerInit_initialised (id : Nat) (granted : Bool) (s : TimerSys) :
    (sunxiTimerInit id granted s).Initialised id := by
  rw [Initialised, sunxiTimerInit_gTimer, Function.update_self]
  exact ⟨rfl, rfl⟩

theorem sunxiTimerSet_initialised {s : TimerSys} (h : s.Initialised timer) (periodic : Bool)
    (delayUs : UInt32) (j callback callbackParam : Nat) :
    (sunxiTimerSet periodic delayUs j callback callbackParam s).2.Initialised timer := by
  rw [sunxiTimerSet]
  split
  · exact h
  · by_cases hc : callback ≠ 0
    · have hset : (s.setTimer j { s.gTimer j with callback, param := callbackParam }).Initialised
          timer := by
        apply h.setTimer
        rintro rfl
        exact h
      rw [if_pos hc]
      exact hset.congr rfl
    · rw [if_neg hc]
      exact h.congr rfl

theorem timerStep_initialised (s : TimerSys) (op : TimerOp) (h : s.Initialised timer) :
    (timerStep s op).2.Initialised timer := by
  cases op with
  | init j granted =>
    rw [Initialised, timerStep, sunxiTimerInit_gTimer]
    apply h.setTimer
    intro _
    exact ⟨rfl, rfl⟩
  | uninit => exact h.congr rfl
  | setOneshot => exact sunxiTimerSet_initialised h _ _ _ _ _
  | setPeriodic => exact sunxiTimerSet_initialised h _ _ _ _ _
  | start => exact h.congr rfl
  | stop => exact h.congr rfl
  | irq j =>
    rw [timerStep, sunxiTimerIrqHandle]
    split
    · exact h.congr rfl
    · exact h.congr rfl

/-- A timer that was initialised once stays so, whatever the driver is called for afterwards. -/
theorem run_initialised (s : TimerSys) (timer : Nat) (granted : Bool)
    (before after : List TimerOp) :
    (run timerStep s (before ++ .init timer granted :: after)).2.Initialised timer := by
  have hinit := sunxiTimerInit_initialised timer granted (run timerStep s before).2
  have hstep : ∀ s op, TimerSys.Initialised timer s → True → (timerStep s op).2.Initialised timer :=
    fun s op hs _ => timerStep_initialised s op hs
  have hafter : TimerSys.Initialised timer
      (run timerStep (sunxiTimerInit timer granted (run timerStep s before).2) after).2 :=
    invariant hstep hinit (along_of_forall fun _ _ _ => trivial)
  rw [run_append]
  exact hafter

theorem ticks_toNat (delayUs : UInt32) : (delayUs * 25).toNat = 25 * delayUs.toNat % 2 ^ 32 := by
  rw [UInt32.toNat_mul, Nat.mul_comm]
  rfl

/-- The limits turn away a product of 0, 1 or 2 only. -/
theorem sunxiTimerSet_refuses {s : TimerSys} (h : s.Initialised timer) (periodic : Bool)
    (delayUs : UInt32) (callback callbackParam : Nat) (ht : 25 * delayUs.toNat % 2 ^ 32 < 3) :
    sunxiTimerSet periodic delayUs timer callback callbackParam s = (-1, s) := by
  have hlt : delayUs * 25 < timerSyncTicks := by
    rw [UInt32.lt_iff_toNat_lt, ticks_toNat]
    exact ht
  rw [sunxiTimerSet, h.1, if_pos (.inl hlt)]

/-- What an accepted delay programs is the product modulo 2^32. -/
theorem sunxiTimerSet_accepts {s : TimerSys} (h : s.Initialised timer) (periodic : Bool)
    (delayUs : UInt32) (callback callbackParam : Nat) (ht : 3 ≤ 25 * delayUs.toNat % 2 ^ 32) :
    (sunxiTimerSet periodic delayUs timer callback callbackParam s).1 = 0 ∧
      (sunxiTimerSet periodic delayUs timer callback callbackParam s).2.interval timer =
        25 * delayUs.toNat % 2 ^ 32 := by
  have hlt : ¬ (delayUs * 25 < timerSyncTicks ∨ delayUs * 25 > 0xffffffff) := by
    rw [UInt32.lt_iff_toNat_lt, gt_iff_lt, UInt32.lt_iff_toNat_lt, ticks_toNat]
    have h3 : timerSyncTicks.toNat = 3 := rfl
    have hmax : (0xffffffff : UInt32).toNat = 2 ^ 32 - 1 := rfl
    omega
  have hctl : timerIntvalReg timer ≠ timerCtlReg timer := by
    rw [timerIntvalReg, timerCtlReg]
    omega
  rw [sunxiTimerSet, h.1, h.2, if_neg hlt]
  refine ⟨rfl, ?_⟩
  simp only [interval, sunxiTimerStart, sunxiTimerSetup, halWritel_regs, if_neg hctl, if_pos]
  exact ticks_toNat delayUs

/-- The call refuses and changes nothing, or it programs 24 to 25 ticks for each microsecond. -/
def TimerSys.OnTime (s : TimerSys) (timer : Nat) (delayUs : UInt32) (r : Int × TimerSys) : Prop :=
  r.1 = -1 ∧ r.2 = s ∨
    r.1 = 0 ∧ 24 * delayUs.toNat ≤ r.2.interval timer ∧ r.2.interval timer ≤ 25 * delayUs.toNat

/-- The product of the delay fits 32 bits, or it wraps to one of the two values under the limit. -/
def DelayFits (delayUs : UInt32) : Prop :=
  delayUs ≤ 171798691 ∨ delayUs = 2233382994 ∨ delayUs = 3264175145

/-- 3264175145 is the inverse of 25 modulo 2^32. -/
theorem delay_of_product {n : Nat} (hn : n < 2 ^ 32) :
    3264175145 * (25 * n % 2 ^ 32) % 2 ^ 32 = n := by
  rw [Nat.mul_mod_mod, ← Nat.mul_assoc]
  have hinv : 3264175145 * 25 * n = n + 2 ^ 32 * (19 * n) := by omega
  rw [hinv, Nat.add_mul_mod_self_left, Nat.mod_eq_of_lt hn]

theorem delayFits_iff (delayUs : UInt32) :
    DelayFits delayUs ↔ 25 * delayUs.toNat < 2 ^ 32 ∨ 25 * delayUs.toNat % 2 ^ 32 < 3 := by
  have hn : delayUs.toNat < 2 ^ 32 := delayUs.toNat_lt
  rw [DelayFits, UInt32.le_iff_toNat_le, ← UInt32.toNat_inj, ← UInt32.toNat_inj]
  have h₀ : (171798691 : UInt32).toNat = 171798691 := rfl
  have h₁ : (2233382994 : UInt32).toNat = 2233382994 := rfl
  have h₂ : (3264175145 : UInt32).toNat = 3264175145 := rfl
  rw [h₀, h₁, h₂]
  constructor
  · omega
  · rintro (hfit | hlow)
    · exact .inl (by omega)
    · have hinv := delay_of_product hn
      generalize 25 * delayUs.toNat % 2 ^ 32 = r at hlow hinv
      have hr : r = 0 ∨ r = 1 ∨ r = 2 := by
        clear hinv
        omega
      rcases hr with rfl | rfl | rfl
      · exact .inl (hinv ▸ by decide)
      · exact .inr (.inr hinv.symm)
      · exact .inr (.inl hinv.symm)

/-- One wrap takes more than `n` away from `25 * n`, so what is left is short of `24 * n`. -/
theorem product_fits {n : Nat} (hn : n < 2 ^ 32) (h : 24 * n ≤ 25 * n % 2 ^ 32) :
    25 * n < 2 ^ 32 := by
  apply Nat.lt_of_not_le
  intro hle
  have hwrap : 25 * n % 2 ^ 32 ≤ 25 * n - 2 ^ 32 := by
    rw [Nat.mod_eq_sub_mod hle]
    exact Nat.mod_le _ _
  omega

theorem sunxiTimerSet_onTime_iff {s : TimerSys} (h : s.Initialised timer) (periodic : Bool)
    (delayUs : UInt32) (callback callbackParam : Nat) :
    s.OnTime timer delayUs (sunxiTimerSet periodic delayUs timer callback callbackParam s) ↔
      DelayFits delayUs := by
  have hn : delayUs.toNat < 2 ^ 32 := delayUs.toNat_lt
  rw [delayFits_iff, OnTime]
  rcases Nat.lt_or_ge (25 * delayUs.toNat % 2 ^ 32) 3 with ht | ht
  · rw [sunxiTimerSet_refuses h _ _ _ _ ht]
    exact ⟨fun _ => .inr ht, fun _ => .inl ⟨rfl, rfl⟩⟩
  · obtain ⟨hret, hint⟩ := sunxiTimerSet_accepts h periodic delayUs callback callbackParam ht
    rw [hret, hint]
    constructor
    · rintro (⟨hret, -⟩ | ⟨-, hlow, -⟩)
      · cases hret
      · exact .inl (product_fits hn hlow)
    · rintro (hfit | hlow)
      · rw [Nat.mod_eq_of_lt hfit]
        exact .inr ⟨rfl, by omega, Nat.le_refl _⟩
      · exact absurd hlow (Nat.not_lt.2 ht)

theorem sunxiTimerSet_exact {s : TimerSys} (h : s.Initialised timer) (hfit : DelayFits delayUs)
    (hret : (sunxiTimerSet periodic delayUs timer callback callbackParam s).1 = 0) :
    (sunxiTimerSet periodic delayUs timer callback callbackParam s).2.interval timer =
      25 * delayUs.toNat := by
  rcases Nat.lt_or_ge (25 * delayUs.toNat % 2 ^ 32) 3 with ht | ht
  · rw [sunxiTimerSet_refuses h _ _ _ _ ht] at hret
    cases hret
  · rw [(sunxiTimerSet_accepts h _ _ _ _ ht).2]
    rcases (delayFits_iff delayUs).1 hfit with hlt | hlt
    · exact Nat.mod_eq_of_lt hlt
    · exact absurd hlt (Nat.not_lt.2 ht)

def timerSetter (periodic : Bool) : UInt32 → Nat → Nat → Nat → TimerSys → Int × TimerSys :=
  if periodic then sunxiTimerSetPeriodic else sunxiTimerSetOneshot

theorem timerSetter_eq (periodic : Bool) : timerSetter periodic = sunxiTimerSet periodic := by
  cases periodic with
  | false => rfl
  | true => rfl

/-- Whatever the driver was called for before and after it initialised the timer: a delay is
refused or on time exactly when it fits, and the delays that fit are programmed in order. -/
theorem delay_never_early_iff (s : TimerSys) (before after : List TimerOp) (timer : Nat)
    (granted periodic : Bool) :
    let s := (run timerStep s (before ++ .init timer granted :: after)).2
    (∀ delayUs callback callbackParam,
      s.OnTime timer delayUs (timerSetter periodic delayUs timer callback callbackParam s) ↔
        DelayFits delayUs) ∧
    ∀ delayUs callback callbackParam delayUs' callback' callbackParam',
      DelayFits delayUs → DelayFits delayUs' → delayUs ≤ delayUs' →
      (timerSetter periodic delayUs timer callback callbackParam s).1 = 0 →
      (timerSetter periodic delayUs' timer callback' callbackParam' s).1 = 0 →
      (timerSetter periodic delayUs timer callback callbackParam s).2.interval timer ≤
        (timerSetter periodic delayUs' timer callback' callbackParam' s).2.interval timer := by
  have h := run_initialised s timer granted before after
  rw [timerSetter_eq]
  constructor
  · intro delayUs callback callbackParam
    exact sunxiTimerSet_onTime_iff h periodic delayUs callback callbackParam
  · intro delayUs callback callbackParam delayUs' callback' callbackParam' hfit hfit' hle hret hret'
    rw [sunxiTimerSet_exact h hfit hret, sunxiTimerSet_exact h hfit' hret']
    exact Nat.mul_le_mul_left 25 (UInt32.le_iff_toNat_le.1 hle)

/-- A block with every register clear, before anything is initialised. -/
def timerReset : TimerSys where
  regs _ := 0
  gTimer _ := ⟨0, 0, 0, 0, 0, 0, 0⟩
  irqOn _ := false
  calls := []

/-- 171798692 microseconds are nearly three minutes; the timer is loaded with 4 ticks. -/
theorem delay_early :
    let s := (run timerStep timerReset [.init 0 true]).2
    let r := sunxiTimerSetOneshot 171798692 0 1 0 s
    r.1 = 0 ∧ r.2.interval 0 = 4 ∧ ¬ s.OnTime 0 171798692 r := by
  have h := run_initialised timerReset 0 true [] []
  obtain ⟨hret, hint⟩ := sunxiTimerSet_accepts h false 171798692 1 0 (by decide)
  refine ⟨hret, hint, ?_⟩
  rintro (⟨hret', -⟩ | ⟨-, hlow, -⟩)
  · exact absurd (hret.symm.trans hret') (by decide)
  · exact absurd (Nat.le_trans hlow (Nat.le_of_eq hint)) (by decide)

end D1Flash
