import D1Flash.Drv.Common
import D1Flash.Lib.RegFile
import D1Flash.Pwm.Channels

namespace D1Flash
open BitField RegFile
set_option autoImplicit true

/-- The fields that `hal_pwm_control` sets. -/
def clkSrcField (channel : Nat) : Field := ⟨getPccrRegOffset channel, 7, 2⟩
def divMField (channel : Nat) : Field := ⟨getPccrRegOffset channel, 0, 4⟩
def gatingField (channel : Nat) : Field := ⟨pwmPcgr, channel, 1⟩
def prescalField (channel : Nat) : Field := ⟨pwmPcr + 0x20 * channel, 0, 8⟩
def actCyclesField (channel : Nat) : Field := ⟨pwmPpr + 0x20 * channel, 0, 16⟩
def periodCyclesField (channel : Nat) : Field := ⟨pwmPpr + 0x20 * channel, 16, 16⟩

/-- The clock for a period above 10 ns, and its source. -/
def pwmClock (config : PwmConfig) : Nat × BitVec 32 :=
  if config.periodNs ≤ 334 then (100000000, 1) else (24000000, 0)

/-- The cycles of the clock in a period. -/
def pwmRequested (config : PwmConfig) : Nat :=
  pwmDoDiv ((pwmClock config).1 * config.periodNs.toNat) 1000000000

/-- The calls of `SET_BITS`, in their order. -/
def pwmSets (channel : Nat) (config : PwmConfig) : Sets 32 :=
  let c := pwmRequested config
  let r := preScalLoop c preScal c 0 0
  let activeCycles := pwmDoDiv (r.1 * config.dutyNs.toNat) config.periodNs.toNat
  let entireCycles := if r.1 = 0 then r.1 + 1 else r.1
  [(clkSrcField channel, (pwmClock config).2), (divMField channel, .ofNat 32 r.2.1),
    (gatingField channel, 1), (prescalField channel, .ofNat 32 r.2.2),
    (actCyclesField channel, .ofNat 32 activeCycles),
    (periodCyclesField channel, .ofNat 32 (entireCycles - 1))]

/-- What `hal_pwm_control` does before the clock source is set. -/
def pwmEnabled (channel : Nat) (config : PwmConfig) (s : PwmSys) : PwmSys :=
  halPwmPorality channel config.polarity (halPwmEnableController channel
    { s with pinmux := s.pinmux ++ [pwmGpio.getD channel (0, 0)] })

theorem halPwmControl_sets (hv : config.Valid) (hp : 10 < config.periodNs) (channel : Nat)
    (s : PwmSys) :
    let r := halPwmControl channel config s
    r.1 = 0 ∧ r.2.regs = setAll (pwmSets channel config) (pwmEnabled channel config s).regs := by
  have hten : ¬ config.periodNs ≤ 10 := UInt32.not_le.2 hp
  dsimp only
  unfold halPwmControl pwmSets pwmRequested pwmClock
  rw [if_neg (not_not.2 hv)]
  dsimp only
  rw [if_neg hten]
  by_cases h334 : config.periodNs ≤ 334
  · rw [if_pos h334, if_pos h334]
    exact ⟨rfl, rfl⟩
  · rw [if_neg h334, if_neg h334]
    exact ⟨rfl, rfl⟩

/-- The divider of the clock that the search ends with, and its code. -/
def pwmDivider (c : Nat) : Nat × Nat :=
  if c / 65537 ≤ prescaleMax then (0, 1)
  else if c / 2 / 65537 ≤ prescaleMax then (1, 2)
  else if c / 4 / 65537 ≤ prescaleMax then (2, 4)
  else (3, 8)

theorem pwmDivider_cases (c : Nat) :
    (pwmDivider c = (0, 1) ∧ c / 65537 ≤ 256) ∨
      (pwmDivider c = (1, 2) ∧ ¬ c / 65537 ≤ 256 ∧ c / 2 / 65537 ≤ 256) ∨
      (pwmDivider c = (2, 4) ∧ ¬ c / 2 / 65537 ≤ 256 ∧ c / 4 / 65537 ≤ 256) ∨
      (pwmDivider c = (3, 8) ∧ ¬ c / 4 / 65537 ≤ 256) := by
  unfold pwmDivider prescaleMax
  by_cases h1 : c / 65537 ≤ 256
  · exact .inl ⟨if_pos h1, h1⟩
  rw [if_neg h1]
  by_cases h2 : c / 2 / 65537 ≤ 256
  · exact .inr (.inl ⟨if_pos h2, h1, h2⟩)
  rw [if_neg h2]
  by_cases h4 : c / 4 / 65537 ≤ 256
  · exact .inr (.inr (.inl ⟨if_pos h4, h2, h4⟩))
  · exact .inr (.inr (.inr ⟨if_neg h4, h4⟩))

theorem pwmDivider_pow (c : Nat) :
    2 ^ (pwmDivider c).1 = (pwmDivider c).2 ∧ (pwmDivider c).1 < 16 := by
  rcases pwmDivider_cases c with ⟨h, -⟩ | ⟨h, -⟩ | ⟨h, -⟩ | ⟨h, -⟩
  all_goals
    rw [h]
    decide

/-- The prescale, which leaves at most 65536 cycles. -/
def pwmPrescale (c : Nat) : Nat := c / (pwmDivider c).2 / 65537

/-- The cycles that are left. -/
def pwmEntire (c : Nat) : Nat := c / (pwmDivider c).2 / (pwmPrescale c + 1)

theorem cycles_fit (x p : Nat) : x / (p + 1) ≤ 65536 ↔ x / 65537 ≤ p := by
  have hl : x / (p + 1) < 65537 ↔ x < 65537 * (p + 1) := Nat.div_lt_iff_lt_mul p.succ_pos
  have hr : x / 65537 < p + 1 ↔ x < (p + 1) * 65537 := Nat.div_lt_iff_lt_mul (by omega)
  rw [Nat.mul_comm] at hr
  rw [← Nat.lt_succ_iff, ← Nat.lt_succ_iff]
  exact hl.trans hr.symm

/-- From a prescale on that is not too large the loop stops where the cycles fit first. -/
theorem prescaleLoop_found (hp : prescale ≤ c / d / 65537) (ht : c / d / 65537 < prescale + turns) :
    prescaleLoop c d turns prescale e = (c / d / (c / d / 65537 + 1), c / d / 65537, true) := by
  induction turns generalizing prescale e with
  | zero => omega
  | succ turns ih =>
    rw [prescaleLoop]
    by_cases hle : c / d / 65537 ≤ prescale
    · have he : prescale = c / d / 65537 := Nat.le_antisymm hp hle
      rw [if_pos ((cycles_fit _ _).2 hle), he]
    · rw [if_neg (mt (cycles_fit _ _).1 hle)]
      exact ih (by omega) (by omega)

theorem prescaleLoop_not_found (ht : prescale + turns ≤ c / d / 65537) (h0 : 0 < turns) :
    prescaleLoop c d turns prescale e = (c / d / (prescale + turns), prescale + turns, false) := by
  induction turns generalizing prescale e with
  | zero => omega
  | succ turns ih =>
    rw [prescaleLoop]
    have hbig : ¬ c / d / (prescale + 1) ≤ 65536 := by
      rw [cycles_fit]
      omega
    rw [if_neg hbig]
    cases turns with
    | zero => rfl
    | succ turns =>
      have hlast : prescale + 1 + (turns + 1) = prescale + (turns + 1 + 1) := by omega
      rw [ih (by omega) (Nat.succ_pos turns), hlast]

theorem preScalLoop_fits (he : e ≤ 65536) (pairs : List (Nat × Nat)) :
    preScalLoop c pairs e divM prescale = (e, divM, prescale) := by
  cases pairs with
  | nil => rfl
  | cons p pairs => rw [preScalLoop, if_pos he]

theorem preScalLoop_found (he : ¬ e ≤ 65536) (h : c / d / 65537 ≤ prescaleMax)
    (pairs : List (Nat × Nat)) :
    preScalLoop c ((reg, d) :: pairs) e divM prescale =
      (c / d / (c / d / 65537 + 1), reg, c / d / 65537) := by
  have hfit : c / d / (c / d / 65537 + 1) ≤ 65536 := (cycles_fit _ _).2 (Nat.le_refl _)
  have hturns : c / d / 65537 < 0 + (prescaleMax + 1) := by
    rw [Nat.zero_add]
    exact Nat.lt_succ_of_le h
  rw [preScalLoop, if_neg he, prescaleLoop_found (Nat.zero_le _) hturns]
  exact preScalLoop_fits hfit pairs

theorem preScalLoop_skip (he : ¬ e ≤ 65536) (h : ¬ c / d / 65537 ≤ prescaleMax)
    (reg divM prescale : Nat) (pairs : List (Nat × Nat)) :
    preScalLoop c ((reg, d) :: pairs) e divM prescale =
        preScalLoop c pairs (c / d / (prescaleMax + 1)) divM (prescaleMax + 1) ∧
      ¬ c / d / (prescaleMax + 1) ≤ 65536 := by
  have hall : 0 + (prescaleMax + 1) ≤ c / d / 65537 := by
    rw [Nat.zero_add]
    exact Nat.lt_of_not_le h
  constructor
  · rw [preScalLoop, if_neg he, prescaleLoop_not_found hall (Nat.succ_pos _), Nat.zero_add]
    rfl
  · rw [cycles_fit]
    exact h

/-- What the search ends with, as long as the divider 8 is enough. -/
theorem preScalLoop_eq (hc : c / 8 / 65537 ≤ prescaleMax) :
    preScalLoop c preScal c 0 0 = (pwmEntire c, (pwmDivider c).1, pwmPrescale c) := by
  have hone : c / 1 = c := Nat.div_one c
  by_cases hsmall : c ≤ 65536
  · have hdiv : pwmDivider c = (0, 1) := if_pos (by unfold prescaleMax; omega)
    have hzero : c / 65537 = 0 := Nat.div_eq_of_lt (Nat.lt_succ_of_le hsmall)
    rw [preScalLoop_fits hsmall, pwmEntire, pwmPrescale, hdiv]
    dsimp only
    rw [hone, hzero, Nat.zero_add, hone]
  · unfold pwmEntire pwmPrescale pwmDivider preScal
    by_cases h1 : c / 65537 ≤ prescaleMax
    · have h1' : c / 1 / 65537 ≤ prescaleMax := by rwa [hone]
      rw [preScalLoop_found hsmall h1', if_pos h1]
    · have h1' : ¬ c / 1 / 65537 ≤ prescaleMax := by rwa [hone]
      obtain ⟨hskip, hbig⟩ := preScalLoop_skip hsmall h1' 0 0 0
        [(1, 2), (2, 4), (3, 8), (4, 16), (5, 32), (6, 64), (7, 128), (8, 256)]
      rw [hskip, if_neg h1]
      by_cases h2 : c / 2 / 65537 ≤ prescaleMax
      · rw [preScalLoop_found hbig h2, if_pos h2]
      · obtain ⟨hskip2, hbig2⟩ := preScalLoop_skip hbig h2 1 0 (prescaleMax + 1)
          [(2, 4), (3, 8), (4, 16), (5, 32), (6, 64), (7, 128), (8, 256)]
        rw [hskip2, if_neg h2]
        by_cases h4 : c / 4 / 65537 ≤ prescaleMax
        · rw [preScalLoop_found hbig2 h4, if_pos h4]
        · obtain ⟨hskip4, hbig4⟩ := preScalLoop_skip hbig2 h4 2 0 (prescaleMax + 1)
            [(3, 8), (4, 16), (5, 32), (6, 64), (7, 128), (8, 256)]
          rw [hskip4, if_neg h4, preScalLoop_found hbig4 hc]

theorem pwmDoDiv_nearest (hb : 0 < base) (n : Nat) : Nearest (pwmDoDiv n base) n base := by
  have hn : n / base * base + n % base = n := by
    rw [Nat.mul_comm]
    exact Nat.div_add_mod n base
  have hr := Nat.mod_lt n hb
  have hnext : (n / base + 1) * base = n / base * base + base := Nat.succ_mul _ _
  unfold Nearest pwmDoDiv
  split
  · omega
  · omega

theorem pwmDoDiv_zero (base : Nat) : pwmDoDiv 0 base = 0 := by
  rw [pwmDoDiv, Nat.zero_mod, Nat.zero_div, if_neg (Nat.not_lt_zero _)]

theorem pwmDoDiv_le (hd : duty ≤ period) (hp : 0 < period) (e : Nat) :
    pwmDoDiv (e * duty) period ≤ e := by
  obtain ⟨-, hle⟩ := pwmDoDiv_nearest hp (e * duty)
  have hall := Nat.mul_le_mul_left e hd
  apply Nat.le_of_lt_succ
  apply Nat.lt_of_mul_lt_mul_right (a := period)
  rw [Nat.succ_mul]
  omega

/-- The rounded cycles are all of them where what is missing is less than half a cycle. -/
theorem pwmDoDiv_eq_iff (hd : duty ≤ period) (hp : 0 < period) (e : Nat) :
    pwmDoDiv (e * duty) period = e ↔ 2 * (e * (period - duty)) < period := by
  have hsum : e * duty + e * (period - duty) = e * period := by
    rw [← Nat.mul_add, Nat.add_sub_cancel' hd]
  have hn : e * duty / period * period + e * duty % period = e * duty := by
    rw [Nat.mul_comm]
    exact Nat.div_add_mod _ _
  have hr := Nat.mod_lt (e * duty) hp
  unfold pwmDoDiv
  generalize e * duty / period = k at hn
  generalize e * duty % period = r at hn hr
  have hnext : (k + 1) * period = k * period + period := Nat.succ_mul _ _
  constructor
  · intro h
    split at h
    · subst h
      omega
    · subst h
      omega
  · intro h
    have hle : k ≤ e := by
      apply Nat.le_of_mul_le_mul_right _ hp
      omega
    have hlt : e < k + 2 := by
      apply Nat.lt_of_mul_lt_mul_right (a := period)
      have hnext' : (k + 2) * period = k * period + period + period := by
        rw [← hnext]
        exact Nat.succ_mul _ _
      omega
    split
    · next hgt =>
      by_contra hne
      have he : e = k := by omega
      subst he
      omega
    · next hgt =>
      by_contra hne
      have he : e = k + 1 := by omega
      subst he
      omega

def pwmFieldList (channel : Nat) : List Field :=
  [clkSrcField channel, divMField channel, gatingField channel, prescalField channel,
    actCyclesField channel, periodCyclesField channel]

theorem pwmFieldList_apart : ∀ c < pwmNum, (pwmFieldList c).Pairwise fun f g =>
    f.off ≠ g.off ∨ f.shift + f.width ≤ g.shift ∨ g.shift + g.width ≤ f.shift := by decide

theorem pwmFieldList_range : ∀ c < pwmNum, ∀ f ∈ pwmFieldList c, f.shift + f.width ≤ 32 := by decide

theorem pwmFieldList_polarity : ∀ c < pwmNum, ∀ f ∈ pwmFieldList c,
    ¬ f.Has (pwmPcr + 0x20 * c) 8 := by decide

theorem pwmSets_fields (channel : Nat) (config : PwmConfig) :
    (pwmSets channel config).map Prod.fst = pwmFieldList channel := rfl

theorem pwmSets_apart (hc : channel < pwmNum) (config : PwmConfig) :
    AllApart (pwmSets channel config) := by
  have hlist := pwmFieldList_apart channel hc
  rw [← pwmSets_fields channel config, List.pairwise_map] at hlist
  exact hlist.imp Field.apart_of_ranges

theorem pwmSets_mem (hp : p ∈ pwmSets channel config) : p.1 ∈ pwmFieldList channel := by
  rw [← pwmSets_fields channel config]
  exact List.mem_map_of_mem hp

theorem setRegVal_polarity (r : BitVec 32) (polarity : HalPwmPolarity) :
    (setRegVal r 8 1 polarity.val).getLsbD 8 = decide (polarity = .normal) := by
  cases polarity <;> simp [setRegVal, HalPwmPolarity.val]

theorem pwmEnabled_polarity (channel : Nat) (config : PwmConfig) (s : PwmSys) :
    ((pwmEnabled channel config s).regs (pwmPcr + 0x20 * channel)).getLsbD 8 =
      decide (config.polarity = .normal) := by
  unfold pwmEnabled halPwmPorality
  dsimp only
  rw [PwmSys.halWritel_regs, if_pos rfl]
  exact setRegVal_polarity _ _

theorem pwmRequested_bounds (hp : 10 < config.periodNs) :
    1 ≤ pwmRequested config ∧ pwmRequested config ≤ 103079216 := by
  have hp : 10 < config.periodNs.toNat := UInt32.lt_iff_toNat_lt.1 hp
  have hlt := config.periodNs.toNat_lt
  unfold pwmRequested pwmClock pwmDoDiv
  split
  · next h =>
    have h : config.periodNs.toNat ≤ 334 := UInt32.le_iff_toNat_le.1 h
    dsimp only
    split <;> omega
  · next h =>
    have h : ¬ config.periodNs.toNat ≤ 334 := fun hle => h (UInt32.le_iff_toNat_le.2 hle)
    dsimp only
    split <;> omega

/-- The periods for which the prescale goes past its field. -/
def PrescaleSpills (period : Nat) : Prop :=
  699061313 ≤ period ∧ period ≤ 701792020 ∨ 1398122646 ≤ period ∧ period ≤ 1403584062 ∨
    2796245313 ≤ period ∧ period ≤ 2807168145

theorem pwmPrescale_le (hp : 10 < config.periodNs) :
    pwmPrescale (pwmRequested config) ≤ prescaleMax := by
  have hb := (pwmRequested_bounds hp).2
  unfold pwmPrescale prescaleMax
  rcases pwmDivider_cases (pwmRequested config) with ⟨h, hc⟩ | ⟨h, -, hc⟩ | ⟨h, -, hc⟩ | ⟨h, -⟩
  · rwa [h, Nat.div_one]
  · rwa [h]
  · rwa [h]
  · rw [h]
    dsimp only
    omega

theorem pwmPrescale_spills_iff (hp : 10 < config.periodNs) :
    pwmPrescale (pwmRequested config) = 256 ↔ PrescaleSpills config.periodNs.toNat := by
  have hcycles : PrescaleSpills config.periodNs.toNat ↔
      (16777472 ≤ pwmRequested config ∧ pwmRequested config ≤ 16843008) ∨
      (33554944 ≤ pwmRequested config ∧ pwmRequested config ≤ 33686017) ∨
      (67109888 ≤ pwmRequested config ∧ pwmRequested config ≤ 67372035) := by
    unfold PrescaleSpills pwmRequested pwmClock pwmDoDiv
    split
    · next h =>
      have h : config.periodNs.toNat ≤ 334 := UInt32.le_iff_toNat_le.1 h
      dsimp only
      split <;> omega
    · next h =>
      have h : ¬ config.periodNs.toNat ≤ 334 := fun hle => h (UInt32.le_iff_toNat_le.2 hle)
      dsimp only
      split <;> omega
  have hb := (pwmRequested_bounds hp).2
  rw [hcycles, pwmPrescale]
  rcases pwmDivider_cases (pwmRequested config) with ⟨h, hc⟩ | ⟨h, hc⟩ | ⟨h, hc⟩ | ⟨h, hc⟩
  all_goals
    rw [h]
    dsimp only
    omega

/-- What is left of the clock is a whole number of cycles, which the period register can hold less
one. -/
theorem pwmEntire_bounds (hp : 10 < config.periodNs) :
    1 ≤ pwmEntire (pwmRequested config) ∧ pwmEntire (pwmRequested config) ≤ 65536 := by
  obtain ⟨h1, hb⟩ := pwmRequested_bounds hp
  constructor
  · unfold pwmEntire
    apply (Nat.one_le_div_iff (Nat.succ_pos _)).2
    unfold pwmPrescale
    rcases pwmDivider_cases (pwmRequested config) with ⟨h, -⟩ | ⟨h, hc⟩ | ⟨h, hc⟩ | ⟨h, hc⟩
    all_goals
      rw [h]
      dsimp only
      omega
  · exact (cycles_fit _ _).2 (Nat.le_refl _)

/-- What is left of the cycles: the dividers are those that the registers have. -/
def FullCycles (config : PwmConfig) : Prop :=
  let x := pwmRequested config / (pwmDivider (pwmRequested config)).2
  65536 * (x / 65537 + 1) ≤ x

theorem pwmEntire_full_iff (hp : 10 < config.periodNs) :
    pwmEntire (pwmRequested config) = 65536 ↔ FullCycles config := by
  have hle := (pwmEntire_bounds hp).2
  have hdiv : 65536 ≤ pwmEntire (pwmRequested config) ↔ FullCycles config :=
    Nat.le_div_iff_mul_le (Nat.succ_pos _)
  rw [← hdiv]
  omega

theorem pwmSets_eq (hp : 10 < config.periodNs) (channel : Nat) :
    let c := pwmRequested config
    pwmSets channel config = [(clkSrcField channel, (pwmClock config).2),
      (divMField channel, .ofNat 32 (pwmDivider c).1), (gatingField channel, 1),
      (prescalField channel, .ofNat 32 (pwmPrescale c)),
      (actCyclesField channel,
        .ofNat 32 (pwmDoDiv (pwmEntire c * config.dutyNs.toNat) config.periodNs.toNat)),
      (periodCyclesField channel, .ofNat 32 (pwmEntire c - 1))] := by
  have hb := (pwmRequested_bounds hp).2
  have hloop := preScalLoop_eq (c := pwmRequested config) (by unfold prescaleMax; omega)
  have hne : pwmEntire (pwmRequested config) ≠ 0 := Nat.ne_of_gt (pwmEntire_bounds hp).1
  unfold pwmSets
  dsimp only
  rw [hloop]
  dsimp only
  rw [if_neg hne]

/-- The registers read back: the cycles of the period, as the dividers leave them, and the active
ones, rounded; all of them for a full duty, none for no duty. -/
def PwmReadBack (channel : Nat) (config : PwmConfig) (regs : Nat → BitVec 32) : Prop :=
  let entire := pwmRequested config / 2 ^ ((divMField channel).get regs).toNat /
    (((prescalField channel).get regs).toNat + 1)
  let active := ((actCyclesField channel).get regs).toNat
  1 ≤ entire ∧ ((periodCyclesField channel).get regs).toNat = entire - 1 ∧
    Nearest active (entire * config.dutyNs.toNat) config.periodNs.toNat ∧
    (config.dutyNs = config.periodNs → active = entire) ∧ (config.dutyNs = 0 → active = 0)

/-- What the registers `regs` of a call say, where `before` is what they were with the polarity
set. -/
structure PwmProgrammed (channel : Nat) (config : PwmConfig) (before regs : Nat → BitVec 32) :
    Prop where
  sets : regs = setAll (pwmSets channel config) before
  fits : ∀ p ∈ pwmSets channel config, p.2.toNat < 2 ^ p.1.width
  own : ∀ p ∈ pwmSets channel config, ∀ (r : Nat → BitVec 32) (off i : Nat), ¬ p.1.Has off i →
    (p.1.set p.2 r off).getLsbD i = (r off).getLsbD i
  polarity : (regs (pwmPcr + 0x20 * channel)).getLsbD 8 = decide (config.polarity = .normal)
  readBack : PwmReadBack channel config regs

/-- The prescale stays in its field, and so do the active cycles: there are not 65536 cycles with
less than half of one missing. -/
def PwmFits (config : PwmConfig) : Prop :=
  ¬ PrescaleSpills config.periodNs.toNat ∧
    ¬ (FullCycles config ∧
      131072 * (config.periodNs.toNat - config.dutyNs.toNat) < config.periodNs.toNat)

theorem pwmSets_fit_iff (hv : config.dutyNs ≤ config.periodNs) (hp : 10 < config.periodNs)
    (channel : Nat) :
    (∀ p ∈ pwmSets channel config, p.2.toNat < 2 ^ p.1.width) ↔ PwmFits config := by
  have hd : config.dutyNs.toNat ≤ config.periodNs.toNat := UInt32.le_iff_toNat_le.1 hv
  have hp0 : 10 < config.periodNs.toNat := UInt32.lt_iff_toNat_lt.1 hp
  obtain ⟨he1, he⟩ := pwmEntire_bounds hp
  have hpre := pwmPrescale_le hp
  unfold prescaleMax at hpre
  have hact := pwmDoDiv_le hd (by omega) (pwmEntire (pwmRequested config))
  have hfull : pwmDoDiv (pwmEntire (pwmRequested config) * config.dutyNs.toNat)
      config.periodNs.toNat = 65536 ↔ FullCycles config ∧
        131072 * (config.periodNs.toNat - config.dutyNs.toNat) < config.periodNs.toNat := by
    rw [← pwmEntire_full_iff hp]
    constructor
    · intro h
      have h65536 : pwmEntire (pwmRequested config) = 65536 := by omega
      have heq := (pwmDoDiv_eq_iff hd (by omega) (pwmEntire (pwmRequested config))).1
        (h.trans h65536.symm)
      rw [h65536] at heq
      exact ⟨h65536, by omega⟩
    · rintro ⟨h65536, hlt⟩
      have heq := (pwmDoDiv_eq_iff hd (by omega) (pwmEntire (pwmRequested config))).2
        (by rw [h65536]; omega)
      rw [heq, h65536]
  have hdiv := (pwmDivider_pow (pwmRequested config)).2
  have hsrc : (pwmClock config).2.toNat < 2 ^ 2 := by
    unfold pwmClock
    split <;> decide
  rw [PwmFits, ← pwmPrescale_spills_iff hp, ← hfull, pwmSets_eq hp]
  generalize pwmDoDiv (pwmEntire (pwmRequested config) * config.dutyNs.toNat)
    config.periodNs.toNat = active at hact
  generalize pwmEntire (pwmRequested config) = entire at he1 he hact
  generalize pwmPrescale (pwmRequested config) = prescale at hpre
  generalize (pwmDivider (pwmRequested config)).1 = divM at hdiv
  simp only [List.forall_mem_cons, List.not_mem_nil, false_implies, implies_true, and_true,
    BitVec.toNat_ofNat, clkSrcField, divMField, gatingField, prescalField, actCyclesField,
    periodCyclesField]
  constructor
  · rintro ⟨-, -, -, hpre', hact', -⟩
    exact ⟨by omega, by omega⟩
  · rintro ⟨hpre', hact'⟩
    exact ⟨hsrc, by omega, by decide, by omega, by omega, by omega⟩

/-- Where the values fit, the registers read back right. -/
theorem pwmSets_readBack (hv : config.dutyNs ≤ config.periodNs) (hp : 10 < config.periodNs)
    (hc : channel < pwmNum) (hfit : ∀ p ∈ pwmSets channel config, p.2.toNat < 2 ^ p.1.width)
    (before : Nat → BitVec 32) :
    PwmReadBack channel config (setAll (pwmSets channel config) before) := by
  have hf : Fit (pwmSets channel config) := fun p hm =>
    ⟨pwmFieldList_range channel hc p.1 (pwmSets_mem hm), hfit p hm⟩
  have ha := pwmSets_apart hc config
  have hget : ∀ p ∈ pwmSets channel config,
      p.1.get (setAll (pwmSets channel config) before) = p.2 := fun p => get_setAll hf ha before
  have hd : config.dutyNs.toNat ≤ config.periodNs.toNat := UInt32.le_iff_toNat_le.1 hv
  have hp0 : 10 < config.periodNs.toNat := UInt32.lt_iff_toNat_lt.1 hp
  obtain ⟨he1, he⟩ := pwmEntire_bounds hp
  have hpre := pwmPrescale_le hp
  unfold prescaleMax at hpre
  have hact := pwmDoDiv_le hd (by omega) (pwmEntire (pwmRequested config))
  have hpos : 0 < config.periodNs.toNat := by omega
  have hnear := pwmDoDiv_nearest hpos (pwmEntire (pwmRequested config) * config.dutyNs.toNat)
  obtain ⟨hpow, hdiv⟩ := pwmDivider_pow (pwmRequested config)
  have hentire : pwmRequested config / 2 ^ (pwmDivider (pwmRequested config)).1 /
      (pwmPrescale (pwmRequested config) + 1) = pwmEntire (pwmRequested config) := by
    rw [hpow, pwmEntire]
  rw [pwmSets_eq hp] at hget ⊢
  simp only [List.forall_mem_cons, List.not_mem_nil, false_implies, implies_true,
    and_true] at hget
  obtain ⟨-, hdivM, -, hprescal, hactive, hperiod⟩ := hget
  unfold PwmReadBack
  rw [hdivM, hprescal, hactive, hperiod]
  simp only [BitVec.toNat_ofNat]
  rw [Nat.mod_eq_of_lt (by omega), Nat.mod_eq_of_lt (by omega), Nat.mod_eq_of_lt (by omega),
    Nat.mod_eq_of_lt (by omega), hentire]
  refine ⟨he1, rfl, hnear, ?_, ?_⟩
  · intro hfull
    rw [hfull, pwmDoDiv_eq_iff (Nat.le_refl _) (by omega), Nat.sub_self, Nat.mul_zero, Nat.mul_zero]
    omega
  · intro hnone
    rw [hnone]
    exact pwmDoDiv_zero _

/-- For any registers before: every period above 10 ns and every duty in it. -/
theorem pwmControl_programmed_iff (hc : channel < pwmNum) (hv : config.dutyNs ≤ config.periodNs)
    (hp : 10 < config.periodNs) (s : PwmSys) :
    (halPwmControl channel config s).1 = 0 ∧
        PwmProgrammed channel config (pwmEnabled channel config s).regs
          (halPwmControl channel config s).2.regs ↔
      PwmFits config := by
  have hvalid : config.Valid := by
    rintro (hlt | hzero)
    · exact UInt32.not_lt.2 hv hlt
    · rw [hzero] at hp
      exact absurd hp (by decide)
  obtain ⟨hret, hregs⟩ := halPwmControl_sets hvalid hp channel s
  rw [← pwmSets_fit_iff hv hp channel]
  constructor
  · rintro ⟨-, hprog⟩
    exact hprog.fits
  · intro hfit
    have hf : Fit (pwmSets channel config) := fun p hm =>
      ⟨pwmFieldList_range channel hc p.1 (pwmSets_mem hm), hfit p hm⟩
    refine ⟨hret, hregs, hfit, ?_, ?_, ?_⟩
    · intro p hm r off i hi
      rw [Field.set_getLsbD p.1 r (hf p hm).1 (hf p hm).2, if_neg hi]
    · have hbit := setAll_getLsbD hf (pwmEnabled channel config s).regs
        fun p hm => pwmFieldList_polarity channel hc p.1 (pwmSets_mem hm)
      rw [hregs, hbit, pwmEnabled_polarity]
    · rw [hregs]
      exact pwmSets_readBack hv hp hc hfit _

/-- A quarter of a microsecond in one. -/
theorem pwmControl_quarter : (halPwmControl 3 ⟨250, 1000, .normal⟩ resetPwm).1 = 0 ∧
    PwmProgrammed 3 ⟨250, 1000, .normal⟩ (pwmEnabled 3 ⟨250, 1000, .normal⟩ resetPwm).regs
      (halPwmControl 3 ⟨250, 1000, .normal⟩ resetPwm).2.regs := by
  have hfits : PwmFits ⟨250, 1000, .normal⟩ := by
    unfold PwmFits PrescaleSpills FullCycles
    decide
  exact (pwmControl_programmed_iff (by decide) (by decide) (by decide) resetPwm).2 hfits

/-- With 65536 cycles in the period the full duty is read back as no active cycle. -/
theorem pwmControl_full_duty :
    let config : PwmConfig := ⟨2730667, 2730667, .normal⟩
    let regs := (halPwmControl 0 config resetPwm).2.regs
    (actCyclesField 0).get regs = 0 ∧ (periodCyclesField 0).get regs = 65535 ∧
      ¬ PwmProgrammed 0 config (pwmEnabled 0 config resetPwm).regs regs := by
  have hactive : (actCyclesField 0).get
      (halPwmControl 0 ⟨2730667, 2730667, .normal⟩ resetPwm).2.regs = 0 := by decide
  have hperiod : (periodCyclesField 0).get
      (halPwmControl 0 ⟨2730667, 2730667, .normal⟩ resetPwm).2.regs = 65535 := by decide
  refine ⟨hactive, hperiod, fun hprog => ?_⟩
  obtain ⟨hentire, -, -, hfull, -⟩ := hprog.readBack
  have hall := hfull rfl
  rw [hactive] at hall
  exact absurd hentire (by rw [← hall]; decide)

end D1Flash
