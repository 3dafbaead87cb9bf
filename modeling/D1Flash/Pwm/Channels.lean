import D1Flash.Pwm.HalPwm
import Mathlib.Data.List.Induction

namespace D1Flash
open BitField Runs
set_option autoImplicit true

/-- The register fields that make the output of a channel. -/
structure PwmFields where
  clkSrc : BitVec 2
  divM : BitVec 4
  gating : Bool
  prescale : BitVec 8
  polarity : Bool
  activeCycles : BitVec 16
  periodCycles : BitVec 16
  deriving DecidableEq

namespace PwmSys

def fields (s : PwmSys) (channel : Nat) : PwmFields where
  clkSrc := (s.regs (getPccrRegOffset channel)).extractLsb' 7 2
  divM := (s.regs (getPccrRegOffset channel)).extractLsb' 0 4
  gating := (s.regs pwmPcgr).getLsbD channel
  prescale := (s.regs (pwmPcr + 0x20 * channel)).extractLsb' 0 8
  polarity := (s.regs (pwmPcr + 0x20 * channel)).getLsbD 8
  activeCycles := (s.regs (pwmPpr + 0x20 * channel)).extractLsb' 0 16
  periodCycles := (s.regs (pwmPpr + 0x20 * channel)).extractLsb' 16 16

def enabled (s : PwmSys) (channel : Nat) : Bool := (s.regs pwmPer).getLsbD channel

theorem halWritel_regs (s : PwmSys) (v : BitVec 32) (off o : Nat) :
    (s.halWritel v off).regs o = if o = off then v else s.regs o :=
  Function.update_apply _ _ _ _

theorem halWritel_of_ne (s : PwmSys) (v : BitVec 32) (h : o ≠ off) :
    (s.halWritel v off).regs o = s.regs o := by
  rw [halWritel_regs, if_neg h]

theorem setField_of_ne (s : PwmSys) (shift width : Nat) (val : BitVec 32) (h : o ≠ off) :
    (s.setField off shift width val).regs o = s.regs o :=
  s.halWritel_of_ne _ h

theorem setField_bit (s : PwmSys) (off : Nat) (h : d ≠ c) :
    ((s.setField off c 1 1).regs off).getLsbD d = (s.regs off).getLsbD d := by
  rw [setField, halWritel_regs, if_pos rfl]
  rcases Nat.lt_or_gt_of_ne h with hlt | hgt
  · exact setBits_below _ _ (by decide) hlt
  · exact setBits_above _ _ (by decide) (by decide) hgt

theorem readl_low (s : PwmSys) (off : Nat) : (s.readl off).setWidth 32 = s.regs off := by
  rw [readl, BitVec.setWidth_append]
  simp

theorem writel_of_ne (s : PwmSys) (v : BitVec 64) (h : o ≠ off) (h' : o ≠ off + 4) :
    (s.writel v off).regs o = s.regs o := by
  rw [writel, halWritel_of_ne _ _ h', halWritel_of_ne _ _ h]

theorem writel_self (s : PwmSys) (v : BitVec 64) (off : Nat) :
    (s.writel v off).regs off = v.setWidth 32 := by
  rw [writel, halWritel_of_ne _ _ (by omega), halWritel_regs, if_pos rfl]

end PwmSys

/-- The registers a configuration of the channel writes, after it is enabled. -/
def pwmChannelRegs (channel : Nat) : List Nat :=
  [getPccrRegOffset channel, pwmPcgr, pwmPcr + 0x20 * channel, pwmPpr + 0x20 * channel]

theorem pwmPer_apart : ∀ c < pwmNum, pwmPer ∉ pwmChannelRegs c ∧ pwmPer + 4 ∉ pwmChannelRegs c := by
  decide

theorem pwmChannelRegs_own : ∀ c < pwmNum,
    ∀ off ∈ [getPccrRegOffset c, pwmPcr + 0x20 * c, pwmPpr + 0x20 * c],
      off ∈ pwmChannelRegs c ∧ off ≠ pwmPcgr := by
  decide

theorem pwmChannelRegs_apart : ∀ c < pwmNum, ∀ d < pwmNum, d ≠ c →
    pwmPcr + 0x20 * d ∉ pwmChannelRegs c ∧ pwmPpr + 0x20 * d ∉ pwmChannelRegs c := by
  decide

/-- The two channels of a pair share the clock configuration register, others do not. -/
theorem pwmPccr_apart : ∀ c < pwmNum, ∀ d < pwmNum, d / 2 ≠ c / 2 →
    getPccrRegOffset d ∉ pwmChannelRegs c := by
  decide

namespace PwmSys

/-- Two states alike but for the registers of a channel and its bit of the gating register. -/
structure Spares (channel : Nat) (s s' : PwmSys) : Prop where
  regs : ∀ off, off ∉ pwmChannelRegs channel → s'.regs off = s.regs off
  gating : ∀ d, d ≠ channel → (s'.regs pwmPcgr).getLsbD d = (s.regs pwmPcgr).getLsbD d

theorem Spares.trans {s₁ s₂ s₃ : PwmSys} (h : Spares c s₁ s₂) (h' : Spares c s₂ s₃) :
    Spares c s₁ s₃ where
  regs off hoff := (h'.regs off hoff).trans (h.regs off hoff)
  gating d hd := (h'.gating d hd).trans (h.gating d hd)

theorem spares_halWritel (s : PwmSys) (v : BitVec 32) (hc : c < pwmNum)
    (h : off ∈ [getPccrRegOffset c, pwmPcr + 0x20 * c, pwmPpr + 0x20 * c]) :
    Spares c s (s.halWritel v off) where
  regs o ho := by
    apply halWritel_of_ne
    rintro rfl
    exact ho (pwmChannelRegs_own c hc _ h).1
  gating d _ := by rw [halWritel_of_ne _ _ (pwmChannelRegs_own c hc _ h).2.symm]

theorem spares_setGating (s : PwmSys) (c : Nat) : Spares c s (s.setField pwmPcgr c 1 1) where
  regs o ho := by
    apply setField_of_ne
    rintro rfl
    exact ho (List.mem_cons_of_mem _ List.mem_cons_self)
  gating _ hd := setField_bit _ _ hd

/-- A channel no register of which is touched keeps its fields; one that shares the clock
configuration register keeps all but the clock source and the divider. -/
theorem Spares.fields {s s' : PwmSys} (h : Spares c s s') (hc : c < pwmNum) (hd : d < pwmNum)
    (hne : d ≠ c) :
    s'.fields d =
      { s.fields d with clkSrc := (s'.fields d).clkSrc, divM := (s'.fields d).divM } ∧
    (d / 2 ≠ c / 2 → s'.fields d = s.fields d) := by
  have hpcr := h.regs _ (pwmChannelRegs_apart c hc d hd hne).1
  have hppr := h.regs _ (pwmChannelRegs_apart c hc d hd hne).2
  have hgate := h.gating d hne
  constructor
  · simp only [PwmSys.fields, hpcr, hppr, hgate]
  · intro hpair
    have hpccr := h.regs _ (pwmPccr_apart c hc d hd hpair)
    simp only [PwmSys.fields, hpcr, hppr, hgate, hpccr]

theorem Spares.enabled {s s' : PwmSys} (h : Spares c s s') (hc : c < pwmNum) :
    s'.enabled = s.enabled := by
  funext d
  rw [PwmSys.enabled, PwmSys.enabled, h.regs _ (pwmPer_apart c hc).1]

/-- The enable register is none of those that make the output. -/
theorem fields_writel_per (s : PwmSys) (v : BitVec 64) (hd : d < pwmNum) :
    (s.writel v pwmPer).fields d = s.fields d := by
  have hregs : ∀ off ∈ pwmChannelRegs d, (s.writel v pwmPer).regs off = s.regs off := by
    intro off hoff
    apply writel_of_ne
    · rintro rfl
      exact (pwmPer_apart d hd).1 hoff
    · rintro rfl
      exact (pwmPer_apart d hd).2 hoff
  simp only [pwmChannelRegs, List.forall_mem_cons] at hregs
  obtain ⟨hpccr, hpcgr, hpcr, hppr, -⟩ := hregs
  simp only [fields, hpccr, hpcgr, hpcr, hppr]

end PwmSys

theorem halPwmEnableController_enabled (s : PwmSys) (c : Nat) (hd : d < pwmNum) :
    (halPwmEnableController c s).enabled d = (s.enabled d || decide (d = c)) := by
  have hlt : d < 32 := Nat.lt_trans hd (by decide)
  rw [halPwmEnableController, PwmSys.enabled, PwmSys.writel_self, PwmSys.readl_low, PwmSys.enabled,
    BitVec.setWidth_setWidth_of_le _ (by decide), BitVec.setWidth_eq, BitVec.getLsbD_or,
    one_shiftLeft_getLsbD c hlt]

theorem halPwmDisableController_enabled (s : PwmSys) (hd : d < pwmNum) (h : d ≠ c) :
    (halPwmDisableController c s).enabled d = s.enabled d := by
  have hlt : d < 32 := Nat.lt_trans hd (by decide)
  rw [halPwmDisableController, PwmSys.enabled, PwmSys.writel_self, BitVec.setWidth_or,
    PwmSys.readl_low, BitVec.getLsbD_or, BitVec.getLsbD_setWidth, BitVec.getLsbD_signExtend,
    PwmSys.enabled]
  have hbit := one_shiftLeft_getLsbD c hlt
  rw [decide_eq_false h] at hbit
  rw [if_pos hlt, hbit, Bool.and_false, Bool.and_false, Bool.or_false]

theorem halPwmCycles_spares (s : PwmSys) (hc : c < pwmNum) (config : PwmConfig) (freq : Nat) :
    PwmSys.Spares c s (halPwmCycles c config freq s) := by
  rw [halPwmCycles]
  rcases preScalLoop _ preScal _ 0 0 with ⟨entireCycles, divM, prescale⟩
  dsimp only
  apply PwmSys.Spares.trans _ (PwmSys.spares_halWritel _ _ hc (by simp))
  apply PwmSys.Spares.trans _ (PwmSys.spares_halWritel _ _ hc (by simp))
  apply PwmSys.Spares.trans _ (PwmSys.spares_halWritel _ _ hc (by simp))
  apply PwmSys.Spares.trans _ (PwmSys.spares_setGating _ c)
  exact PwmSys.spares_halWritel _ _ hc (by simp)

theorem halPwmControl_spares (s : PwmSys) (hc : c < pwmNum) (hv : config.Valid) :
    PwmSys.Spares c
      (halPwmEnableController c { s with pinmux := s.pinmux ++ [pwmGpio.getD c (0, 0)] })
      (halPwmControl c config s).2 := by
  have hpol : ∀ s : PwmSys, PwmSys.Spares c s (halPwmPorality c config.polarity s) :=
    fun s => PwmSys.spares_halWritel _ _ hc (by simp)
  have hclk : ∀ (s : PwmSys) val, PwmSys.Spares c s (s.setField (getPccrRegOffset c) 7 2 val) :=
    fun s val => PwmSys.spares_halWritel _ _ hc (by simp)
  rw [halPwmControl, if_neg (not_not.2 hv)]
  dsimp only
  apply PwmSys.Spares.trans (hpol _)
  split
  · exact (PwmSys.spares_setGating _ c).trans (hclk _ _)
  · split
    · exact (hclk _ _).trans (halPwmCycles_spares _ hc _ _)
    · exact (hclk _ _).trans (halPwmCycles_spares _ hc _ _)

def mostRecent (c : Nat) (ops : List PwmOp) : Option PwmOp :=
  (ops.filter fun op => op.channel = c).getLast?

/-- What the last call on a channel leaves in the enable register: a call other than
`hal_pwm_disable_controller` the bit set, none the bit that was there. -/
def PwmSys.Tracks (s s' : PwmSys) (ops : List PwmOp) : Prop :=
  ∀ c < pwmNum,
    match mostRecent c ops with
    | none => s'.enabled c = s.enabled c
    | some (.control _ _) => s'.enabled c = true
    | some (.enable _) => s'.enabled c = true
    | some (.disable _) => True

/-- A call leaves the fields of the other channels, save that a configuration gives the channel
of its pair its own clock source and divider. -/
def PwmSys.LeavesOthers (s : PwmSys) (op : PwmOp) : Prop :=
  let s' := (pwmStep s op).2
  ∀ d < pwmNum, d ≠ op.channel →
    match op with
    | .control c _ =>
      s'.fields d =
        { s.fields d with clkSrc := (s'.fields d).clkSrc, divM := (s'.fields d).divM } ∧
      (d / 2 ≠ c / 2 → s'.fields d = s.fields d)
    | _ => s'.fields d = s.fields d

theorem pwmStep_leavesOthers (s : PwmSys) (hv : op.Valid) : s.LeavesOthers op := by
  cases op with
  | control n config =>
    intro d hd hne
    have hf := (halPwmControl_spares s hv.1 hv.2).fields hv.1 hd hne
    rwa [halPwmEnableController, PwmSys.fields_writel_per _ _ hd] at hf
  | enable n => exact fun d hd _ => PwmSys.fields_writel_per s _ hd
  | disable n => exact fun d hd _ => PwmSys.fields_writel_per s _ hd

/-- Every call but a disable of the channel sets the bit of its own channel only. -/
theorem pwmStep_enabled (s : PwmSys) (hv : op.Valid) (hc : c < pwmNum) (h : op ≠ .disable c) :
    (pwmStep s op).2.enabled c = (s.enabled c || decide (c = op.channel)) := by
  cases op with
  | control n config =>
    rw [pwmStep, (halPwmControl_spares s hv.1 hv.2).enabled hv.1,
      halPwmEnableController_enabled _ n hc]
    rfl
  | enable n => exact halPwmEnableController_enabled s n hc
  | disable n =>
    have hne : c ≠ n := fun heq => h (congrArg PwmOp.disable heq.symm)
    rw [PwmOp.channel, decide_eq_false hne, Bool.or_false]
    exact halPwmDisableController_enabled s hc hne

theorem mostRecent_append (c : Nat) (ops : List PwmOp) (op : PwmOp) :
    mostRecent c (ops ++ [op]) = if op.channel = c then some op else mostRecent c ops := by
  rw [mostRecent, List.filter_append, List.filter_cons, List.filter_nil]
  by_cases h : op.channel = c
  · rw [if_pos h, decide_eq_true h]
    exact List.getLast?_concat
  · rw [if_neg h, decide_eq_false h]
    exact congrArg List.getLast? (List.append_nil _)

/-- A channel is enabled by its last call, unless that disables it, and a call leaves alone what
the registers hold for the other channels, up to the clock a pair shares. -/
theorem halPwm_channels (s : PwmSys) (hv : ∀ op ∈ ops, op.Valid) :
    s.Tracks (run pwmStep s ops).2 ops ∧ Along pwmStep PwmSys.LeavesOthers s ops := by
  constructor
  · induction ops using List.reverseRecOn with
    | nil => exact fun c _ => rfl
    | append_singleton ops op ih =>
      intro c hc
      have ih := ih (fun op hop => hv op (List.mem_append_left _ hop)) c hc
      have hop : op.Valid := hv op (List.mem_append_right _ List.mem_cons_self)
      have hbit := pwmStep_enabled (run pwmStep s ops).2 hop hc
      rw [mostRecent_append, run_append]
      by_cases h : op.channel = c
      · rw [if_pos h, decide_eq_true h.symm, Bool.or_true] at *
        cases op with
        | control n config => exact hbit nofun
        | enable n => exact hbit nofun
        | disable n => trivial
      · rw [if_neg h]
        have hbit := hbit (fun heq => h (by rw [heq]; rfl))
        rw [decide_eq_false (Ne.symm h), Bool.or_false] at hbit
        rw [show (run pwmStep (run pwmStep s ops).2 [op]).2 = (pwmStep _ op).2 from rfl, hbit]
        exact ih
  · exact along_of_forall fun op hop s => pwmStep_leavesOthers s (hv op hop)

def resetPwm : PwmSys := ⟨fun _ => 0, []⟩

/-- A period of 1 ms, half of it active. -/
def halfMs : PwmConfig := ⟨500000, 1000000, .normal⟩

theorem halPwm_channels_halfMs :
    let ops : List PwmOp := [.control 0 halfMs, .enable 3, .control 1 ⟨50, 200, .inversed⟩]
    resetPwm.Tracks (run pwmStep resetPwm ops).2 ops ∧
      Along pwmStep PwmSys.LeavesOthers resetPwm ops :=
  halPwm_channels resetPwm (by simp [PwmOp.Valid, halfMs, PwmConfig.Valid, pwmNum])

/-- The last call on the channel is a configuration or an enable. -/
def switchedOn (c : Nat) (ops : List PwmOp) : Bool :=
  match mostRecent c ops with
  | some (.control _ _) => true
  | some (.enable _) => true
  | _ => false

/-- A disabled channel has its bit set, and a configuration changes the clock of its pair. -/
theorem halPwm_channels_shared :
    (¬ ∀ ops, (∀ op ∈ ops, PwmOp.Valid op) →
      ∀ c < pwmNum, (run pwmStep resetPwm ops).2.enabled c = switchedOn c ops) ∧
    ¬ ∀ ops, (∀ op ∈ ops, PwmOp.Valid op) → Along pwmStep (fun s op =>
      ∀ d < pwmNum, d ≠ op.channel → (pwmStep s op).2.fields d = s.fields d) resetPwm ops := by
  constructor
  · intro h
    have h := h [.disable 0] (by simp [PwmOp.Valid]) 0 (by decide)
    revert h
    decide
  · intro h
    have h := (h [.control 0 ⟨50, 200, .normal⟩] (by simp [PwmOp.Valid, PwmConfig.Valid])).1 1
      (by decide) (by decide)
    have hclk := congrArg PwmFields.clkSrc h
    revert hclk
    decide +kernel

end D1Flash
