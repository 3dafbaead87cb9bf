import D1Flash.Lib.BitField
import D1Flash.Lib.Runs
import Mathlib.Logic.Function.Basic

namespace D1Flash
open BitField Runs
set_option autoImplicit true

abbrev pwmPccr01 : Nat := 0x20
abbrev pwmPccr23 : Nat := 0x24
abbrev pwmPccr45 : Nat := 0x28
abbrev pwmPccr67 : Nat := 0x2C
abbrev pwmPcgr : Nat := 0x40
abbrev pwmPer : Nat := 0x80
abbrev pwmPcr : Nat := 0x100
abbrev pwmPpr : Nat := 0x104

abbrev pwmNum : Nat := 8
abbrev prescaleMax : Nat := 256

/-- The pin and the function of each channel. -/
def pwmGpio : List (Nat × Nat) :=
  [(112, 5), (98, 3), (114, 5), (100, 3), (101, 3), (102, 3), (103, 3), (118, 5)]

inductive HalPwmPolarity
  | inversed
  | normal
  deriving DecidableEq

def HalPwmPolarity.val : HalPwmPolarity → BitVec 32
  | .inversed => 0
  | .normal => 1

structure PwmConfig where
  dutyNs : UInt32
  periodNs : UInt32
  polarity : HalPwmPolarity
  deriving DecidableEq

/-- The controller: its words by their offset, and the calls of `hal_gpio_pinmux_set_function`. -/
structure PwmSys where
  regs : Nat → BitVec 32
  pinmux : List (Nat × Nat)

namespace PwmSys

def halReadl (s : PwmSys) (off : Nat) : BitVec 32 := s.regs off

def halWritel (s : PwmSys) (v : BitVec 32) (off : Nat) : PwmSys :=
  { s with regs := Function.update s.regs off v }

/-- The driver's own `readl` and `writel` are of an `unsigned long`: two words. -/
def readl (s : PwmSys) (off : Nat) : BitVec 64 := s.regs (off + 4) ++ s.regs off

def writel (s : PwmSys) (v : BitVec 64) (off : Nat) : PwmSys :=
  (s.halWritel (v.setWidth 32) off).halWritel ((v >>> 32).setWidth 32) (off + 4)

/-- The read, `SET_BITS` and write back that set one field. -/
def setField (s : PwmSys) (off shift width : Nat) (val : BitVec 32) : PwmSys :=
  s.halWritel (setBits shift width (s.halReadl off) val) off

end PwmSys

/-- `SET_REG_VAL`. Its mask is made of the 64-bit `-1UL`, so every bit over the field goes too. -/
def setRegVal (regVal : BitVec 32) (shift width : Nat) (setVal : BitVec 32) : BitVec 32 :=
  let mask := (BitVec.allOnes 64 >>> (32 - width)) <<< shift
  ((regVal.setWidth 64 &&& ~~~mask) ||| (setVal <<< shift).setWidth 64).setWidth 32

def getPccrRegOffset (channel : Nat) : Nat :=
  match channel with
  | 0 | 1 => pwmPccr01
  | 2 | 3 => pwmPccr23
  | 4 | 5 => pwmPccr45
  | 6 | 7 => pwmPccr67
  | _ => pwmPccr01

def halPwmEnableController (channelIn : Nat) (s : PwmSys) : PwmSys :=
  let regVal : BitVec 32 := (s.readl pwmPer).setWidth 32 ||| 1#32 <<< channelIn
  s.writel (regVal.setWidth 64) pwmPer

def halPwmDisableController (channelIn : Nat) (s : PwmSys) : PwmSys :=
  let regVal := s.readl pwmPer ||| (1#32 <<< channelIn).signExtend 64
  s.writel regVal pwmPer

def halPwmPorality (channelIn : Nat) (polarity : HalPwmPolarity) (s : PwmSys) : PwmSys :=
  let off := pwmPcr + 0x20 * channelIn
  s.halWritel (setRegVal (s.halReadl off) 8 1 polarity.val) off

/-- `pwm_do_div`: a division that rounds. -/
def pwmDoDiv (n base : Nat) : Nat :=
  if n % base > base / 2 then n / base + 1 else n / base

/-- `pre_scal`: the register value and the divider of the clock. -/
def preScal : List (Nat × Nat) :=
  [(0, 1), (1, 2), (2, 4), (3, 8), (4, 16), (5, 32), (6, 64), (7, 128), (8, 256)]

/-- The loop over `prescale`, for what is left of `PRESCALE_MAX + 1` turns. It gives the cycles,
the prescale it stops at, and whether the cycles fit. -/
def prescaleLoop (c clkPreDiv : Nat) : Nat → Nat → Nat → Nat × Nat × Bool
  | 0, prescale, entireCycles => (entireCycles, prescale, false)
  | turns + 1, prescale, _ =>
    let entireCycles := c / clkPreDiv / (prescale + 1)
    if entireCycles ≤ 65536 then (entireCycles, prescale, true)
    else prescaleLoop c clkPreDiv turns (prescale + 1) entireCycles

/-- The loop over `pre_scal`: the cycles, `div_m` and the prescale. -/
def preScalLoop (c : Nat) : List (Nat × Nat) → Nat → Nat → Nat → Nat × Nat × Nat
  | [], entireCycles, divM, prescale => (entireCycles, divM, prescale)
  | (regVal, clkPreDiv) :: rest, entireCycles, divM, prescale =>
    if entireCycles ≤ 65536 then (entireCycles, divM, prescale)
    else
      let (entireCycles, prescale, fits) :=
        prescaleLoop c clkPreDiv (prescaleMax + 1) 0 entireCycles
      preScalLoop c rest entireCycles (if fits then regVal else divM) prescale

def PwmConfig.Valid (config : PwmConfig) : Prop :=
  ¬ (config.periodNs < config.dutyNs ∨ config.periodNs = 0)

instance (config : PwmConfig) : Decidable config.Valid :=
  inferInstanceAs (Decidable (¬ _))

/-- The part of `hal_pwm_control` after the clock source is set, for a clock of `freq` Hz. -/
def halPwmCycles (channel : Nat) (config : PwmConfig) (freq : Nat) (s : PwmSys) : PwmSys :=
  let c := pwmDoDiv (freq * config.periodNs.toNat) 1000000000
  let (entireCycles, divM, prescale) := preScalLoop c preScal c 0 0
  let activeCycles := pwmDoDiv (entireCycles * config.dutyNs.toNat) config.periodNs.toNat
  let entireCycles := if entireCycles = 0 then entireCycles + 1 else entireCycles
  let s := s.setField (getPccrRegOffset channel) 0 4 (BitVec.ofNat 32 divM)
  let s := s.setField pwmPcgr channel 1 1
  let s := s.setField (pwmPcr + 0x20 * channel) 0 8 (BitVec.ofNat 32 prescale)
  let s := s.setField (pwmPpr + 0x20 * channel) 0 16 (BitVec.ofNat 32 activeCycles)
  s.setField (pwmPpr + 0x20 * channel) 16 16 (BitVec.ofNat 32 (entireCycles - 1))

def halPwmControl (channel : Nat) (config : PwmConfig) (s : PwmSys) : BitVec 64 × PwmSys :=
  if ¬ config.Valid then (-1, s)
  else
    let s := { s with pinmux := s.pinmux ++ [pwmGpio.getD channel (0, 0)] }
    let s := halPwmEnableController channel s
    let s := halPwmPorality channel config.polarity s
    let regOffset := getPccrRegOffset channel
    if config.periodNs ≤ 10 then
      -- the 100 MHz clock is put out directly, by the bypass
      let s := s.setField pwmPcgr channel 1 1
      (0, s.setField regOffset 7 2 1)
    else if config.periodNs ≤ 334 then
      (0, halPwmCycles channel config 100000000 (s.setField regOffset 7 2 1))
    else
      (0, halPwmCycles channel config 24000000 (s.setField regOffset 7 2 0))

inductive PwmOp
  | control (channel : Nat) (config : PwmConfig)
  | enable (channel : Nat)
  | disable (channel : Nat)
  deriving DecidableEq

def PwmOp.channel : PwmOp → Nat
  | .control channel _ => channel
  | .enable channel => channel
  | .disable channel => channel

/-- The channel exists and the configuration is one `hal_pwm_control` accepts. -/
def PwmOp.Valid : PwmOp → Prop
  | .control channel config => channel < pwmNum ∧ config.Valid
  | .enable channel => channel < pwmNum
  | .disable channel => channel < pwmNum

def pwmStep (s : PwmSys) : PwmOp → BitVec 64 × PwmSys
  | .control channel config => halPwmControl channel config s
  | .enable channel => (0, halPwmEnableController channel s)
  | .disable channel => (0, halPwmDisableController channel s)

end D1Flash
