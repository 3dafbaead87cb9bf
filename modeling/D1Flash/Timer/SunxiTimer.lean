import D1Flash.Lib.Runs
import Mathlib.Algebra.Group.Nat.Defs
import Mathlib.Logic.Function.Basic

namespace D1Flash
open Runs
set_option autoImplicit true

abbrev timerIrqEnReg : Nat := 0x00
abbrev timerIrqStReg : Nat := 0x04

def timerCtlReg (timer : Nat) : Nat := 0x10 * timer + 0x10

def timerIntvalReg (timer : Nat) : Nat := 0x10 * timer + 0x14

abbrev timerCtlEnable : BitVec 32 := 1#32 <<< 0
abbrev timerCtlReload : BitVec 32 := 1#32 <<< 1
abbrev timerCtlClkSrcOsc24m : BitVec 32 := 1
abbrev timerCtlOneshot : BitVec 32 := 1#32 <<< 7

def timerCtlClkSrc (val : BitVec 32) : BitVec 32 := (val &&& 0x3) <<< 2

def timerCtlClkPres (val : BitVec 32) : BitVec 32 := (val &&& 0x7) <<< 4

abbrev timerSyncTicks : UInt32 := 3

/-- The line of a timer on the RISC-V core, where the controller's lines start at 16. -/
def sunxiIrqTmr (id : Nat) : Nat := 16 + 59 + id

/-- `struct sunxi_timer`; a callback is the address of its function, 0 is NULL. -/
structure SunxiTimer where
  timerId : Nat
  clkRate : UInt32
  irq : Nat
  minDeltaTicks : UInt32
  maxDeltaTicks : UInt32
  callback : Nat
  param : Nat
  deriving DecidableEq

/-- The words of the timer block by their offset, `g_timer`, the lines that are requested and
enabled, and the calls of callbacks with what they are given. -/
structure TimerSys where
  regs : Nat → BitVec 32
  gTimer : Nat → SunxiTimer
  irqOn : Nat → Bool
  calls : List (Nat × Nat)

namespace TimerSys

def halReadl (s : TimerSys) (off : Nat) : BitVec 32 := s.regs off

def halWritel (s : TimerSys) (v : BitVec 32) (off : Nat) : TimerSys :=
  { s with regs := Function.update s.regs off v }

def setTimer (s : TimerSys) (id : Nat) (timer : SunxiTimer) : TimerSys :=
  { s with gTimer := Function.update s.gTimer id timer }

def interval (s : TimerSys) (timer : Nat) : Nat := (s.regs (timerIntvalReg timer)).toNat

end TimerSys

/-- `sunxi_timer_irq_handle` for the entry of `g_timer` it is registered with. -/
def sunxiTimerIrqHandle (id : Nat) (s : TimerSys) : TimerSys :=
  let timer := s.gTimer id
  let s := s.halWritel (1#32 <<< timer.timerId) timerIrqStReg
  if timer.callback ≠ 0 then { s with calls := s.calls ++ [(timer.callback, timer.param)] } else s

/-- The `sunxi_timer_sync` at the end reads the counter at most twice, leaves its loop in the first
turn and writes nothing. -/
def sunxiTimerStop (timer : Nat) (s : TimerSys) : TimerSys :=
  let val := s.halReadl (timerCtlReg timer)
  s.halWritel (val &&& ~~~timerCtlEnable) (timerCtlReg timer)

def sunxiTimerStart (timer : Nat) (periodic : Bool) (s : TimerSys) : TimerSys :=
  let val := s.halReadl (timerCtlReg timer)
  let val := if periodic then val &&& ~~~timerCtlOneshot else val ||| timerCtlOneshot
  let val := val ||| timerCtlClkPres 0
  let val := val &&& ~~~timerCtlClkSrc 0x3
  let val := val ||| timerCtlClkSrc timerCtlClkSrcOsc24m
  s.halWritel (val ||| timerCtlEnable ||| timerCtlReload) (timerCtlReg timer)

def sunxiTimerSetup (tick : UInt32) (timer : Nat) (s : TimerSys) : TimerSys :=
  s.halWritel tick.toBitVec (timerIntvalReg timer)

/-- The body `sunxi_timer_set_oneshot` and `sunxi_timer_set_periodic` share. -/
def sunxiTimerSet (periodic : Bool) (delayUs : UInt32) (timer callback callbackParam : Nat)
    (s : TimerSys) : Int × TimerSys :=
  let tick := delayUs * 25
  if tick < (s.gTimer timer).minDeltaTicks ∨ tick > (s.gTimer timer).maxDeltaTicks then (-1, s)
  else
    let s := if callback ≠ 0 then
      s.setTimer timer { s.gTimer timer with callback, param := callbackParam } else s
    let s := sunxiTimerStop timer s
    let s := sunxiTimerSetup tick timer s
    (0, sunxiTimerStart timer periodic s)

def sunxiTimerSetOneshot : UInt32 → Nat → Nat → Nat → TimerSys → Int × TimerSys :=
  sunxiTimerSet false

def sunxiTimerSetPeriodic : UInt32 → Nat → Nat → Nat → TimerSys → Int × TimerSys :=
  sunxiTimerSet true

/-- `sunxi_timer_init`, where `granted` is whether `request_irq` gives the line. -/
def sunxiTimerInit (id : Nat) (granted : Bool) (s : TimerSys) : TimerSys :=
  let val := s.halReadl (timerCtlReg id)
  let s := s.halWritel (val &&& ~~~timerCtlEnable) (timerCtlReg id)
  let s := s.halWritel (1#32 <<< id) timerIrqStReg
  let s := s.setTimer id
    { timerId := id, clkRate := 24000000, irq := sunxiIrqTmr id, minDeltaTicks := timerSyncTicks
      maxDeltaTicks := 0xffffffff, callback := 0, param := 0 }
  if granted then
    let val := s.halReadl timerIrqEnReg
    let s := s.halWritel (val ||| 1#32 <<< id) timerIrqEnReg
    { s with irqOn := Function.update s.irqOn (s.gTimer id).irq true }
  else s

/-- `sunxi_timer_uninit`: the line is disabled and freed. -/
def sunxiTimerUninit (id : Nat) (s : TimerSys) : TimerSys :=
  { s with irqOn := Function.update s.irqOn (s.gTimer id).irq false }

inductive TimerOp
  | init (id : Nat) (granted : Bool)
  | uninit (id : Nat)
  | setOneshot (delayUs : UInt32) (timer callback callbackParam : Nat)
  | setPeriodic (delayUs : UInt32) (timer callback callbackParam : Nat)
  | start (timer : Nat) (periodic : Bool)
  | stop (timer : Nat)
  | irq (id : Nat)

/-- A call with the number it returns, 0 for a `void` one. -/
def timerStep (s : TimerSys) : TimerOp → Int × TimerSys
  | .init id granted => (0, sunxiTimerInit id granted s)
  | .uninit id => (0, sunxiTimerUninit id s)
  | .setOneshot delayUs timer callback param => sunxiTimerSetOneshot delayUs timer callback param s
  | .setPeriodic delayUs timer callback param =>
      sunxiTimerSetPeriodic delayUs timer callback param s
  | .start timer periodic => (0, sunxiTimerStart timer periodic s)
  | .stop timer => (0, sunxiTimerStop timer s)
  | .irq id => (0, sunxiTimerIrqHandle id s)

end D1Flash
