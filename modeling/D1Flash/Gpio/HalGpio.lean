import D1Flash.Lib.BitField
import Mathlib.Data.List.FinRange
import Mathlib.Logic.Function.Basic

namespace D1Flash
open BitField
set_option autoImplicit true

abbrev gpioIrqStart : Nat := 141
abbrev irqPerBank : Nat := 32
abbrev irqMemSize : Nat := 0x20
abbrev irqCfgReg : Nat := 0x200
abbrev irqCtrlReg : Nat := 0x210
abbrev irqStatusReg : Nat := 0x214
abbrev bankMemSize : Nat := 0x30
abbrev bankBoundary : Nat := 352
abbrev gpioMuxselEint : Nat := 14

abbrev irqBanks : Nat := 6
abbrev irqDescSize : Nat := irqBanks * irqPerBank

/-- `sun8iw20p1_irq_bank_base`: banks B to G are one after their index. -/
def irqBankBase (_bank : Nat) : Nat := 1

/-- `sun8iw20p1_bank_irq_num`. -/
def bankIrqNum (bank : Nat) : Nat := 85 + 2 * bank

/-- A handler: `bad_gpio_irq_handle`, which a free entry has, or the address of a requested one. -/
inductive GpioHandler
  | bad
  | fn (addr : Nat)
  deriving DecidableEq

structure GpioIrqDesc where
  virq : Nat
  pin : Nat
  flags : Nat
  handleIrq : GpioHandler
  data : Nat
  deriving DecidableEq

/-- The platform's one `gpio_desc`: its words by their offset and its table. `aw_hal_gpio_init`
numbers the table, and nothing changes the numbers after it. -/
structure GpioSys where
  regs : Nat → BitVec 32
  irqDesc : Nat → GpioIrqDesc
  wired : ∀ i < irqDescSize, (irqDesc i).pin = irqPerBank + i ∧ (irqDesc i).virq = gpioIrqStart + i

def gpioIrqCtrlRegFromBank (bank bankBase : Nat) :
    Nat := irqCtrlReg + (bankBase + bank) * irqMemSize

def gpioIrqStatusRegFromBank (bank bankBase : Nat) : Nat :=
  irqStatusReg + (bankBase + bank) * irqMemSize

def gpioIrqCfgReg (irq bankBase : Nat) : Nat :=
  irqCfgReg + (bankBase + irq / irqPerBank) * irqMemSize + irq % irqPerBank / 8 * 4

def gpioMuxReg (pin : Nat) : Nat :=
  let pin := pin % bankBoundary
  pin / 32 * bankMemSize + pin % 32 / 8 * 4

namespace GpioSys

/-- The word is a status register, where a 1 clears. -/
def IsStatus (off : Nat) : Prop :=
  ∃ bank < irqBanks, off = gpioIrqStatusRegFromBank bank (irqBankBase bank)

instance (off : Nat) : Decidable (IsStatus off) :=
  inferInstanceAs (Decidable (∃ bank, bank < irqBanks ∧ _))

def halReadl (s : GpioSys) (off : Nat) : BitVec 32 := s.regs off

def halWritel (s : GpioSys) (v : BitVec 32) (off : Nat) : GpioSys :=
  { s with
    regs := Function.update s.regs off (if IsStatus off then s.regs off &&& ~~~v else v) }

/-- An update of what an entry of the table is requested for. -/
def setHandler (s : GpioSys) (i : Nat) (handleIrq : GpioHandler) (flags data : Nat) : GpioSys where
  regs := s.regs
  irqDesc := Function.update s.irqDesc i { s.irqDesc i with handleIrq, flags, data }
  wired j hj := by
    have h := s.wired j hj
    by_cases heq : j = i
    · subst heq
      rw [Function.update_self]
      exact h
    · rw [Function.update_of_ne heq]
      exact h

/-- `virq_to_gpio_desc` finds the platform's `gpio_desc`; else it gives NULL. -/
def hasVirq (s : GpioSys) (irq : Nat) : Bool :=
  (List.range irqDescSize).any fun j => (s.irqDesc j).virq = irq

def gpioIrqAck (i : Nat) (s : GpioSys) : GpioSys :=
  let hwIrq := (s.irqDesc i).virq - gpioIrqStart
  let bank := hwIrq / irqPerBank
  s.halWritel (1#32 <<< (hwIrq % irqPerBank)) (gpioIrqStatusRegFromBank bank (irqBankBase bank))

/-- `IRQ_TYPE_EDGE_RISING` and so on, as the configuration register has them. -/
def irqMode (type : Nat) : BitVec 32 :=
  match type with
  | 1 => 0
  | 2 => 1
  | 3 => 4
  | 4 => 2
  | 8 => 3
  | _ => 0

def gpioIrqSetType (irqNum type : Nat) (s : GpioSys) : GpioSys :=
  let hwIrq := (s.irqDesc irqNum).virq - gpioIrqStart
  let reg := gpioIrqCfgReg hwIrq (irqBankBase (hwIrq / irqPerBank))
  s.halWritel (setBits (hwIrq % 8 * 4) 4 (s.halReadl reg) (irqMode type)) reg

/-- `hal_gpio_pinmux_set_function`; a pin over the boundary has no `gpio_desc` here. -/
def halGpioPinmuxSetFunction (pin functionIndex : Nat) (s : GpioSys) : Int × GpioSys :=
  if pin < bankBoundary then
    let reg := gpioMuxReg pin
    (0, s.halWritel (setBits (pin % 8 * 4) 4 (s.halReadl reg) (BitVec.ofNat 32 functionIndex)) reg)
  else (-1, s)

/-- What `gpio_irq_handle` reads before it calls: the entry whose handler it will call, from the
status of the bank of the line. -/
def gpioIrqLookup (hwirq : Nat) (s : GpioSys) : Option (Fin irqDescSize) :=
  match (List.range irqBanks).find? fun bank => hwirq = bankIrqNum bank with
  | none => none
  | some bank =>
    let baseBank := irqBankBase bank
    let val := s.halReadl (gpioIrqStatusRegFromBank bank baseBank)
    match (List.range irqPerBank).find? fun irqoffset => val.getLsbD irqoffset with
    | none => none
    | some irqoffset =>
      let irqPin := (baseBank + bank) * irqPerBank + irqoffset
      (List.finRange irqDescSize).find? fun i => irqPin = (s.irqDesc i).pin

/-- `hal_gpio_to_irq`: the line of the pin, `some none` for an error. A pin over the boundary has a
NULL `gpio_desc`, and reading its table faults. -/
def halGpioToIrq (pin : Nat) (s : GpioSys) : Option (Option Nat) :=
  if pin < bankBoundary then
    some (((List.range irqDescSize).find? fun i => pin = (s.irqDesc i).pin).map fun i =>
      (s.irqDesc i).virq)
  else none

/-- `hal_gpio_irq_request`; a line of no `gpio_desc` faults. -/
def halGpioIrqRequest (irq : Nat) (hdle : Option Nat) (flags data : Nat) (s : GpioSys) :
    Option (Int × GpioSys) :=
  if s.hasVirq irq then
    if gpioIrqStart ≤ irq ∧ irq < irqDescSize + gpioIrqStart then
      let i := irq - gpioIrqStart
      let s : GpioSys :=
        match hdle with
        | some hdle =>
          if (s.irqDesc i).handleIrq = GpioHandler.bad then s.setHandler i (.fn hdle) flags data
          else s
        | none => s
      let s := s.gpioIrqSetType i flags
      let (ret, s) := s.halGpioPinmuxSetFunction (s.irqDesc i).pin gpioMuxselEint
      if ret < 0 then some (-1, s) else some (irq, s)
    else some (-1, s)
  else none

def halGpioIrqFree (irq : Nat) (s : GpioSys) : Option (Int × GpioSys) :=
  if s.hasVirq irq then
    if gpioIrqStart ≤ irq ∧ irq < irqDescSize + gpioIrqStart then
      some (irq, s.setHandler (irq - gpioIrqStart) .bad 0 0)
    else some (-1, s)
  else none

/-- The control register of a line and its bit there. -/
def ctrlReg (irq : Nat) : Nat :=
  let bank := (irq - gpioIrqStart) / irqPerBank
  gpioIrqCtrlRegFromBank bank (irqBankBase bank)

/-- `hal_gpio_irq_enable`: the pending bit is cleared, then the line unmasked. -/
def halGpioIrqEnable (irq : Nat) (s : GpioSys) : Option (Int × GpioSys) :=
  if s.hasVirq irq then
    if gpioIrqStart ≤ irq ∧ irq < irqDescSize + gpioIrqStart then
      let hwIrq := irq - gpioIrqStart
      let s := s.gpioIrqAck hwIrq
      let val := s.halReadl (ctrlReg irq)
      some (0, s.halWritel (val ||| 1#32 <<< (hwIrq % irqPerBank)) (ctrlReg irq))
    else some (-1, s)
  else none

def halGpioIrqDisable (irq : Nat) (s : GpioSys) : Option (Int × GpioSys) :=
  if s.hasVirq irq then
    if gpioIrqStart ≤ irq ∧ irq < irqDescSize + gpioIrqStart then
      let hwIrq := irq - gpioIrqStart
      let val := s.halReadl (ctrlReg irq)
      some (0, s.halWritel (val &&& ~~~(1#32 <<< (hwIrq % irqPerBank))) (ctrlReg irq))
    else some (-1, s)
  else none

/-- The table and the masks that `aw_hal_gpio_init` leaves. -/
def awHalGpioInit (regs : Nat → BitVec 32) : GpioSys where
  regs off :=
    if IsStatus off ∨ ∃ bank < irqBanks, off = gpioIrqCtrlRegFromBank bank (irqBankBase bank) then 0
    else regs off
  irqDesc i := ⟨gpioIrqStart + i, irqPerBank + i, 0, .bad, 0⟩
  wired _ _ := ⟨rfl, rfl⟩

def pending (s : GpioSys) (i : Nat) : Bool :=
  (s.regs (gpioIrqStatusRegFromBank (i / irqPerBank) (irqBankBase (i / irqPerBank)))).getLsbD
    (i % irqPerBank)

def unmasked (s : GpioSys) (i : Nat) : Bool :=
  (s.regs (ctrlReg (gpioIrqStart + i))).getLsbD (i % irqPerBank)

end GpioSys

end D1Flash
