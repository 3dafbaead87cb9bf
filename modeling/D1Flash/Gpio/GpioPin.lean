import D1Flash.Drv.Common
import D1Flash.Gpio.HalGpio
import D1Flash.Lib.Runs

namespace D1Flash
set_option autoImplicit true

/-- The largest value of `gpio_pin_t`, and the size of `g_irq_callback_mgr`. -/
abbrev gpioMax : Nat := 479

/-- `csi_gpio_pin_t`; pointers are addresses, 0 is NULL. -/
structure CsiGpioPin where
  pinIdx : Nat
  callback : Nat
  arg : Nat
  deriving DecidableEq

structure IrqCallbackMgr where
  irqNum : Int
  pin : Nat
  deriving DecidableEq

/-- The handles by their address, `g_irq_callback_mgr`, the HAL under them, and whether an access
went outside of `g_irq_callback_mgr`. -/
structure PinSys where
  gpio : GpioSys
  handles : Nat → CsiGpioPin
  mgr : Nat → IrqCallbackMgr
  outside : Bool

structure PinCall where
  callback : Nat
  pin : Nat
  arg : Nat
  deriving DecidableEq

/-- The address of `__irq_handlers`. -/
abbrev irqHandlersAddr : Nat := 1

namespace PinSys

/-- An access to an entry of `g_irq_callback_mgr`. -/
def reach (s : PinSys) (i : Nat) : PinSys :=
  { s with outside := s.outside || decide (gpioMax ≤ i) }

def setHandle (s : PinSys) (h : Nat) (pin : CsiGpioPin) : PinSys :=
  { s with handles := Function.update s.handles h pin }

def setMgr (s : PinSys) (i : Nat) (mgr : IrqCallbackMgr) : PinSys :=
  { s with mgr := Function.update s.mgr i mgr }

/-- `irq_num` where the HAL takes a `uint32_t`. -/
def irqOf (s : PinSys) (i : Nat) : Nat := toU32 (s.mgr i).irqNum

/-- `__irq_handlers`: `none` is a dereference of a NULL pin. -/
def irqHandlers (irq arg : Nat) (s : PinSys) : Option (Option PinCall) :=
  match (List.range gpioMax).find? fun i => (s.mgr i).irqNum = irq with
  | none => some none
  | some i =>
    let pin := (s.mgr i).pin
    if pin = 0 then none
    else if (s.handles pin).callback ≠ 0 then some (some ⟨(s.handles pin).callback, pin, arg⟩)
    else some none

/-- The interrupt of an entry of the GPIO table: its handler gets the line and the data the entry
was requested with. -/
def fire (i : Nat) (s : PinSys) : Option (Option PinCall) :=
  match (s.gpio.irqDesc i).handleIrq with
  | .bad => some none
  | .fn _ => s.irqHandlers (s.gpio.irqDesc i).virq (s.gpio.irqDesc i).data

def csiGpioPinInit (pin pinName : Nat) (s : PinSys) : Int × PinSys :=
  if pin = 0 then (csiError, s)
  else if pinName > gpioMax then (csiError, s)
  else
    let s := s.setHandle pin { s.handles pin with pinIdx := pinName }
    let s := s.reach pinName
    (csiOk, s.setMgr pinName { s.mgr pinName with irqNum := -1 })

/-- `csi_gpio_pin_uninit`; `none` is a fault in the HAL. -/
def csiGpioPinUninit (pin : Nat) (s : PinSys) : Option PinSys :=
  if pin = 0 then some s
  else
    let s := s.setHandle pin { s.handles pin with callback := 0, arg := 0 }
    let i := (s.handles pin).pinIdx
    let s := s.reach i
    if (s.mgr i).irqNum = -1 then some s
    else
      match s.gpio.halGpioIrqDisable (s.irqOf i) with
      | none => none
      | some (_, gpio) =>
        match gpio.halGpioIrqFree (s.irqOf i) with
        | none => none
        | some (_, gpio) => some { s with gpio }

/-- The part that `attach_callback` and `irq_mode` share: the line of the pin, looked up if it is
not known yet. -/
def bindIrq (i : Nat) (s : PinSys) : Option (Int × PinSys) :=
  if (s.mgr i).irqNum = -1 then
    match s.gpio.halGpioToIrq i with
    | none => none
    | some none => some (csiError, s)
    | some (some irq) => some (csiOk, s.setMgr i { s.mgr i with irqNum := irq })
  else some (csiOk, s)

def csiGpioPinAttachCallback (pin callback arg : Nat) (s : PinSys) : Option (Int × PinSys) :=
  if pin = 0 then some (csiError, s)
  else
    let i := (s.handles pin).pinIdx
    match (s.reach i).bindIrq i with
    | none => none
    | some (ret, s) =>
      if ret ≠ csiOk then some (csiError, s)
      else
        let s := s.setHandle pin { s.handles pin with callback, arg }
        some (csiOk, s.setMgr i { s.mgr i with pin })

/-- `csi_gpio_irq_mode_t` as a `gpio_interrupt_mode_t`. -/
def irqModeType (mode : Nat) : Option Nat :=
  match mode with
  | 0 => some 1
  | 1 => some 2
  | 2 => some 3
  | 3 => some 8
  | 4 => some 4
  | _ => none

def csiGpioPinIrqMode (pin mode : Nat) (s : PinSys) : Option (Int × PinSys) :=
  if pin = 0 then some (csiError, s)
  else
    match irqModeType mode with
    | none => some (csiError, s)
    | some type =>
      let i := (s.handles pin).pinIdx
      match (s.reach i).bindIrq i with
      | none => none
      | some (ret, s) =>
        if ret ≠ csiOk then some (csiError, s)
        else
          match s.gpio.halGpioIrqRequest (s.irqOf i) (some irqHandlersAddr) type
              (s.handles pin).arg with
          | none => none
          | some (ret, gpio) =>
            if ret < 0 then some (csiError, { s with gpio }) else some (csiOk, { s with gpio })

def csiGpioPinIrqEnable (pin : Nat) (enable : Bool) (s : PinSys) : Option (Int × PinSys) :=
  if pin = 0 then some (csiError, s)
  else
    let i := (s.handles pin).pinIdx
    let s := s.reach i
    match (if enable then s.gpio.halGpioIrqEnable (s.irqOf i)
      else s.gpio.halGpioIrqDisable (s.irqOf i)) with
    | none => none
    | some (ret, gpio) =>
      if ret ≠ 0 then some (csiError, { s with gpio }) else some (csiOk, { s with gpio })

end PinSys

/-- The calls, each on the address of a handle. -/
inductive PinOp
  | init (pin pinName : Nat)
  | uninit (pin : Nat)
  | attach (pin callback arg : Nat)
  | irqMode (pin mode : Nat)
  | irqEnable (pin : Nat) (enable : Bool)
  deriving DecidableEq

/-- One call; `none` is a fault in the HAL. -/
def pinStep (s : PinSys) : PinOp → Option (Int × PinSys)
  | .init pin pinName => some (s.csiGpioPinInit pin pinName)
  | .uninit pin => (s.csiGpioPinUninit pin).map fun s => (csiOk, s)
  | .attach pin callback arg => s.csiGpioPinAttachCallback pin callback arg
  | .irqMode pin mode => s.csiGpioPinIrqMode pin mode
  | .irqEnable pin enable => s.csiGpioPinIrqEnable pin enable

end D1Flash
