import D1Flash.Lib.LinkedHeap
import D1Flash.Spinor.Inter

namespace D1Flash
open LinkedHeap
set_option autoImplicit true

abbrev nrIrqs : Nat := 100
abbrev irqNotConnected : Nat := 0x80000000
abbrev irqactionNameMax : Nat := 16

abbrev irqfShared : UInt64 := 0x80
abbrev irqfOneshot : UInt32 := 0x2000
abbrev irqfNoSuspend : UInt64 := 0x4000
abbrev irqfCondSuspend : UInt64 := 0x40000
abbrev irqchipOneshotSafe : UInt32 := 0x20

/-- `struct irqaction`. A handler is the address of its function, a `dev_id` any pointer value. -/
structure IrqAction where
  handler : Nat
  devId : Nat
  next : Ptr
  irq : Nat
  flags : UInt32
  irqNums : Nat
  name : List Byte
  deriving DecidableEq

/-- `struct irq_chip`; its methods are those of the PLIC. -/
structure IrqChip where
  flags : UInt32
  deriving DecidableEq

/-- `struct irq_desc` with the line number and the chip of its `irq_data`. -/
structure IrqDesc where
  irq : Nat
  chip : Option IrqChip
  action : Ptr
  number : Nat

/-- The PLIC: priorities, the enable words, the claim register of the hart. -/
structure Plic where
  present : Bool
  priority : Nat → Nat
  mie : Nat → BitVec 32
  claim : Nat

structure IrqSys where
  heap : Heap IrqAction
  desc : Nat → IrqDesc
  plic : Plic

structure IrqCall where
  handler : Nat
  irq : Nat
  devId : Nat
  deriving DecidableEq

def plicChip : IrqChip := ⟨0⟩

/-- `csi_plic_enable_irq` and `csi_plic_disable_irq`: one bit of an enable word. -/
def Plic.setMie (p : Plic) (irq : Nat) (enable : Bool) : Plic :=
  let word := p.mie (irq / 32)
  let bit := 1#32 <<< (irq % 32)
  { p with mie :=
    Function.update p.mie (irq / 32) (if enable then word ||| bit else word &&& ~~~bit) }

/-- `plic_irq_toggle`, which `irq_enable` and `irq_disable` call. -/
def Plic.toggle (p : Plic) (irq : Nat) (enable : Bool) : Plic :=
  let p := { p with priority := Function.update p.priority irq enable.toNat }
  if p.present then p.setMie irq enable else p

/-- The line is delivered: its enable bit is set and its priority is over the threshold 0. -/
def Plic.delivers (p : Plic) (irq : Nat) : Bool :=
  p.priority irq != 0 && (p.mie (irq / 32)).getLsbD (irq % 32)

namespace IrqSys

def setDesc (s : IrqSys) (irq : Nat) (desc : IrqDesc) : IrqSys :=
  { s with desc := Function.update s.desc irq desc }

/-- `plic_init` with `d1_interrupt_init`. -/
def plicInit (s : IrqSys) : IrqSys :=
  { s with
    desc := fun irq => if irq < nrIrqs then { s.desc irq with irq, chip := some plicChip }
      else s.desc irq
    plic := (List.range nrIrqs).foldl (fun p n => p.setMie (n + 1) false)
      { s.plic with present := true } }

def disableIrq (irq : Nat) (s : IrqSys) : IrqSys :=
  if irq < nrIrqs then
    let desc := s.desc irq
    let s := s.setDesc irq { desc with number := u32Sub desc.number 1 }
    { s with plic := s.plic.toggle desc.irq false }
  else s

def enableIrq (irq : Nat) (s : IrqSys) : IrqSys :=
  if irq < nrIrqs then
    let desc := s.desc irq
    let s := s.setDesc irq { desc with number := u32 (desc.number + 1) }
    { s with plic := s.plic.toggle desc.irq true }
  else s

/-- The walk of `__setup_irq` to the node whose `next` is NULL; `none` is a dangling pointer. -/
def lastAction (h : Heap IrqAction) : Nat → Addr → Option Addr
  | 0, _ => none
  | fuel + 1, old =>
    match h.lookup old with
    | none => none
    | some action =>
      match action.next with
      | none => some old
      | some old => lastAction h fuel old

/-- A write through `old_ptr`: into the head of the line, or into the `next` of a node. -/
def setLink (s : IrqSys) (irq : Nat) (place : Ptr) (p : Ptr) : Option IrqSys :=
  match place with
  | none => some (s.setDesc irq { s.desc irq with action := p })
  | some a =>
    match s.heap.lookup a with
    | none => none
    | some action => some { s with heap := s.heap.insert a { action with next := p } }

/-- The link at the end of a line: its head, or the `next` of its last node. -/
def lastPlace (s : IrqSys) (irq : Nat) : Option Ptr :=
  match (s.desc irq).action with
  | none => some none
  | some old => (lastAction s.heap s.heap.keys.length old).map some

/-- What `__setup_irq` writes into the new node and into the line before the walk. -/
def adopt (irq : Nat) (new : Addr) (action : IrqAction) (chip : IrqChip) (s : IrqSys) : IrqSys :=
  let flags := if chip.flags &&& irqchipOneshotSafe != 0 then action.flags &&& ~~~irqfOneshot
    else action.flags
  let s := { s with heap := s.heap.insert new { action with irq, flags } }
  s.setDesc irq { s.desc irq with number := 0 }

/-- `__setup_irq` of a node in the heap. -/
def setupIrq (irq : Nat) (new : Addr) (action : IrqAction) (s : IrqSys) : Option (Int × IrqSys) :=
  match (s.desc irq).chip with
  | none => some (-1, s)
  | some chip =>
    let s := s.adopt irq new action chip
    match s.lastPlace irq with
    | none => none
    | some place =>
      match s.setLink irq place (some new) with
      | none => none
      | some s => some (0, s.enableIrq irq)

def badFlags (irqflags : UInt64) (devId : Nat) : Bool :=
  irqflags &&& irqfShared != 0 && devId == 0 ||
    irqflags &&& irqfShared == 0 && irqflags &&& irqfCondSuspend != 0 ||
    irqflags &&& irqfNoSuspend != 0 && irqflags &&& irqfCondSuspend != 0

/-- `request_threaded_irq`, where the allocator proposes `pick`. It gives back the calls of the
handler that it makes. -/
def requestThreadedIrq (irq : Nat) (handler : Option Nat) (irqflags : UInt64)
    (devname : Option (List Byte)) (devId : Nat) (pick : Ptr) (s : IrqSys) :
    Option ((Int × List IrqCall) × IrqSys) :=
  if irq = irqNotConnected then some ((-1, []), s)
  else if badFlags irqflags devId then some ((-1, []), s)
  else if ¬ irq < nrIrqs then some ((-1, []), s)
  else
    match handler with
    | none => some ((-1, []), s)
    | some handler =>
      match malloc s.heap pick with
      | none => some ((-1, []), s)
      | some new =>
        let action : IrqAction :=
          { handler, devId, next := none, irq := 0, flags := irqflags.toUInt32, irqNums := 0
            name := (devname.getD "none".toUTF8.toList).take (irqactionNameMax - 1) }
        match setupIrq irq new action { s with heap := s.heap.insert new action } with
        | none => none
        | some (retval, s) =>
          if retval ≠ 0 then some ((retval, []), { s with heap := s.heap.erase new })
          else
            some ((retval, if irqflags &&& irqfShared != 0 then [⟨handler, irq, devId⟩] else []), s)

/-- The walk of `__free_irq`: the place that points to the first action of `devId`, with that
action; the inner `none` is the end of the list. -/
def findAction (h : Heap IrqAction) (devId : Nat) : Nat → Ptr → Ptr → Option (Option (Ptr × Addr))
  | _, _, none => some none
  | 0, _, some _ => none
  | fuel + 1, place, some a =>
    match h.lookup a with
    | none => none
    | some action =>
      if action.devId = devId then some (some (place, a))
      else findAction h devId fuel (some a) action.next

/-- `free_irq`; it gives back the name of the action that it frees. -/
def freeIrq (irq devId : Nat) (s : IrqSys) : Option (Option (List Byte) × IrqSys) :=
  if ¬ irq < nrIrqs then some (none, s)
  else
    match findAction s.heap devId s.heap.keys.length none (s.desc irq).action with
    | none => none
    | some none => some (none, s)
    | some (some (place, a)) =>
      match s.heap.lookup a with
      | none => none
      | some action =>
        match s.setLink irq place action.next with
        | none => none
        | some s =>
          let s := if (s.desc irq).action = none then s.disableIrq (s.desc irq).irq else s
          some (some action.name, { s with heap := s.heap.erase a })

/-- The loop of `handle_level_irq` over the actions of a line. -/
def handleActions (irq : Nat) : Nat → Ptr → Heap IrqAction → Option (List IrqCall × Heap IrqAction)
  | _, none, h => some ([], h)
  | 0, some _, _ => none
  | fuel + 1, some a, h =>
    match h.lookup a with
    | none => none
    | some action =>
      match handleActions irq fuel action.next
          (h.insert a { action with irqNums := action.irqNums + 1 }) with
      | none => none
      | some (calls, h) => some (⟨action.handler, irq, action.devId⟩ :: calls, h)

/-- `generic_handle_irq` with `handle_level_irq`. -/
def genericHandleIrq (irq : Nat) (s : IrqSys) : Option ((Int × List IrqCall) × IrqSys) :=
  if ¬ irq < nrIrqs then some ((-1, []), s)
  else
    match handleActions (s.desc irq).irq s.heap.keys.length (s.desc irq).action s.heap with
    | none => none
    | some (calls, heap) =>
      match (s.desc irq).chip with
      | none => none
      | some _ =>
        some ((0, calls), { s with heap, plic := { s.plic with claim := (s.desc irq).irq } })

end IrqSys

/-- The calls into the interrupt layer, and an interrupt of a line. -/
inductive IrqOp where
  | request (irq : Nat) (handler : Option Nat) (irqflags : UInt64) (devname : Option (List Byte))
      (devId : Nat) (pick : Ptr)
  | free (irq devId : Nat)
  | interrupt (irq : Nat)
  | disable (irq : Nat)
  | enable (irq : Nat)

/-- What a call gives back, with the handler calls made in it. -/
inductive IrqOut where
  | ret (retval : Int) (calls : List IrqCall)
  | name (devname : Option (List Byte))
  | unit
  deriving DecidableEq

def irqStep (s : IrqSys) : IrqOp → Option (IrqOut × IrqSys)
  | .request irq handler irqflags devname devId pick =>
    (s.requestThreadedIrq irq handler irqflags devname devId pick).map fun r =>
    (.ret r.1.1 r.1.2, r.2)
  | .free irq devId => (s.freeIrq irq devId).map fun r => (.name r.1, r.2)
  | .interrupt irq => (s.genericHandleIrq irq).map fun r => (.ret r.1.1 r.1.2, r.2)
  | .disable irq => some (.unit, s.disableIrq irq)
  | .enable irq => some (.unit, s.enableIrq irq)

end D1Flash
