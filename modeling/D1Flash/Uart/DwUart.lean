import D1Flash.Drv.Common
import D1Flash.Lib.NorArray
import D1Flash.Spinor.Inter
import Mathlib.Logic.Function.Basic

namespace D1Flash
open NorArray (put slice slice_append)
set_option autoImplicit true

abbrev uartMaxFifo : UInt32 := 16

abbrev dwUartIerErbfi : BitVec 32 := 0x1
abbrev dwUartIerEtbei : BitVec 32 := 0x2
abbrev dwUartIerElsi : BitVec 32 := 0x4

abbrev dwUartIirThrEmpty : Nat := 0x2
abbrev dwUartIirRecvDataAvail : Nat := 0x4
abbrev dwUartIirRecvLineStatus : Nat := 0x6
abbrev dwUartIirCharacterTimeout : Nat := 0xC

inductive UartEvent
  | sendComplete
  | receiveComplete
  | receiveFifoReadable
  | errorOverflow
  | errorParity
  | errorFraming
  | breakIntr
  deriving DecidableEq

/-- `csi_uart_t`; pointers are addresses, 0 is NULL. -/
structure CsiUart where
  callback : Nat
  txData : Nat
  txSize : UInt32
  rxData : Nat
  rxSize : UInt32
  readable : Nat
  writeable : Nat

/-- The handle, the interrupt enable register, the memory the buffers are in, what went into the
transmit holding register and what came out of the receive buffer register. -/
structure UartSys where
  uart : CsiUart
  ier : BitVec 32
  mem : Nat → Byte
  thr : List Byte
  rbr : List Byte

/-- What the handler reads from the device: the interrupt source, the line status, the level of the
receive FIFO and the bytes of the receive buffer register. -/
structure UartPoll where
  iir : Nat
  lsr : BitVec 32
  rfl : UInt32
  rbr : Nat → Byte

namespace UartSys

def notify (s : UartSys) (event : UartEvent) : List UartEvent :=
  if s.uart.callback ≠ 0 then [event] else []

theorem sub_ofNat_succ (z : UInt32) (n : Nat) :
    z - 1 - UInt32.ofNat n = z - UInt32.ofNat (n + 1) := by
  rw [UInt32.ofNat_add]
  show z - 1 - UInt32.ofNat n = z - (UInt32.ofNat n + 1)
  grind

/-- The reads of `dw_uart_intr_recv_data` into the buffer, the first of them the `k`th. -/
def recvLoop (rbr : Nat → Byte) : Nat → Nat → UartSys → UartSys
  | 0, _, s => s
  | n + 1, k, s =>
    recvLoop rbr n (k + 1)
      { s with
        mem := Function.update s.mem s.uart.rxData (rbr k)
        rbr := s.rbr ++ [rbr k]
        uart := { s.uart with rxSize := s.uart.rxSize - 1, rxData := s.uart.rxData + 1 } }

/-- The reads of `dw_uart_intr_recv_data` that are dropped. -/
def dropLoop (rbr : Nat → Byte) : Nat → Nat → UartSys → UartSys
  | 0, _, s => s
  | n + 1, k, s => dropLoop rbr n (k + 1) { s with rbr := s.rbr ++ [rbr k] }

/-- The turns of `do ... while (--n)` on a `uint32_t`. -/
def doWhileTurns (n : UInt32) : Nat := if n = 0 then 0x100000000 else n.toNat

theorem recvLoop_eq (rbr : Nat → Byte) (n k : Nat) (s : UartSys) :
    recvLoop rbr n k s =
      { s with
        mem := put s.mem s.uart.rxData (slice rbr k n)
        rbr := s.rbr ++ slice rbr k n
        uart := { s.uart with
          rxSize := s.uart.rxSize - UInt32.ofNat n
          rxData := s.uart.rxData + n } } := by
  induction n generalizing k s with
  | zero =>
    rw [recvLoop, NorArray.slice_zero, NorArray.put_nil, List.append_nil, Nat.add_zero]
    exact congrArg (fun z => { s with uart := { s.uart with rxSize := z } })
      (UInt32.sub_zero s.uart.rxSize).symm
  | succ n ih =>
    rw [recvLoop, ih]
    dsimp only
    rw [NorArray.slice_succ, NorArray.put_cons, sub_ofNat_succ, List.append_assoc,
      List.singleton_append, Nat.add_assoc, Nat.add_comm 1 n]

theorem dropLoop_eq (rbr : Nat → Byte) (n k : Nat) (s : UartSys) :
    dropLoop rbr n k s = { s with rbr := s.rbr ++ slice rbr k n } := by
  induction n generalizing k s with
  | zero => rw [dropLoop, NorArray.slice_zero, List.append_nil]
  | succ n ih =>
    rw [dropLoop, ih]
    dsimp only
    rw [NorArray.slice_succ, List.append_assoc, List.singleton_append]

def dwUartIntrRecvData (poll : UartPoll) (s : UartSys) : List UartEvent × UartSys :=
  let rxfifoNum := poll.rfl
  let rxdataNum := if rxfifoNum > s.uart.rxSize then s.uart.rxSize else rxfifoNum
  if s.uart.rxData = 0 ∨ s.uart.rxSize = 0 then
    if s.uart.callback ≠ 0 then ([.receiveFifoReadable], s)
    else ([], dropLoop poll.rbr (doWhileTurns rxfifoNum) 0 s)
  else
    let s := recvLoop poll.rbr (doWhileTurns rxdataNum) 0 s
    if s.uart.rxSize = 0 then
      let s := { s with uart := { s.uart with readable := 1 } }
      (s.notify .receiveComplete, s)
    else ([], s)

def sendLoop : Nat → UartSys → UartSys
  | 0, s => s
  | n + 1, s =>
    sendLoop n
      { s with
        thr := s.thr ++ [s.mem s.uart.txData]
        uart := { s.uart with txSize := s.uart.txSize - 1, txData := s.uart.txData + 1 } }

theorem sendLoop_eq (n : Nat) (s : UartSys) :
    sendLoop n s =
      { s with
        thr := s.thr ++ slice s.mem s.uart.txData n
        uart := { s.uart with
          txSize := s.uart.txSize - UInt32.ofNat n
          txData := s.uart.txData + n } } := by
  induction n generalizing s with
  | zero =>
    rw [sendLoop, NorArray.slice_zero, List.append_nil, Nat.add_zero]
    exact congrArg (fun z => { s with uart := { s.uart with txSize := z } })
      (UInt32.sub_zero s.uart.txSize).symm
  | succ n ih =>
    rw [sendLoop, ih]
    dsimp only
    rw [NorArray.slice_succ, sub_ofNat_succ, List.append_assoc, List.singleton_append,
      Nat.add_assoc, Nat.add_comm 1 n]

def uartIntrSendData (s : UartSys) : List UartEvent × UartSys :=
  let transNum := if s.uart.txSize > uartMaxFifo then uartMaxFifo else s.uart.txSize
  let s := sendLoop transNum.toNat s
  if s.uart.txSize = 0 then
    let s := { s with
      ier := s.ier &&& ~~~dwUartIerEtbei
      uart := { s.uart with writeable := 1 } }
    (s.notify .sendComplete, s)
  else ([], s)

def uartIntrLineError (poll : UartPoll) (s : UartSys) : List UartEvent × UartSys :=
  let s := { s with uart := { s.uart with readable := 1, writeable := 1 } }
  ((if poll.lsr.getLsbD 1 then s.notify .errorOverflow else []) ++
    (if poll.lsr.getLsbD 2 then s.notify .errorParity else []) ++
    (if poll.lsr.getLsbD 3 then s.notify .errorFraming else []) ++
    (if poll.lsr.getLsbD 4 then s.notify .breakIntr else []), s)

def dwUartIrqHandler (poll : UartPoll) (s : UartSys) : List UartEvent × UartSys :=
  let intrState := poll.iir % 16
  if intrState = dwUartIirRecvLineStatus then s.uartIntrLineError poll
  else if intrState = dwUartIirThrEmpty then s.uartIntrSendData
  else if intrState = dwUartIirRecvDataAvail ∨ intrState = dwUartIirCharacterTimeout then
    s.dwUartIntrRecvData poll
  else ([], s)

/-- The device raises the source of a poll only while its enable bit is set. -/
def raises (s : UartSys) (poll : UartPoll) : Prop :=
  let intrState := poll.iir % 16
  (intrState = dwUartIirThrEmpty → s.ier.getLsbD 1 = true) ∧
    (intrState = dwUartIirRecvDataAvail ∨ intrState = dwUartIirCharacterTimeout →
      s.ier.getLsbD 0 = true) ∧
    (intrState = dwUartIirRecvLineStatus → s.ier.getLsbD 2 = true)

instance (s : UartSys) (poll : UartPoll) : Decidable (s.raises poll) :=
  inferInstanceAs (Decidable (_ ∧ _ ∧ _))

end UartSys

inductive UartDir
  | tx
  | rx
  deriving DecidableEq

namespace UartSys

/-- `state.writeable` or `state.readable`. -/
def flag (s : UartSys) : UartDir → Nat
  | .tx => s.uart.writeable
  | .rx => s.uart.readable

def setData (s : UartSys) (data : Nat) : UartDir → UartSys
  | .tx => { s with uart := { s.uart with txData := data } }
  | .rx => { s with uart := { s.uart with rxData := data } }

def setSize (s : UartSys) (size : UInt32) : UartDir → UartSys
  | .tx => { s with uart := { s.uart with txSize := size } }
  | .rx => { s with uart := { s.uart with rxSize := size } }

/-- `dw_uart_enable_trans_irq` or `dw_uart_enable_recv_irq`. -/
def enableIrq (s : UartSys) : UartDir → UartSys
  | .tx => { s with ier := s.ier ||| dwUartIerEtbei }
  | .rx => { s with ier := s.ier ||| (dwUartIerErbfi ||| dwUartIerElsi) }

def setFlag (s : UartSys) (v : Nat) : UartDir → UartSys
  | .tx => { s with uart := { s.uart with writeable := v } }
  | .rx => { s with uart := { s.uart with readable := v } }

end UartSys

/-- `dw_uart_send_intr` or `dw_uart_receive_intr`. -/
def dwUartStartIntr (dir : UartDir) (data : Nat) (size : UInt32) (s : UartSys) : Int × UartSys :=
  (csiOk, ((s.setData data dir).setSize size dir).enableIrq dir)

/-- `csi_uart_send_async` or `csi_uart_receive_async`, on a handle with its callback attached. -/
def csiUartAsync (dir : UartDir) (data : Nat) (size : UInt32) (s : UartSys) : Int × UartSys :=
  if data = 0 then (csiError, s)
  else if s.uart.callback = 0 then (csiError, s)
  else
    match dwUartStartIntr dir data size s with
    | (ret, s) => if ret = csiOk then (ret, s.setFlag 0 dir) else (ret, s)

def dwUartSendIntr (data : Nat) (size : UInt32) (s : UartSys) : Int × UartSys :=
  dwUartStartIntr .tx data size s

def dwUartReceiveIntr (data : Nat) (size : UInt32) (s : UartSys) : Int × UartSys :=
  dwUartStartIntr .rx data size s

def csiUartSendAsync (data : Nat) (size : UInt32) (s : UartSys) : Int × UartSys :=
  csiUartAsync .tx data size s

def csiUartReceiveAsync (data : Nat) (size : UInt32) (s : UartSys) : Int × UartSys :=
  csiUartAsync .rx data size s

end D1Flash
