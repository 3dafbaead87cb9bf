import D1Flash.Spi.Common

namespace D1Flash
set_option autoImplicit true

abbrev norCmdRead : Byte := 0x03
abbrev norCmdFastRead : Byte := 0x0B
abbrev norCmdDualRead : Byte := 0x3B
abbrev norCmdQuadRead : Byte := 0x6B
abbrev norCmdDualIoRead : Byte := 0xBB
abbrev norCmdQuadIoRead : Byte := 0xEB
abbrev norCmdProg : Byte := 0x02
abbrev norCmdQuadProg : Byte := 0x32
abbrev norCmdQuadIoProg : Byte := 0x38
abbrev norCmdEraseBlk4K : Byte := 0x20
abbrev norCmdEraseBlk32K : Byte := 0x52
abbrev norCmdEraseBlk64K : Byte := 0xD8
abbrev norCmdEraseChip : Byte := 0x60
abbrev norCmdWren : Byte := 0x06
abbrev norCmdReadSr : Byte := 0x05
abbrev norCmdWriteSr : Byte := 0x01
abbrev norCmdResetEn : Byte := 0x66
abbrev norCmdReset : Byte := 0x99
abbrev norCmdRdid : Byte := 0x9F
abbrev norCmdEn4B : Byte := 0xB7
abbrev norCmdFastRead4B : Byte := 0x0C
abbrev norCmdDualRead4B : Byte := 0x3C
abbrev norCmdQuadRead4B : Byte := 0x6C
abbrev norCmdDualIoRead4B : Byte := 0xBC
abbrev norCmdQuadIoRead4B : Byte := 0xEC
abbrev norCmdProg4B : Byte := 0x12
abbrev norCmdQuadProg4B : Byte := 0x34
abbrev norCmdQuadIoProg4B : Byte := 0x3E
abbrev norCmdEraseBlk4K4B : Byte := 0x21
abbrev norCmdEraseBlk32K4B : Byte := 0x5C
abbrev norCmdEraseBlk64K4B : Byte := 0xDC

abbrev norBusyMask : Byte := 0x1
abbrev norSrBitWel : Byte := 0x2

def fastReadCmds : List Byte := [norCmdFastRead, norCmdFastRead4B]

def dualReadCmds : List Byte :=
  [norCmdDualRead, norCmdDualIoRead, norCmdDualRead4B, norCmdDualIoRead4B]

def quadReadCmds : List Byte :=
  [norCmdQuadRead, norCmdQuadIoRead, norCmdQuadRead4B, norCmdQuadIoRead4B]

def quadProgCmds : List Byte :=
  [norCmdQuadProg, norCmdQuadIoProg, norCmdQuadProg4B, norCmdQuadIoProg4B]

def cmdBit (cmd : Byte) : Nat :=
  if cmd ∈ dualReadCmds then 2
  else if cmd ∈ quadReadCmds ++ quadProgCmds then 4
  else 1

/-- What the driver needs below it: one SPI transfer and the delay loop. -/
structure SpiPort (δ : Type) where
  halSpiXfer : HalSpiMasterTransfer → δ → (Int × List Byte) × δ
  mdelay : Nat → δ → δ

variable (p : SpiPort δ)

def norTransfer (singleLen : Nat) (tbuf : List Byte) (rbuf : Bool) (rlen : Nat) (s : δ) :
    (Int × List Byte) × δ :=
  let cmd := tbuf.headD 0
  p.halSpiXfer {
    txBuf := some tbuf
    txLen := tbuf.length
    txSingleLen := singleLen
    rxBuf := rbuf
    rxLen := rlen
    txNbits := if cmd ∈ quadProgCmds then spiNbitsQuad else spiNbitsSingle
    rxNbits := if cmd ∈ dualReadCmds then spiNbitsDual
      else if cmd ∈ quadReadCmds then spiNbitsQuad else spiNbitsSingle
    dummyByte := if cmd ∈ fastReadCmds ++ dualReadCmds ++ quadReadCmds then 1 else 0 } s

/-- A transfer that receives nothing. -/
def norSend (singleLen : Nat) (tbuf : List Byte) (s : δ) : Int × δ :=
  match norTransfer p singleLen tbuf false 0 s with
  | ((ret, _), s) => (ret, s)

def norReadStatus (s : δ) : (Int × Byte) × δ :=
  match norTransfer p 1 [norCmdReadSr] true 2 s with
  | ((ret, reg), s) => if ret ≠ 0 then ((ret, 0), s) else ((0, reg.getD 1 0), s)

def norIsBusy (s : δ) : Int × δ :=
  match norReadStatus p s with
  | ((ret, reg), s) =>
    if ret ≠ 0 then (ret, s)
    else if reg &&& norBusyMask ≠ 0 then (1, s) else (0, s)

/-- How often the body of `do .. while (--n > 0)` runs for an `unsigned int`: zero wraps. -/
def preDecIters (n : Nat) : Nat := if n = 0 then 0x100000000 else n

/-- The sleeping half of the wait. With `n` rounds left, `_ms` holds `n` modulo 2^32. -/
def msLoop : Nat → δ → Bool × δ
  | 0, s => (false, s)
  | n + 1, s =>
    match norIsBusy p s with
    | (busy, s) =>
      if busy = 0 then (true, s)
      else msLoop n (if u32 (n + 1) ≠ 0 then p.mdelay 1 s else s)

/-- The polling half of the wait. -/
def timesLoop : Nat → δ → Bool × δ
  | 0, s => (false, s)
  | n + 1, s =>
    match norIsBusy p s with
    | (busy, s) => if busy = 0 then (true, s) else timesLoop n s

def norWaitReady (ms times : Nat) (s : δ) : Int × δ :=
  match msLoop p (preDecIters ms) s with
  | (true, s) => (0, s)
  | (false, s) =>
    match timesLoop p (preDecIters times) s with
    | (true, s) => (0, s)
    | (false, s) =>
      match norIsBusy p s with
      | (busy, s) => if busy = 0 then (0, s) else (-eBusy, s)

def norSendCmd (cmd : Byte) (s : δ) : Int × δ :=
  match norSend p 1 [cmd] s with
  | (ret, s) => if ret ≠ 0 then (ret, s) else norWaitReady p 0 500 s

def norWriteEnable (s : δ) : Int × δ :=
  match norSendCmd p norCmdWren s with
  | (ret, s) =>
    if ret ≠ 0 then (ret, s)
    else
      match norReadStatus p s with
      | ((ret, sr), s) =>
        if ret ≠ 0 then (ret, s)
        else if sr &&& norSrBitWel = 0 then (-eInval, s) else (0, s)

/-- Status bytes behind a command, after a write enable. -/
def writeSr (cmd : Byte) (sr : List Byte) (s : δ) : Int × δ :=
  match norWriteEnable p s with
  | (ret, s) =>
    if ret ≠ 0 then (ret, s)
    else if sr.length > 5 then (-eInval, s)
    else
      match norSend p (sr.length + 1) (cmd :: sr) s with
      | (ret, s) => if ret ≠ 0 then (ret, s) else norWaitReady p 10 maxWaitLoop s

def norWriteStatus : List Byte → δ → Int × δ := writeSr p norCmdWriteSr

/-- The command byte with the address behind it, in the chip's address width. -/
def cmdAddr (nor : NorFlash) (cmd : Byte) (addr : Nat) : List Byte :=
  if nor.addrWidth = 4 then
    [cmd, .ofNat (addr >>> 24), .ofNat (addr >>> 16), .ofNat (addr >>> 8), .ofNat addr]
  else [cmd, .ofNat (addr >>> 16), .ofNat (addr >>> 8), .ofNat addr]

/-- `cmd_4bytes(cmd)`: the opcode for the chip's address width. -/
def cmd4Bytes (nor : NorFlash) (cmd cmd4B : Byte) : Byte :=
  if nor.addrWidth = 4 then cmd4B else cmd

end D1Flash
