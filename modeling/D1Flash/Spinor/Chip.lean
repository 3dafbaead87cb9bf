import D1Flash.Lib.NorArray
import D1Flash.Spinor.Core

namespace D1Flash
open NorArray (erase program slice)
set_option autoImplicit true

/-- What an opcode asks of the chip; `width` counts the address bytes that follow it. -/
inductive ChipOp where
  | wren
  | status
  | readId
  | read (width : Nat)
  | program (width : Nat)
  | erase (blk width : Nat)
  | eraseChip
  | other
  deriving DecidableEq

def chipOp (cmd : Byte) : ChipOp :=
  if cmd = norCmdWren then .wren
  else if cmd = norCmdReadSr then .status
  else if cmd = norCmdRdid then .readId
  else if cmd ∈ [norCmdRead, norCmdFastRead, norCmdDualRead, norCmdDualIoRead, norCmdQuadRead,
      norCmdQuadIoRead] then .read 3
  else if cmd ∈ [norCmdFastRead4B, norCmdDualRead4B, norCmdDualIoRead4B, norCmdQuadRead4B,
      norCmdQuadIoRead4B] then .read 4
  else if cmd ∈ [norCmdProg, norCmdQuadProg, norCmdQuadIoProg] then .program 3
  else if cmd ∈ [norCmdProg4B, norCmdQuadProg4B, norCmdQuadIoProg4B] then .program 4
  else if cmd = norCmdEraseBlk4K then .erase sz4K 3
  else if cmd = norCmdEraseBlk4K4B then .erase sz4K 4
  else if cmd = norCmdEraseBlk32K then .erase sz32K 3
  else if cmd = norCmdEraseBlk32K4B then .erase sz32K 4
  else if cmd = norCmdEraseBlk64K then .erase sz64K 3
  else if cmd = norCmdEraseBlk64K4B then .erase sz64K 4
  else if cmd = norCmdEraseChip then .eraseChip
  else .other

def takeAddr : Nat → List Byte → Option (Nat × List Byte)
  | 0, bs => some (0, bs)
  | _ + 1, [] => none
  | n + 1, b :: bs => (takeAddr n bs).map fun (a, rest) => (b.toNat * 256 ^ n + a, rest)

/-- The assumed chip. `busy` counts the status polls that will still find it busy, `delays` how
many each of the coming operations takes. -/
structure NorChip where
  id : List Byte
  size : Nat
  mem : Nat → Byte
  wel : Bool
  busy : Nat
  delays : Nat → Nat

/-- The next cell a page program writes: it wraps inside its page. -/
def nextInPage (a : Nat) : Nat := a / norPageSize * norPageSize + (a + 1) % norPageSize

def pageProgram (m : Nat → Byte) (a : Nat) : List Byte → Nat → Byte
  | [] => m
  | b :: bs => pageProgram (fun i => if i = a then m i &&& b else m i) (nextInPage a) bs

namespace NorChip

def status (c : NorChip) : Byte :=
  (if c.busy = 0 then 0 else norBusyMask) ||| (if c.wel then norSrBitWel else 0)

/-- Starting an operation uses up the write enable. -/
def start (c : NorChip) (m : Nat → Byte) : NorChip :=
  { c with mem := m, wel := false, busy := c.delays 0, delays := fun i => c.delays (i + 1) }

def execIdle (c : NorChip) (op : ChipOp) (bytes : List Byte) (rxLen : Nat) :
    List Byte × NorChip :=
  let none := List.replicate rxLen 0xFF
  match op with
  | .wren => (none, { c with wel := true })
  | .readId => ((List.range rxLen).map fun j => c.id.getD j 0xFF, c)
  | .read width =>
    match takeAddr width bytes with
    | some (a, _) => ((List.range rxLen).map fun j => c.mem ((a + j) % c.size), c)
    | _ => (none, c)
  | .program width =>
    match takeAddr width bytes, c.wel with
    | some (a, data), true => (none, c.start (pageProgram c.mem (a % c.size) data))
    | _, _ => (none, c)
  | .erase blk width =>
    match takeAddr width bytes, c.wel with
    | some (a, []), true => (none, c.start (erase c.mem (a % c.size / blk * blk) blk))
    | _, _ => (none, c)
  | .eraseChip => if c.wel then (none, c.start (erase c.mem 0 c.size)) else (none, c)
  | _ => (none, c)

/-- A chip that is busy answers status reads only. -/
def exec (c : NorChip) (tx : List Byte) (rxLen : Nat) : List Byte × NorChip :=
  match tx with
  | [] => (List.replicate rxLen 0xFF, c)
  | cmd :: bytes =>
    match chipOp cmd with
    | .status => (List.replicate rxLen c.status, { c with busy := c.busy - 1 })
    | op =>
      if c.busy = 0 then c.execIdle op bytes rxLen else (List.replicate rxLen 0xFF, c)

end NorChip

/-- A failed transfer: its error code and how many of its bytes still reached the chip. -/
structure TransferFault where
  ret : Int
  cut : Nat
  ret_ne : ret ≠ 0

/-- A transfer that fails when `cut` of its bytes have arrived. -/
def TransferFault.after (cut : Nat) : TransferFault := ⟨-1, cut, by decide⟩

/-- The bus to the chip, with the outcomes of the transfers to come. -/
structure SpiBus where
  chip : NorChip
  faults : Nat → Option TransferFault

def SpiBus.xfer (tr : HalSpiMasterTransfer) (b : SpiBus) : (Int × List Byte) × SpiBus :=
  let tx := tr.txBuf.getD []
  match b.faults 0 with
  | none =>
    match b.chip.exec tx tr.rxLen with
    | (rx, c) => ((0, rx), { chip := c, faults := fun i => b.faults (i + 1) })
  | some f =>
    match b.chip.exec (tx.take f.cut) tr.rxLen with
    | (_, c) => ((f.ret, []), { chip := c, faults := fun i => b.faults (i + 1) })

def busPort : SpiPort SpiBus where
  halSpiXfer := SpiBus.xfer
  mdelay _ b := b

/-- The status polls that each wait of the driver makes at least: `--n > 0` takes the counter
all the way round. -/
@[irreducible] def pollBudget : Nat := 0x100000000

/-- Every transfer succeeds and every operation ends within the poll budget. -/
structure SpiBus.Reliable (b : SpiBus) : Prop where
  noFault : ∀ i, b.faults i = none
  prompt : ∀ i, b.chip.delays i ≤ pollBudget
  busy : b.chip.busy ≤ pollBudget

/-- The driver's record describes the chip on the bus, as `nor_scan` leaves it. -/
structure NorFlash.Drives (nor : NorFlash) (c : NorChip) : Prop where
  info : nor.info.isSome
  width : nor.addrWidth = 3 ∨ nor.addrWidth = 4
  fits : c.size ≤ 256 ^ nor.addrWidth
  size_lt : c.size < 0x100000000
  totalSize : nor.totalSize = c.size
  cmdRead : chipOp nor.cmdRead = .read nor.addrWidth
  cmdWrite : chipOp nor.cmdWrite = .program nor.addrWidth

/-- A bus without failures to a chip at rest. -/
def SpiBus.atRest (id : List Byte) (size : Nat) (mem : Nat → Byte) : SpiBus where
  chip := { id, size, mem, wel := false, busy := 0, delays := fun _ => 0 }
  faults := fun _ => none

theorem SpiBus.atRest_reliable (id : List Byte) (size : Nat) (mem : Nat → Byte) :
    (SpiBus.atRest id size mem).Reliable :=
  ⟨fun _ => rfl, fun _ => Nat.zero_le _, Nat.zero_le _⟩

/-- The record of a chip with 3-byte addresses that is driven on single lines. -/
def NorFlash.serial (info : NorInfo) (blkSize : Nat) : NorFlash where
  cmdRead := norCmdFastRead
  cmdWrite := norCmdProg
  rCmdSlen := 5
  wCmdSlen := 4
  totalSize := info.totalSize
  blkSize := blkSize
  pageSize := norPageSize
  addrWidth := 3
  info := some info

theorem NorFlash.serial_drives (info : NorInfo) (blkSize : Nat) (hs : c.size = info.totalSize)
    (h : c.size ≤ sz16M) : (NorFlash.serial info blkSize).Drives c where
  info := rfl
  width := .inl rfl
  fits := h
  size_lt := Nat.lt_of_le_of_lt h (by decide)
  totalSize := hs.symm
  cmdRead := by rfl
  cmdWrite := by rfl

def w25q64jv : NorInfo where
  id := [0xEF, 0x40, 0x17]
  totalSize := 0x800000
  flag := supportGeneral
  totalSize_lt := by decide

end D1Flash
