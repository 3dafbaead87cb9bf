import D1Flash.Spinor.Chip
import D1Flash.Spinor.Init

namespace D1Flash
set_option autoImplicit true

abbrev sz8M : Nat := 0x800000
abbrev sz64M : Nat := 0x4000000

/-- `sizeof(struct nor_info)`, by which the factories count their tables. -/
abbrev norInfoBytes : Nat := 24

/-- A table in memory, with what lies behind it. -/
def idTable (entries : List NorInfo) (behind : Nat → NorInfo) (i : Nat) : NorInfo :=
  entries.getD i (behind i)

abbrev norCmdReadSr1 : Byte := 0x35
abbrev norCmdWriteSr2 : Byte := 0x31
abbrev norQeBit : Byte := 0x02

abbrev norCmdBlkLockStatus : Byte := 0x3D
abbrev norCmdBlkLock : Byte := 0x36
abbrev norCmdBlkUnlock : Byte := 0x39

variable (cfg : Config) (p : SpiPort δ)

/-- The second byte that a register read gives. -/
def readSr1 (cmd : Byte) (s : δ) : (Int × Byte) × δ :=
  match norTransfer p 1 [cmd] true 2 s with
  | ((ret, reg), s) => if ret ≠ 0 then ((ret, 0), s) else ((0, reg.getD 1 0), s)

def readByte (tbuf : List Byte) (s : δ) : (Int × Byte) × δ :=
  match norTransfer p tbuf.length tbuf true 1 s with
  | ((ret, reg), s) => if ret ≠ 0 then ((ret, 0), s) else ((0, reg.getD 0 0), s)

/-- The quad enable that writes both status bytes with one command. -/
def sr01QuadMode (s : δ) : Int × δ :=
  match readSr1 p norCmdReadSr1 s with
  | ((ret, sr1), s) =>
    if ret ≠ 0 then (ret, s)
    else if sr1 &&& norQeBit ≠ 0 then (0, s)
    else
      match norReadStatus p s with
      | ((ret, sr0), s) =>
        if ret ≠ 0 then (ret, s)
        else
          match norWriteStatus p [sr0, sr1 ||| norQeBit] s with
          | (ret, s) =>
            if ret ≠ 0 then (ret, s)
            else
              match readSr1 p norCmdReadSr1 s with
              | ((ret, sr1), s) =>
                if ret ≠ 0 then (ret, s)
                else if sr1 &&& norQeBit = 0 then (-eInval, s) else (0, s)

/-- The write protect selection that writes both status bytes with one command. -/
def sr01SetWps (bit : Byte) (wps : Bool) (s : δ) : Int × δ :=
  match readSr1 p norCmdReadSr1 s with
  | ((ret, sr1), s) =>
    if ret ≠ 0 then (ret, s)
    else
      let new := if wps then sr1 ||| bit else sr1 &&& ~~~bit
      if sr1 = new then (0, s)
      else
        match norReadStatus p s with
        | ((ret, sr0), s) =>
          if ret ≠ 0 then (ret, s)
          else
            match norWriteStatus p [sr0, new] s with
            | (ret, s) =>
              if ret ≠ 0 then (ret, s)
              else
                match readSr1 p norCmdReadSr1 s with
                | ((ret, sr1), s) =>
                  if ret ≠ 0 then (ret, s)
                  else if sr1 &&& bit ≠ new &&& bit then (-eInval, s) else (0, s)

/-- The quad enable that writes the second status byte alone. -/
def sr2QuadMode (s : δ) : Int × δ :=
  match readSr1 p norCmdReadSr1 s with
  | ((ret, sr2), s) =>
    if ret ≠ 0 then (ret, s)
    else if sr2 &&& norQeBit ≠ 0 then (0, s)
    else
      match norWriteEnable p s with
      | (ret, s) =>
        if ret ≠ 0 then (ret, s)
        else
          match norSend p 2 [norCmdWriteSr2, sr2 ||| norQeBit] s with
          | (ret, s) =>
            if ret ≠ 0 then (ret, s)
            else
              match norWaitReady p 0 500 s with
              | (ret, s) =>
                if ret ≠ 0 then (-eBusy, s)
                else
                  match readSr1 p norCmdReadSr1 s with
                  | ((ret, sr2), s) =>
                    if ret ≠ 0 then (ret, s)
                    else if sr2 &&& norQeBit = 0 then (-eInval, s) else (0, s)

/-- The lock query of a unit: the error of a transfer that fails is returned as a boolean. -/
def blkIslock (tbuf : List Byte) (locked : Byte → Bool) (s : δ) : Bool × δ :=
  match readByte p tbuf s with
  | ((ret, st), s) => if ret ≠ 0 then (ret != 0, s) else (locked st, s)

/-- A lock or an unlock of a unit up to its query: the command behind a write enable. -/
def blkSetLock (tbuf : List Byte) (s : δ) : Int × δ :=
  match norWriteEnable p s with
  | (ret, s) => if ret ≠ 0 then (ret, s) else norSend p tbuf.length tbuf s

def blkUnlock (tbuf : List Byte) (islock : δ → Bool × δ) (s : δ) : Int × δ :=
  match blkSetLock p tbuf s with
  | (ret, s) =>
    if ret ≠ 0 then (ret, s)
    else
      match islock s with
      | (locked, s) => (if locked = true then -eBusy else 0, s)

def blkLock (tbuf : List Byte) (islock : δ → Bool × δ) (s : δ) : Int × δ :=
  match blkSetLock p tbuf s with
  | (ret, s) =>
    if ret ≠ 0 then (ret, s)
    else
      match islock s with
      | (locked, s) => (if locked = true then 0 else -eBusy, s)

def addr3 (cmd : Byte) (addr : Nat) : List Byte :=
  [cmd, .ofNat (addr >>> 16), .ofNat (addr >>> 8), .ofNat addr]

def addr4 (cmd : Byte) (addr : Nat) : List Byte :=
  [cmd, .ofNat (addr >>> 24), .ofNat (addr >>> 16), .ofNat (addr >>> 8), .ofNat addr]

abbrev norWinbondCmdWriteSr3 : Byte := 0x11
abbrev norWinbondCmdReadSr3 : Byte := 0x15
abbrev norWinbondWpsMask : Byte := 0x04
abbrev norWinbondRcvBit : Byte := 0x08

def winbondSetSr3 (bit : Byte) (val : Bool) (s : δ) : Int × δ :=
  match norTransfer p 1 [norWinbondCmdReadSr3] true 2 s with
  | ((ret, reg), s) =>
    if ret ≠ 0 then (ret, s)
    else
      let reg0 := reg.getD 0 0
      let sr3 := if val then reg0 ||| bit else reg0 &&& ~~~bit
      if sr3 = reg0 then (0, s)
      else
        match norWriteEnable p s with
        | (ret, s) =>
          if ret ≠ 0 then (ret, s)
          else
            match norSend p 2 [norWinbondCmdWriteSr3, sr3] s with
            | (ret, s) => if ret ≠ 0 then (ret, s) else norWaitReady p 10 (100 * 1000) s

def norWinbondSetWps : Bool → δ → Int × δ := winbondSetSr3 p norWinbondWpsMask

def norWinbondSetRcv : Bool → δ → Int × δ := winbondSetSr3 p norWinbondRcvBit

def norWinbondBlkIslock (addr : Nat) : δ → Bool × δ :=
  blkIslock p (addr3 norCmdBlkLockStatus addr) fun st => st &&& 1 != 0

def norWinbondBlkUnlock (addr : Nat) : δ → Int × δ :=
  blkUnlock p (addr3 norCmdBlkUnlock addr) (norWinbondBlkIslock p addr)

def norWinbondBlkLock (addr : Nat) : δ → Int × δ :=
  blkLock p (addr3 norCmdBlkLock addr) (norWinbondBlkIslock p addr)

def w25q128jv : NorInfo where
  id := [0xEF, 0x40, 0x18]
  totalSize := sz16M
  flag := supportGeneral ||| supportIndividualProtect
  totalSize_lt := by decide

def norWinbond (behind : Nat → NorInfo) : NorFactory δ where
  factory := 0xEF
  idt := idTable [w25q64jv, w25q128jv] behind
  idtCnt := 2 * norInfoBytes
  idtLen := 2
  init := some fun _ => norWinbondSetRcv p true
  initLock := some fun _ => norWinbondSetWps p true
  lock := some fun _ addr _ => norWinbondBlkLock p addr
  unlock := some fun _ addr _ => norWinbondBlkUnlock p addr
  islock := some fun _ addr _ => norWinbondBlkIslock p addr
  setQuadMode := none
  set4BytesAddr := none

abbrev norXtxWpsBit : Byte := 0x10

def norXtxQuadMode : δ → Int × δ := sr01QuadMode p

def norXtxSetWps : Bool → δ → Int × δ := sr01SetWps p norXtxWpsBit

def norXtxBlkIslock (addr : Nat) : δ → Bool × δ :=
  blkIslock p (addr3 norCmdBlkLockStatus addr) fun st => st &&& 1 != 0

def norXtxBlkUnlock (addr : Nat) : δ → Int × δ :=
  blkUnlock p (addr3 norCmdBlkUnlock addr) (norXtxBlkIslock p addr)

def norXtxBlkLock (addr : Nat) : δ → Int × δ :=
  blkLock p (addr3 norCmdBlkLock addr) (norXtxBlkIslock p addr)

def xt25f128 : NorInfo where
  id := [0x0B, 0x40, 0x18]
  totalSize := sz16M
  flag := supportGeneral ||| supportIndividualProtect
  totalSize_lt := by decide

def norXtx (behind : Nat → NorInfo) : NorFactory δ where
  factory := 0x0B
  idt := idTable [xt25f128] behind
  idtCnt := norInfoBytes
  idtLen := 1
  init := none
  initLock := some fun _ => norXtxSetWps p true
  lock := some fun _ addr _ => norXtxBlkLock p addr
  unlock := some fun _ addr _ => norXtxBlkUnlock p addr
  islock := some fun _ addr _ => norXtxBlkIslock p addr
  setQuadMode := some fun _ => norXtxQuadMode p
  set4BytesAddr := none

abbrev norFmWpsBit : Byte := 0x08

def norFmQuadMode : δ → Int × δ := sr01QuadMode p

def norFmSetWps : Bool → δ → Int × δ := sr01SetWps p norFmWpsBit

def norFmBlkIslock (addr : Nat) : δ → Bool × δ :=
  blkIslock p (addr3 norCmdBlkLockStatus addr) fun st => st &&& 1 != 0

def norFmBlkUnlock (addr : Nat) : δ → Int × δ :=
  blkUnlock p (addr3 norCmdBlkUnlock addr) (norFmBlkIslock p addr)

def norFmBlkLock (addr : Nat) : δ → Int × δ :=
  blkLock p (addr3 norCmdBlkLock addr) (norFmBlkIslock p addr)

def fm25w128 : NorInfo where
  id := [0xA1, 0x28, 0x18]
  totalSize := sz16M
  flag := supportGeneral ||| supportIndividualProtect
  totalSize_lt := by decide

def fm25q128a : NorInfo where
  id := [0xA1, 0x40, 0x18]
  totalSize := sz16M
  flag := supportGeneral ||| supportIndividualProtect
  totalSize_lt := by decide

def norFm (behind : Nat → NorInfo) : NorFactory δ where
  factory := 0xA1
  idt := idTable [fm25w128, fm25q128a] behind
  idtCnt := 2 * norInfoBytes
  idtLen := 2
  init := none
  initLock := some fun _ => norFmSetWps p true
  lock := some fun _ addr _ => norFmBlkLock p addr
  unlock := some fun _ addr _ => norFmBlkUnlock p addr
  islock := some fun _ addr _ => norFmBlkIslock p addr
  setQuadMode := some fun _ => norFmQuadMode p
  set4BytesAddr := none

abbrev norMxicCmdRdscur : Byte := 0x2B
abbrev norMxicCmdWpsel : Byte := 0x68
abbrev norMxicCmdEsspb : Byte := 0xE4
abbrev norMxicCmdRddpb : Byte := 0xE0
abbrev norMxicCmdWrdpb : Byte := 0xE1
abbrev norMxicWpselBit : Byte := 0x80
abbrev norMxicQeBit : Byte := 0x40
abbrev norMxicDpbLock : Byte := 0xFF
abbrev norMxicDpbUnlock : Byte := 0x00
/-- The four BP bits in their place. -/
abbrev norMxicBpMask : Byte := 0x3C

def isWrlockWork (nor : NorFlash) : Bool :=
  cfg.writeLock && (nor.info.map fun info => info.has supportIndividualProtect).getD false

def norMxicQuadMode (nor : NorFlash) (s : δ) : Int × δ :=
  match norReadStatus p s with
  | ((ret, sr), s) =>
    if ret ≠ 0 then (ret, s)
    else if sr &&& norMxicQeBit ≠ 0 then (0, s)
    else
      let sr := sr ||| norMxicQeBit
      let sr := if isWrlockWork cfg nor then sr &&& ~~~norMxicBpMask else sr
      match norWriteStatus p [sr] s with
      | (ret, s) =>
        if ret ≠ 0 then (ret, s)
        else
          match norReadStatus p s with
          | ((ret, sr), s) =>
            if ret ≠ 0 then (ret, s)
            else if sr &&& norMxicQeBit = 0 then (-eInval, s) else (0, s)

def norMxicSetWps (s : δ) : Int × δ :=
  match readByte p [norMxicCmdRdscur] s with
  | ((ret, sr), s) =>
    if ret ≠ 0 then (ret, s)
    else if sr &&& norMxicWpselBit ≠ 0 then (0, s)
    else
      match norWriteEnable p s with
      | (ret, s) =>
        if ret ≠ 0 then (ret, s)
        else
          match norSendCmd p norMxicCmdWpsel s with
          | (ret, s) =>
            if ret ≠ 0 then (ret, s)
            else
              match norWaitReady p 10 (100 * 1000) s with
              | (ret, s) =>
                if ret ≠ 0 then (ret, s)
                else
                  match readByte p [norMxicCmdRdscur] s with
                  | ((ret, sr), s) =>
                    if ret ≠ 0 then (ret, s)
                    else (if sr &&& norMxicWpselBit ≠ 0 then 0 else 1, s)

def norMxicResetSpb (s : δ) : Int × δ :=
  match norWriteEnable p s with
  | (ret, s) =>
    if ret ≠ 0 then (ret, s)
    else
      match norSendCmd p norMxicCmdEsspb s with
      | (ret, s) => if ret ≠ 0 then (ret, s) else norWaitReady p 10 500 s

def norMxicInitLock (s : δ) : Int × δ :=
  match norMxicSetWps p s with
  | (ret, s) => if ret ≠ 0 then (ret, s) else norMxicResetSpb p s

def norMxicBlkIslock (addr : Nat) : δ → Bool × δ :=
  blkIslock p (addr4 norMxicCmdRddpb addr) fun st => st == 0xFF

def norMxicBlkUnlock (addr : Nat) : δ → Int × δ :=
  blkUnlock p (addr4 norMxicCmdWrdpb addr ++ [norMxicDpbUnlock]) (norMxicBlkIslock p addr)

/-- Here the query is compared with `false`. -/
def norMxicBlkLock (addr : Nat) (s : δ) : Int × δ :=
  match blkSetLock p (addr4 norMxicCmdWrdpb addr ++ [norMxicDpbLock]) s with
  | (ret, s) =>
    if ret ≠ 0 then (ret, s)
    else
      match norMxicBlkIslock p addr s with
      | (locked, s) => (if locked = false then -eBusy else 0, s)

def mx25l6433f : NorInfo where
  id := [0xC2, 0x20, 0x17]
  totalSize := sz8M
  flag := supportGeneral ||| useIoProgX4 ||| supportIndividualProtect
  totalSize_lt := by decide

def mx25l12833f : NorInfo where
  id := [0xC2, 0x20, 0x18]
  totalSize := sz16M
  flag := supportGeneral ||| useIoProgX4 ||| supportIndividualProtect
  totalSize_lt := by decide

def mx25l51234g : NorInfo where
  id := [0xC2, 0x20, 0x1A]
  totalSize := sz64M
  flag := supportGeneral ||| useIoProgX4
  totalSize_lt := by decide

def norMxic (behind : Nat → NorInfo) : NorFactory δ where
  factory := 0xC2
  idt := idTable [mx25l6433f, mx25l12833f, mx25l51234g] behind
  idtCnt := 3 * norInfoBytes
  idtLen := 3
  init := none
  initLock := some fun _ => norMxicInitLock p
  lock := some fun _ addr _ => norMxicBlkLock p addr
  unlock := some fun _ addr _ => norMxicBlkUnlock p addr
  islock := some fun _ addr _ => norMxicBlkIslock p addr
  setQuadMode := some (norMxicQuadMode cfg p)
  set4BytesAddr := none

def norXmcReadStatus2 : δ → (Int × Byte) × δ := readSr1 p norCmdReadSr1

def norXmcWriteStatus2 : List Byte → δ → Int × δ := writeSr p norCmdWriteSr2

def norXmcQuadMode (s : δ) : Int × δ :=
  match norXmcReadStatus2 p s with
  | ((ret, sr), s) =>
    if ret ≠ 0 then (ret, s)
    else
      match norXmcWriteStatus2 p [sr ||| norQeBit] s with
      | (ret, s) =>
        if ret ≠ 0 then (ret, s)
        else
          match norXmcReadStatus2 p s with
          | ((ret, sr), s) =>
            if ret ≠ 0 then (ret, s)
            else if sr &&& norQeBit = 0 then (-eInval, s) else (0, s)

def xm25qh128c : NorInfo where
  id := [0x20, 0x40, 0x18]
  totalSize := sz16M
  flag := supportGeneral
  totalSize_lt := by decide

/-- Its lock hooks do nothing, and the query says that everything is locked. -/
def norXmc (behind : Nat → NorInfo) : NorFactory δ where
  factory := 0x20
  idt := idTable [xm25qh128c] behind
  idtCnt := norInfoBytes
  idtLen := 1
  init := some fun _ s => (0, s)
  initLock := some fun _ s => (0, s)
  lock := some fun _ _ _ s => (0, s)
  unlock := some fun _ _ _ s => (0, s)
  islock := some fun _ _ _ s => (true, s)
  setQuadMode := some fun _ => norXmcQuadMode p
  set4BytesAddr := none

/-- A factory that has at most a quad mode. -/
def unlockedFactory (factory : Byte) (entries : List NorInfo) (behind : Nat → NorInfo)
    (setQuadMode : Option (NorFlash → δ → Int × δ)) : NorFactory δ where
  factory := factory
  idt := idTable entries behind
  idtCnt := entries.length * norInfoBytes
  idtLen := entries.length
  init := none
  initLock := none
  lock := none
  unlock := none
  islock := none
  setQuadMode := setQuadMode
  set4BytesAddr := none

def norGdQuadMode : δ → Int × δ := sr2QuadMode p

def norPuyaQuadMode : δ → Int × δ := sr2QuadMode p

def norZettaQuadMode : δ → Int × δ := sr2QuadMode p

/-- An entry with the general flags. -/
def generalInfo (id : List Byte) (totalSize : Nat) (h : totalSize < 0x100000000) : NorInfo where
  id := id
  totalSize := totalSize
  flag := supportGeneral
  totalSize_lt := h

/-- The table has both gd chips at 16M. -/
def norGd (behind : Nat → NorInfo) : NorFactory δ :=
  unlockedFactory 0xC8 [generalInfo [0xC8, 0x40, 0x18] sz16M (by decide),
    generalInfo [0xC8, 0x40, 0x19] sz16M (by decide)] behind (some fun _ => norGdQuadMode p)

def norPuya (behind : Nat → NorInfo) : NorFactory δ :=
  unlockedFactory 0x85 [generalInfo [0x85, 0x60, 0x17] sz8M (by decide)] behind
    (some fun _ => norPuyaQuadMode p)

def norZetta (behind : Nat → NorInfo) : NorFactory δ :=
  unlockedFactory 0xBA [generalInfo [0xBA, 0x32, 0x17] sz8M (by decide)] behind
    (some fun _ => norZettaQuadMode p)

def norEsmt (behind : Nat → NorInfo) : NorFactory δ :=
  unlockedFactory 0x1C [generalInfo [0x1C, 0x70, 0x18] sz16M (by decide)] behind none

/-- The factories of the driver, each with the memory behind its table. -/
def norFactory (behind : FactoryName → Nat → NorInfo) : FactoryName → NorFactory δ
  | .gd => norGd p (behind .gd)
  | .mxic => norMxic cfg p (behind .mxic)
  | .winbond => norWinbond p (behind .winbond)
  | .xtx => norXtx p (behind .xtx)
  | .esmt => norEsmt (behind .esmt)
  | .fm => norFm p (behind .fm)
  | .xmc => norXmc (p) (behind .xmc)
  | .puya => norPuya p (behind .puya)
  | .zetta => norZetta p (behind .zetta)

end D1Flash
