import D1Flash.Spinor.WrLock

namespace D1Flash
set_option autoImplicit true

variable (cfg : Config) (p : SpiPort δ) (nor : Nor δ)

def norEraseDo (cmd : Byte) (addr : Nat) (s : δ) : Int × δ :=
  match norWriteEnable p s with
  | (ret, s) =>
    if ret ≠ 0 then (ret, s)
    else
      let tbuf := cmdAddr nor.toNorFlash cmd addr
      norSend p tbuf.length tbuf s

/-- The body the block erases share: open the range, erase, wait, close all. -/
def norEraseBlk (cmd : Byte) (size ms addr : Nat) (s : δ) : Int × δ :=
  match if cfg.writeLock then norWrUnlock nor addr size s else (0, s) with
  | (ret, s) =>
    if ret ≠ 0 then (-1, s)
    else
      match norEraseDo p nor cmd addr s with
      | (ret, s) =>
        match if ret ≠ 0 then (ret, s) else norWaitReady p ms maxWaitLoop s with
        | (ret, s) => (ret, if cfg.writeLock then (norWrLockAll p s).2 else s)

def norErase4K : Nat → δ → Int × δ :=
  norEraseBlk cfg p nor (cmd4Bytes nor.toNorFlash norCmdEraseBlk4K norCmdEraseBlk4K4B) sz4K 30

def norErase32K : Nat → δ → Int × δ :=
  norEraseBlk cfg p nor (cmd4Bytes nor.toNorFlash norCmdEraseBlk32K norCmdEraseBlk32K4B) sz32K 120

def norErase64K : Nat → δ → Int × δ :=
  norEraseBlk cfg p nor (cmd4Bytes nor.toNorFlash norCmdEraseBlk64K norCmdEraseBlk64K4B) sz64K 150

def norEraseAll (s : δ) : Int × δ :=
  match nor.info with
  | none => (-eBusy, s)
  | some _ =>
    let s := if cfg.writeLock then (norWrUnlockAll p s).2 else s
    match norWriteEnable p s with
    | (ret, s) =>
      match if ret ≠ 0 then (ret, s) else norSendCmd p norCmdEraseChip s with
      | (ret, s) =>
        match if ret ≠ 0 then (ret, s) else norWaitReady p (26 * 1000) maxWaitLoop s with
        | (ret, s) => (ret, if cfg.writeLock then (norWrLockAll p s).2 else s)

/-- The erase commands a round of `nor_erase` chooses from. -/
inductive EraseSize where
  | blk64K
  | blk32K
  | blk4K
  deriving DecidableEq, Repr

def EraseSize.bytes : EraseSize → Nat
  | .blk64K => sz64K
  | .blk32K => sz32K
  | .blk4K => sz4K

/-- The three guards of a round of `nor_erase`; `none` is "no erase cmd matched". -/
def eraseCmdFor (info : NorInfo) (addr size : Nat) : Option EraseSize :=
  if size ≥ sz64K ∧ addr % sz64K = 0 ∧ info.has support64KEraseBlk ∧ ¬ info.has use4KErase then
    some .blk64K
  else if size ≥ sz32K ∧ addr % sz32K = 0 ∧ info.has support32KEraseBlk ∧
      ¬ info.has use4KErase then
    some .blk32K
  else if size ≥ sz4K ∧ addr % sz4K = 0 ∧ info.has support4KEraseBlk then
    some .blk4K
  else none

def norEraseBy : EraseSize → Nat → δ → Int × δ
  | .blk64K => norErase64K cfg p nor
  | .blk32K => norErase32K cfg p nor
  | .blk4K => norErase4K cfg p nor

/-- The `while (size)` loop of `nor_erase`; every round takes at least one byte. -/
def norEraseLoop (info : NorInfo) : Nat → Nat → Nat → δ → Int × δ
  | 0, _, size, s => (if size ≠ 0 then -eInval else 0, s)
  | fuel + 1, addr, size, s =>
    if size = 0 then (0, s)
    else
      match eraseCmdFor info addr size with
      | none => (-eInval, s)
      | some blk =>
        match norEraseBy cfg p nor blk addr s with
        | (ret, s) =>
          if ret ≠ 0 then (ret, s)
          else norEraseLoop info fuel (u32 (addr + blk.bytes)) (size - blk.bytes) s

def norErase (addr size : Nat) (s : δ) : Int × δ :=
  match nor.info with
  | none => (-eBusy, s)
  | some info =>
    if size % sz4K ≠ 0 then (-eInval, s)
    else if u32 (addr + size) > nor.totalSize then (-eInval, s)
    else if addr = 0 ∧ size = nor.totalSize then norEraseAll cfg p nor s
    else norEraseLoop cfg p nor info size addr size s

def norReadDo (addr len : Nat) (s : δ) : (Int × List Byte) × δ :=
  if len > norPageSize then ((-eInval, []), s)
  else norTransfer p nor.rCmdSlen (cmdAddr nor.toNorFlash nor.cmdRead addr) true len s

/-- `MIN(align_addr - addr, len)`: what of a request lies in the page of its address. -/
def inPage (addr len : Nat) : Nat :=
  min (u32Sub (align (u32 (addr + 1)) norPageSize) addr) len

theorem inPage_eq (h : addr < 0x100000000) :
    inPage addr len = min (norPageSize - addr % norPageSize) len := by
  rw [inPage, page_rest h]

/-- The `while (len)` loop of `nor_read`; `ret` is what the last round left. -/
def norReadLoop : Nat → Nat → Nat → Int → List Byte → δ → (Int × List Byte) × δ
  | 0, _, _, ret, buf, s => ((ret, buf), s)
  | fuel + 1, addr, len, ret, buf, s =>
    if len = 0 then ((ret, buf), s)
    else
      match norReadDo p nor addr (inPage addr len) s with
      | ((ret, rx), s) =>
        if ret ≠ 0 then ((ret, buf), s)
        else
          norReadLoop fuel (u32 (addr + inPage addr len)) (len - inPage addr len) ret (buf ++ rx) s

/-- `nor_read` gives back the part of the buffer that it filled. -/
def norRead (addr len : Nat) (s : δ) : (Int × List Byte) × δ :=
  match nor.info with
  | none => ((-eBusy, []), s)
  | some _ =>
    match norWaitReady p 0 500 s with
    | (ret, s) =>
      if ret ≠ 0 then ((-eBusy, []), s) else norReadLoop p nor len addr len (-eBusy) [] s

def norWriteDo (addr : Nat) (buf : List Byte) (s : δ) : Int × δ :=
  if buf.length > norPageSize then (-eInval, s)
  else
    match norWriteEnable p s with
    | (ret, s) =>
      if ret ≠ 0 then (ret, s)
      else
        match norSend p nor.wCmdSlen (cmdAddr nor.toNorFlash nor.cmdWrite addr ++ buf) s with
        | (ret, s) => if ret ≠ 0 then (ret, s) else norWaitReady p 0 (100 * 1000) s

/-- The `while (len)` loop of `nor_write`; `buf` is what is left to write. -/
def norWriteLoop : Nat → Nat → List Byte → Int → δ → Int × δ
  | 0, _, _, ret, s => (ret, s)
  | fuel + 1, addr, buf, ret, s =>
    if buf.length = 0 then (ret, s)
    else
      let wlen := inPage addr buf.length
      match if cfg.writeLock then norWrUnlock nor addr buf.length s else (0, s) with
      | (ret, s) =>
        if ret ≠ 0 then (ret, s)
        else
          match norWriteDo p nor addr (buf.take wlen) s with
          | (ret, s) =>
            if ret ≠ 0 then (ret, s)
            else
              match if cfg.writeLock then norWrLockAll p s else (0, s) with
              | (ret, s) =>
                if ret ≠ 0 then (ret, s)
                else norWriteLoop fuel (u32 (addr + wlen)) (buf.drop wlen) ret s

def norWrite (addr : Nat) (buf : List Byte) (s : δ) : Int × δ :=
  match nor.info with
  | none => (-eBusy, s)
  | some _ =>
    match norWaitReady p 0 500 s with
    | (ret, s) =>
      if ret ≠ 0 then (-eBusy, s)
      else norWriteLoop cfg p nor buf.length addr buf (-eBusy) s

end D1Flash
