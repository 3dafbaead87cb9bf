import D1Flash.Lib.NorArray
import D1Flash.Spinor.Core

namespace D1Flash
open NorArray (put slice)
set_option autoImplicit true

abbrev cacheSize : Nat := sz64K
abbrev invalidCacheAddr : Nat := 0xFFFFFFFF

/-- The operations of the core that the cache stands on. -/
structure NorOps (σ : Type) where
  norRead : Nat → Nat → σ → (Int × List Byte) × σ
  norWrite : Nat → List Byte → σ → Int × σ
  norErase : Nat → Nat → σ → Int × σ

def coreOps (cfg : Config) (p : SpiPort δ) (nor : Nor δ) : NorOps δ where
  norRead := norRead p nor
  norWrite := norWrite cfg p nor
  norErase := norErase cfg p nor

/-- `struct nor_cache` with the `cache_t` in it, once `nor_cache_init` has set it up. -/
structure NorCache where
  buf : Nat → Byte
  addr : Nat
  lastWrite : Nat
  bitmapPage : Nat → Bool
  pageCnt : Nat
  bitmapBlk : Nat → Bool
  blkCnt : Nat

def setBit (nr : Nat) (bits : Nat → Bool) : Nat → Bool := fun i => i == nr || bits i

namespace NorCache

def clearCache (c : NorCache) : NorCache :=
  { c with buf := fun _ => 0xFF, addr := invalidCacheAddr }

/-- `init_cache` and `init_bitmap`. -/
def fresh (nor : NorFlash) (lastWrite : Nat) : NorCache where
  buf := fun _ => 0xFF
  addr := invalidCacheAddr
  lastWrite := lastWrite
  bitmapPage := fun _ => false
  pageCnt := cacheSize / nor.pageSize
  bitmapBlk := fun _ => false
  blkCnt := cacheSize / nor.blkSize

def checkCacheAddr (c : NorCache) (addr len : Nat) : Int :=
  if c.addr = invalidCacheAddr then -1
  else if alignDown addr cacheSize ≠ c.addr then -1
  else if alignDown (u32Sub (u32 (addr + len)) 1) cacheSize ≠ c.addr then -1
  else 0

def setCacheAddr (c : NorCache) (addr : Nat) : NorCache :=
  { c with addr := alignDown addr cacheSize }

def getAddrByPage (c : NorCache) (nor : NorFlash) (page : Nat) : Nat :=
  u32 (c.addr + page * nor.pageSize)

def getAddrByBlk (c : NorCache) (nor : NorFlash) (blk : Nat) : Nat :=
  u32 (c.addr + blk * nor.blkSize)

end NorCache

/-- The test of a request that leaves a cache window. -/
def overCache (addr len : Nat) : Bool :=
  len > cacheSize || u32 (u32Sub addr (alignDown addr cacheSize) + len) > cacheSize

variable (ops : NorOps σ) (nor : NorFlash)

/-- The loop of `nor_flush_erase`: `start` is the first block of the run of marked blocks that
ends before `stop`. -/
def norFlushEraseLoop (c : NorCache) : Nat → Nat → Nat → σ → Int × σ
  | 0, start, stop, s =>
    if start ≠ stop then
      ops.norErase (c.getAddrByBlk nor start) (u32 ((stop - start) * nor.blkSize)) s
    else (0, s)
  | n + 1, start, stop, s =>
    if c.bitmapBlk stop then norFlushEraseLoop c n start (stop + 1) s
    else if start = stop then norFlushEraseLoop c n (stop + 1) (stop + 1) s
    else
      match ops.norErase (c.getAddrByBlk nor start) (u32 ((stop - start) * nor.blkSize)) s with
      | (ret, s) => if ret ≠ 0 then (ret, s) else norFlushEraseLoop c n (stop + 1) (stop + 1) s

def norFlushErase (c : NorCache) (s : σ) : Int × NorCache × σ :=
  match norFlushEraseLoop ops nor c c.blkCnt 0 0 s with
  | (ret, s) => if ret ≠ 0 then (ret, c, s) else (0, { c with bitmapBlk := fun _ => false }, s)

/-- The loop of `nor_flush_write`, with `n` rounds left. -/
def norFlushWriteLoop (c : NorCache) : Nat → σ → Int × σ
  | 0, s => (0, s)
  | n + 1, s =>
    let i := c.pageCnt - (n + 1)
    let page := (i + c.lastWrite + 1) % c.pageCnt
    if c.bitmapPage page then
      match ops.norWrite (c.getAddrByPage nor page)
          (slice c.buf (page * nor.pageSize) nor.pageSize) s with
      | (ret, s) => if ret ≠ 0 then (ret, s) else norFlushWriteLoop c n s
    else norFlushWriteLoop c n s

def norFlushWrite (c : NorCache) (s : σ) : Int × NorCache × σ :=
  match norFlushWriteLoop ops nor c c.pageCnt s with
  | (ret, s) => if ret ≠ 0 then (ret, c, s) else (0, { c with bitmapPage := fun _ => false }, s)

def norFlushCache (c : NorCache) (s : σ) : Int × NorCache × σ :=
  if c.addr = invalidCacheAddr then (0, c, s)
  else
    match norFlushErase ops nor c s with
    | (ret, c, s) =>
      if ret ≠ 0 then (ret, c, s)
      else
        match norFlushWrite ops nor c s with
        | (ret, c, s) => if ret ≠ 0 then (ret, c, s) else (0, c.clearCache, s)

/-- Flush and move the window when the request misses it. -/
def norCacheMove (addr len : Nat) (c : NorCache) (s : σ) : Int × NorCache × σ :=
  if c.checkCacheAddr addr len ≠ 0 then
    match norFlushCache ops nor c s with
    | (ret, c, s) => if ret ≠ 0 then (ret, c, s) else (0, c.setCacheAddr addr, s)
  else (0, c, s)

/-- The page loop of `nor_cache_write`; `off` is `pbuf - c->buf`. -/
def norCacheWriteLoop : Nat → Nat → Nat → List Byte → NorCache → NorCache
  | 0, _, _, _, c => c
  | fuel + 1, page, off, buf, c =>
    if buf.length = 0 then c
    else
      let size := min buf.length nor.pageSize
      norCacheWriteLoop fuel (page + 1) (off + size) (buf.drop size) { c with
        buf := put c.buf off (buf.take size)
        bitmapPage := setBit page c.bitmapPage
        lastWrite := page }

def norCacheWrite (addr : Nat) (buf : List Byte) (c : NorCache) (s : σ) : Int × NorCache × σ :=
  if addr % nor.pageSize ≠ 0 then (-eInval, c, s)
  else if buf.length % nor.pageSize ≠ 0 then (-eInval, c, s)
  else if overCache addr buf.length then
    match norFlushCache ops nor c s with
    | (ret, c, s) =>
      if ret ≠ 0 then (ret, c, s)
      else
        match ops.norWrite addr buf s with
        | (ret, s) => (ret, c, s)
  else
    match norCacheMove ops nor addr buf.length c s with
    | (ret, c, s) =>
      if ret ≠ 0 then (ret, c, s)
      else
        let off := u32Sub addr c.addr
        (0, norCacheWriteLoop nor buf.length (off / nor.pageSize) off buf c, s)

/-- The page loop of `nor_cache_read`: the block of every page is that of `addr`. -/
def norCacheReadLoop (c : NorCache) (addr : Nat) :
    Nat → Nat → Nat → Nat → List Byte → σ → (Int × List Byte) × σ
  | 0, _, _, _, out, s => ((0, out), s)
  | fuel + 1, page, off, len, out, s =>
    if len = 0 then ((0, out), s)
    else
      let size := min len nor.pageSize
      if c.bitmapPage page then
        norCacheReadLoop c addr fuel (page + 1) (off + size) (len - size)
          (out ++ slice c.buf off size) s
      else
        let blk := u32Sub addr c.addr / nor.blkSize
        if c.bitmapBlk blk then
          norCacheReadLoop c addr fuel (page + 1) (off + size) (len - size)
            (out ++ List.replicate size 0xFF) s
        else
          match ops.norRead (c.getAddrByPage nor page) size s with
          | ((ret, rx), s) =>
            if ret ≠ 0 then ((ret, out), s)
            else norCacheReadLoop c addr fuel (page + 1) (off + size) (len - size) (out ++ rx) s

def norCacheRead (addr len : Nat) (c : NorCache) (s : σ) : (Int × List Byte) × NorCache × σ :=
  if addr % nor.pageSize ≠ 0 then ((-eInval, []), c, s)
  else if len % nor.pageSize ≠ 0 then ((-eInval, []), c, s)
  else if overCache addr len then
    match norFlushCache ops nor c s with
    | (ret, c, s) =>
      if ret ≠ 0 then ((ret, []), c, s)
      else
        match ops.norRead addr len s with
        | (r, s) => (r, c, s)
  else if c.checkCacheAddr addr len ≠ 0 then
    match ops.norRead addr len s with
    | (r, s) => (r, c, s)
  else
    let off := u32Sub addr c.addr
    match norCacheReadLoop ops nor c addr len (off / nor.pageSize) off len [] s with
    | (r, s) => (r, c, s)

def norCacheSync (c : NorCache) (s : σ) : Int × NorCache × σ :=
  match norFlushCache ops nor c s with
  | (ret, c, s) => (if ret ≠ 0 then -1 else 0, c, s)

/-- The block loop of `nor_cache_erase`. -/
def norCacheEraseLoop : Nat → Nat → Nat → NorCache → NorCache
  | 0, _, _, c => c
  | fuel + 1, blk, len, c =>
    if len = 0 then c
    else norCacheEraseLoop fuel (blk + 1) (len - nor.blkSize)
      { c with bitmapBlk := setBit blk c.bitmapBlk }

def norCacheErase (addr len : Nat) (c : NorCache) (s : σ) : Int × NorCache × σ :=
  if addr % nor.blkSize ≠ 0 then (-eInval, c, s)
  else if len % nor.blkSize ≠ 0 then (-eInval, c, s)
  else if overCache addr len then
    match norFlushErase ops nor c s with
    | (ret, c, s) =>
      if ret ≠ 0 then (ret, c, s)
      else
        match ops.norErase addr len s with
        | (ret, s) => (ret, c, s)
  else
    match norCacheMove ops nor addr len c s with
    | (ret, c, s) =>
      if ret ≠ 0 then (ret, c, s)
      else (0, norCacheEraseLoop nor len (u32Sub addr c.addr / nor.blkSize) len c, s)

end D1Flash
