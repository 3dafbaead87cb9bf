import D1Flash.Lib.LinkedHeap
import Mathlib.Algebra.GroupWithZero.Nat
import Mathlib.Data.List.FinRange

namespace D1Flash
open LinkedHeap
set_option autoImplicit true

abbrev nrMaxChan : Nat := 8
abbrev startChanOffset : Nat := 0
abbrev highChan : Nat := 8

abbrev ChanId := Fin nrMaxChan

instance : NeZero nrMaxChan := ⟨Nat.succ_ne_zero _⟩

abbrev halDmaStatusInvalidParameter : Int := -22
abbrev halDmaStatusNoMem : Int := -12
abbrev halDmaStatusErrPerm : Int := -1
abbrev halDmaStatusOk : Int := 0

abbrev halDmaChanStatusBusy : Int := 0
abbrev halDmaChanStatusFree : Int := 1

/-- `enum dma_status`, as far as `hal_dma_tx_status` uses it. -/
abbrev dmaComplete : Int := 0
abbrev dmaInProgress : Int := 1

def linkEnd : BitVec 32 := 0xFFFFF800

/-- The registers, by their offset. -/
def dmaIrqEn (x : Nat) : Nat := 4 * x
def dmaEnable (x : Nat) : Nat := 0x100 + (x + startChanOffset) * 0x40
def dmaPause (x : Nat) : Nat := 0x104 + (x + startChanOffset) * 0x40
def dmaLliAddr (x : Nat) : Nat := 0x108 + (x + startChanOffset) * 0x40
def dmaOpMode (x : Nat) : Nat := 0x128 + (x + startChanOffset) * 0x40

def irqPkg : BitVec 32 := 0x02
def irqQueue : BitVec 32 := 0x04

def srcHsMask : BitVec 32 := 1 <<< 2
def dstHsMask : BitVec 32 := 1 <<< 3

def chanStart : BitVec 32 := 1
def chanStop : BitVec 32 := 0
def chanPause : BitVec 32 := 1
def chanResume : BitVec 32 := 0

def srcWidth (x : BitVec 32) : BitVec 32 := x <<< 9
def srcBurst (x : BitVec 32) : BitVec 32 := x <<< 6
def srcIoMode : BitVec 32 := 1 <<< 8
def srcLinearMode : BitVec 32 := 0 <<< 8
def srcDrq (x : BitVec 32) : BitVec 32 := x
def dstWidth (x : BitVec 32) : BitVec 32 := x <<< 25
def dstBurst (x : BitVec 32) : BitVec 32 := x <<< 22
def dstIoMode : BitVec 32 := 1 <<< 24
def dstLinearMode : BitVec 32 := 0 <<< 24
def dstDrq (x : BitVec 32) : BitVec 32 := x <<< 16
def normalWait : BitVec 32 := 8

def drqsrcSdram : BitVec 32 := 1
def drqdstSdram : BitVec 32 := 1

def getSrcDrq (x : BitVec 32) : BitVec 32 := x &&& 0x000000ff
def getDstDrq (x : BitVec 32) : BitVec 32 := x &&& 0x00ff0000

def shiftIrqMask (val : BitVec 32) (ch : Nat) : BitVec 32 :=
  if ch + startChanOffset ≥ highChan then val <<< ((ch + startChanOffset - highChan) * 4)
  else val <<< ((ch + startChanOffset) * 4)

structure DmaLli where
  cfg : BitVec 32
  src : BitVec 32
  dst : BitVec 32
  len : BitVec 32
  para : BitVec 32
  pLln : BitVec 32
  vlln : Ptr
  deriving DecidableEq

inductive DmaSlaveBuswidth
  | undefined
  | bytes1
  | bytes2
  | bytes3
  | bytes4
  | bytes8
  | bytes16
  | bytes32
  | bytes64
  deriving DecidableEq

inductive DmaTransferDirection
  | memToMem
  | memToDev
  | devToMem
  | devToDev
  | transNone
  deriving DecidableEq

structure DmaSlaveConfig where
  direction : DmaTransferDirection
  srcAddr : BitVec 64
  dstAddr : BitVec 64
  srcAddrWidth : DmaSlaveBuswidth
  dstAddrWidth : DmaSlaveBuswidth
  srcMaxburst : BitVec 32
  dstMaxburst : BitVec 32
  slaveId : BitVec 32
  deriving DecidableEq

structure DmaChan where
  used : Bool
  chanCount : Nat
  cyclic : Bool
  cfg : DmaSlaveConfig
  periodsPos : BitVec 32
  bufLen : BitVec 32
  desc : Ptr
  irqType : BitVec 32
  callback : Ptr
  callbackParam : Ptr
  deriving DecidableEq

/-- The memory of the descriptors, `dma_chan_source`, and the registers the driver writes. -/
structure DmaSys where
  heap : Heap DmaLli
  chans : ChanId → DmaChan
  regs : Nat → BitVec 32

/-- `dma_chan_source` after the `memset` of `hal_dma_init`. -/
def DmaSlaveConfig.zero : DmaSlaveConfig :=
  { direction := .memToMem, srcAddr := 0, dstAddr := 0, srcAddrWidth := .undefined,
    dstAddrWidth := .undefined, srcMaxburst := 0, dstMaxburst := 0, slaveId := 0 }

def DmaChan.zero : DmaChan :=
  { used := false, chanCount := 0, cyclic := false, cfg := .zero, periodsPos := 0, bufLen := 0,
    desc := none, irqType := 0, callback := none, callbackParam := none }

def DmaSys.init (regs : Nat → BitVec 32) : DmaSys :=
  { heap := ∅, chans := fun _ => .zero, regs }

def vaToPa : Ptr → BitVec 32
  | none => 0
  | some a => .ofNat 32 a

def convertBuswidth : DmaSlaveBuswidth → BitVec 32
  | .bytes2 => 1
  | .bytes4 => 2
  | .bytes8 => 3
  | _ => 0

def convertBurst (maxburst : BitVec 32) : BitVec 32 :=
  if maxburst = 1 then 0
  else if maxburst = 4 then 1
  else if maxburst = 8 then 2
  else if maxburst = 16 then 3
  else 0

/-- `sunxi_cfg_lli` of an item that is all 0. -/
def sunxiCfgLli (src dst len : BitVec 32) (config : DmaSlaveConfig) : DmaLli :=
  { cfg := srcBurst config.srcMaxburst ||| srcWidth (convertBuswidth config.srcAddrWidth) |||
      dstBurst config.dstMaxburst ||| dstWidth (convertBuswidth config.dstAddrWidth)
    src, dst, len
    para := normalWait
    pLln := 0
    vlln := none }

def DmaLli.zero : DmaLli :=
  { cfg := 0, src := 0, dst := 0, len := 0, para := 0, pLln := 0, vlln := none }

def DmaLli.orCfg (l : DmaLli) (bits : BitVec 32) : DmaLli := { l with cfg := l.cfg ||| bits }

namespace DmaSys

def setChan (s : DmaSys) (c : ChanId) (chan : DmaChan) : DmaSys :=
  { s with chans := Function.update s.chans c chan }

def halReadl (s : DmaSys) (off : Nat) : BitVec 32 := s.regs off

def halWritel (s : DmaSys) (v : BitVec 32) (off : Nat) : DmaSys :=
  { s with regs := Function.update s.regs off v }

@[simp] theorem setChan_self (s : DmaSys) (c : ChanId) (chan : DmaChan) :
    (s.setChan c chan).chans c = chan := Function.update_self ..

theorem setChan_of_ne (s : DmaSys) (chan : DmaChan) (h : j ≠ c) :
    (s.setChan c chan).chans j = s.chans j := Function.update_of_ne h ..

@[simp] theorem setChan_heap (s : DmaSys) (c : ChanId) (chan : DmaChan) :
    (s.setChan c chan).heap = s.heap := rfl

@[simp] theorem halWritel_chans (s : DmaSys) (v : BitVec 32) (off : Nat) :
    (s.halWritel v off).chans = s.chans := rfl

@[simp] theorem halWritel_heap (s : DmaSys) (v : BitVec 32) (off : Nat) :
    (s.halWritel v off).heap = s.heap := rfl

/-- The descriptors from `desc` along `vlln`. -/
def descs (s : DmaSys) (c : ChanId) : Option (List (Addr × DmaLli)) :=
  walk DmaLli.vlln s.heap s.heap.keys.length (s.chans c).desc

/-- `sunxi_lli_list` of a new item, which becomes the head of the channel or follows `prev`. The
links it gets as the head first are overwritten at the end of the function. -/
def lliList (prev : Ptr) (next : Addr) (item : DmaLli) (c : ChanId) (s : DmaSys) :
    Option DmaSys :=
  let item := { item with pLln := linkEnd, vlln := none }
  match prev with
  | none =>
    some ({ s with heap := s.heap.insert next item }.setChan c { s.chans c with desc := some next })
  | some p =>
    match s.heap.lookup p with
    | none => none
    | some l =>
      some { s with heap := (s.heap.insert p
        { l with pLln := vaToPa (some next), vlln := some next }).insert next item }

/-- The loop that gives back the descriptors of a channel. -/
def freeDescs (c : ChanId) (s : DmaSys) : Option DmaSys :=
  match release DmaLli.vlln s.heap.keys.length s.heap (s.chans c).desc with
  | none => none
  | some heap => some ({ s with heap }.setChan c { s.chans c with desc := none })

end DmaSys

/-- What a call returns, with what it stores through `dma_chan` or `left_size`. -/
structure DmaRet where
  ret : Int
  chan : Option ChanId := none
  leftSize : Option (BitVec 32) := none
  deriving DecidableEq

def DmaRet.status (ret : Int) : DmaRet := { ret }

/-! The calls. A channel is NULL or one of `dma_chan_source`; `none` as a result is undefined
behaviour. -/

def sunxiDmaFreeIll (c : ChanId) (s : DmaSys) : Option DmaSys :=
  match s.freeDescs c with
  | none => none
  | some s => some (s.setChan c { s.chans c with callback := none, callbackParam := none })

def halDmaChanRequest (s : DmaSys) : DmaRet × DmaSys :=
  match (List.finRange nrMaxChan).find? fun i => !(s.chans i).used with
  | some i =>
    ({ ret := halDmaChanStatusFree, chan := some i },
      s.setChan i { s.chans i with used := true, chanCount := i })
  | none => (.status halDmaChanStatusBusy, s)

def memcpyItem (config : DmaSlaveConfig) (dest src len : BitVec 32) : DmaLli :=
  (sunxiCfgLli src dest len config).orCfg
    (srcDrq drqsrcSdram ||| dstDrq drqdstSdram ||| dstLinearMode ||| srcLinearMode)

/-- The head of `hal_dma_prep_memcpy` and `hal_dma_prep_device`: the checks, the allocation and
the list of one item. -/
def prepOne (chan : Option ChanId) (dest src : BitVec 32) (item : DmaSlaveConfig → DmaLli)
    (pick : Ptr) (s : DmaSys) : Option (DmaRet × DmaSys) :=
  match chan with
  | none => some (.status halDmaStatusInvalidParameter, s)
  | some c =>
    if dest = 0 ∨ src = 0 then some (.status halDmaStatusInvalidParameter, s)
    else
      match malloc s.heap pick with
      | none => some (.status halDmaStatusNoMem, s)
      | some a => (s.lliList none a (item (s.chans c).cfg) c).map (.status halDmaStatusOk, ·)

def halDmaPrepMemcpy (chan : Option ChanId) (dest src len : BitVec 32) (pick : Ptr) (s : DmaSys) :
    Option (DmaRet × DmaSys) :=
  prepOne chan dest src (fun config => memcpyItem config dest src len) pick s

/-- An item between a device and memory, for the direction of the transfer. -/
def deviceItem (config : DmaSlaveConfig) (dest src len : BitVec 32) (dir : DmaTransferDirection) :
    DmaLli :=
  match dir with
  | .memToDev => (sunxiCfgLli src dest len config).orCfg
      (getDstDrq config.slaveId ||| srcLinearMode ||| dstIoMode ||| srcDrq drqsrcSdram)
  | .devToMem => (sunxiCfgLli src dest len config).orCfg
      (getSrcDrq config.slaveId ||| dstLinearMode ||| srcIoMode ||| dstDrq drqsrcSdram)
  | .devToDev => (sunxiCfgLli src dest len config).orCfg
      (getSrcDrq config.slaveId ||| dstIoMode ||| srcIoMode ||| getDstDrq config.slaveId)
  | _ => .zero

def halDmaPrepDevice (chan : Option ChanId) (dest src len : BitVec 32) (dir : DmaTransferDirection)
    (pick : Ptr) (s : DmaSys) : Option (DmaRet × DmaSys) :=
  prepOne chan dest src (fun config => deviceItem config dest src len dir) pick s

def cyclicItem (config : DmaSlaveConfig) (bufAddr periodLen : BitVec 32)
    (dir : DmaTransferDirection) (i : Nat) : DmaLli :=
  let mem := bufAddr + periodLen * .ofNat 32 i
  match dir with
  | .memToDev => deviceItem config (config.dstAddr.setWidth 32) mem periodLen .memToDev
  | .devToMem => deviceItem config mem (config.srcAddr.setWidth 32) periodLen .devToMem
  | .devToDev => deviceItem config (config.dstAddr.setWidth 32) (config.srcAddr.setWidth 32)
      periodLen .devToDev
  | _ => .zero

/-- The loop over the periods, from period `i` on. It gives whether every allocation succeeded,
and the last item. -/
def cyclicLoop (c : ChanId) (item : Nat → DmaLli) :
    Nat → Nat → Ptr → List Addr → DmaSys → Option (Bool × Ptr × DmaSys)
  | 0, _, prev, _, s => some (true, prev, s)
  | turns + 1, i, prev, picks, s =>
    match malloc s.heap picks.head? with
    | none => some (false, prev, s)
    | some a =>
      match s.lliList prev a (item i) c with
      | none => none
      | some s => cyclicLoop c item turns (i + 1) (some a) picks.tail s

/-- The last link of the ring: `prev->p_lln`. -/
def closeRing (c : ChanId) (prev : Ptr) (s : DmaSys) : Option DmaSys :=
  match prev with
  | none => none
  | some p =>
    match s.heap.lookup p with
    | none => none
    | some l =>
      some { s with heap := s.heap.insert p { l with pLln := vaToPa (s.chans c).desc } }

def halDmaPrepCyclic (chan : Option ChanId) (bufAddr bufLen periodLen : BitVec 32)
    (dir : DmaTransferDirection) (picks : List Addr) (s : DmaSys) : Option (DmaRet × DmaSys) :=
  -- the division comes before every check
  if periodLen = 0 then none
  else
    let periods := (bufLen / periodLen).toNat
    match chan with
    -- `NULL == chan && chan->cyclic`
    | none => none
    | some c =>
      if bufAddr = 0 then some (.status halDmaStatusInvalidParameter, s)
      else
        match s.freeDescs c with
        | none => none
        | some s =>
          let item := cyclicItem (s.chans c).cfg bufAddr periodLen dir
          match cyclicLoop c item periods 0 none picks s with
          | none => none
          | some (false, _, s) => some (.status halDmaStatusNoMem, s)
          | some (true, prev, s) =>
            match closeRing c prev s with
            | none => none
            | some s =>
              some (.status halDmaStatusOk, s.setChan c { s.chans c with cyclic := true })

def halDmaCallbackInstall (chan : Option ChanId) (callback callbackParam : Ptr) (s : DmaSys) :
    DmaRet × DmaSys :=
  match chan with
  | none => (.status halDmaStatusInvalidParameter, s)
  | some c =>
    if callback = none then (.status halDmaStatusInvalidParameter, s)
    else if callbackParam = none then (.status halDmaStatusInvalidParameter, s)
    else (.status halDmaStatusOk, s.setChan c { s.chans c with callback, callbackParam })

def halDmaSlaveConfig (chan : Option ChanId) (config : Option DmaSlaveConfig) (s : DmaSys) :
    DmaRet × DmaSys :=
  match config, chan with
  | some config, some c =>
    let config := { config with
      srcMaxburst := convertBurst config.srcMaxburst
      dstMaxburst := convertBurst config.dstMaxburst }
    (.status halDmaStatusOk, s.setChan c { s.chans c with cfg := config })
  | _, _ => (.status halDmaStatusInvalidParameter, s)

/-- The loop over the descriptors after the one at `pos`. -/
def residueLoop (pos : BitVec 32) : List DmaLli → Bool → BitVec 32 → BitVec 32
  | [], _, left => left
  | l :: ls, count, left =>
    if l.pLln = pos then residueLoop pos ls true left
    else residueLoop pos ls count (if count then left + l.len else left)

/-- The first loop of `hal_dma_tx_status`: `periods_pos + 1` steps along the descriptors. It ends
on NULL, or on what is left. -/
def skipPeriods : Nat → List DmaLli → List DmaLli
  | _, [] => []
  | 0, _ :: ls => ls
  | n + 1, _ :: ls => skipPeriods n ls

/-- `hal_dma_tx_status`, of the values of `DMA_LLI_ADDR` and `DMA_CNT` it reads. -/
def halDmaTxStatus (chan : Option ChanId) (leftSize : Bool) (pos cnt : BitVec 32) (s : DmaSys) :
    Option (DmaRet × DmaSys) :=
  match chan, leftSize with
  | some c, true =>
    if (s.chans c).cyclic then
      match s.descs c with
      | none => none
      | some xs =>
        let ls := xs.map Prod.snd
        if skipPeriods (s.chans c).periodsPos.toNat ls = [] then
          some ({ ret := dmaComplete, leftSize := some 0 }, s)
        else if pos = linkEnd then some ({ ret := dmaComplete, leftSize := some cnt }, s)
        else some ({ ret := dmaInProgress, leftSize := some (residueLoop pos ls false cnt) }, s)
    else if cnt = 0 then some ({ ret := dmaComplete, leftSize := some cnt }, s)
    else some ({ ret := dmaInProgress, leftSize := some cnt }, s)
  | _, _ => some (.status halDmaStatusInvalidParameter, s)

/-- The head of `hal_dma_start`: the interrupt of the channel and its mode. -/
def armChan (c : ChanId) (s : DmaSys) : DmaSys :=
  let irqType := if (s.chans c).cyclic then irqPkg else irqQueue
  let ch := (s.chans c).chanCount
  let high := if ch + startChanOffset ≥ highChan then 1 else 0
  let s := s.setChan c { s.chans c with irqType }
  let s := s.halWritel (s.halReadl (dmaIrqEn high) ||| shiftIrqMask irqType ch) (dmaIrqEn high)
  s.halWritel (srcHsMask ||| dstHsMask) (dmaOpMode ch)

def halDmaStart (chan : Option ChanId) (s : DmaSys) : Option (DmaRet × DmaSys) :=
  match chan with
  | none => some (.status halDmaStatusInvalidParameter, s)
  | some c =>
    let s := armChan c s
    -- the data cache is cleaned for every descriptor
    match s.descs c with
    | none => none
    | some _ =>
      let ch := (s.chans c).chanCount
      let s := s.halWritel (vaToPa (s.chans c).desc) (dmaLliAddr ch)
      some (.status halDmaStatusOk, s.halWritel chanStart (dmaEnable ch))

def halDmaStop (chan : Option ChanId) (s : DmaSys) : DmaRet × DmaSys :=
  match chan with
  | none => (.status halDmaStatusInvalidParameter, s)
  | some c =>
    let ch := (s.chans c).chanCount
    let s := s.halWritel chanPause (dmaPause ch)
    let s := s.halWritel chanStop (dmaEnable ch)
    let s := s.halWritel chanResume (dmaPause ch)
    (.status halDmaStatusOk, s.setChan c { s.chans c with cyclic := false })

def halDmaChanFree (chan : Option ChanId) (s : DmaSys) : Option (DmaRet × DmaSys) :=
  match chan with
  | none => some (.status halDmaStatusInvalidParameter, s)
  | some c =>
    if !(s.chans c).used then some (.status halDmaStatusInvalidParameter, s)
    else
      let ch := (s.chans c).chanCount
      let high := if ch + startChanOffset ≥ highChan then 1 else 0
      let s := s.halWritel (s.halReadl (dmaIrqEn high) &&& ~~~shiftIrqMask (s.chans c).irqType ch)
        (dmaIrqEn high)
      match sunxiDmaFreeIll c s with
      | none => none
      | some s => some (.status halDmaStatusOk, s.setChan c { s.chans c with used := false })

/-- `hal_dma_chan_desc_free` at an interrupt nesting. A NULL channel is only reported. -/
def halDmaChanDescFree (chan : Option ChanId) (nest : Int) (s : DmaSys) :
    Option (DmaRet × DmaSys) :=
  if nest ≤ 0 then
    match chan with
    | none => some (.status halDmaStatusOk, s)
    | some c => (sunxiDmaFreeIll c s).map (.status halDmaStatusOk, ·)
  else some (.status halDmaStatusErrPerm, s)

/-- The status bits of a channel in the words read. -/
def chanStatus (ch : Nat) (statusL statusH : BitVec 32) : BitVec 32 :=
  if ch + startChanOffset ≥ highChan then statusH >>> ((ch + startChanOffset - highChan) * 4)
  else statusL >>> ((ch + startChanOffset) * 4)

/-- One turn of the loop in `sunxi_dma_irq_handle`, for channel `c` and the status words read
before the loop. It gives the callback made and its argument. -/
def irqTurn (c : ChanId) (statusL statusH : BitVec 32) (s : DmaSys) :
    Option (Option (Addr × Ptr) × DmaSys) :=
  let chan := s.chans c
  if !chan.used then some (none, s)
  else
    let status := chanStatus chan.chanCount statusL statusH
    let cb := chan.callback.map (·, chan.callbackParam)
    if chan.irqType &&& status = 0 then some (none, s)
    else if chan.cyclic then
      -- `chan->desc->len`
      match chan.desc.bind s.heap.lookup with
      | none => none
      | some l =>
        let pos := chan.periodsPos + 1
        let periodsPos := if chan.bufLen ≤ pos * l.len then 0 else pos
        some (cb, s.setChan c { chan with periodsPos })
    else some (cb, s)

/-! The interface as a machine. -/

/-- A call, with what the allocator and the registers it reads answer. -/
inductive DmaCall
  | request
  | prepMemcpy (chan : Option ChanId) (dest src len : BitVec 32) (pick : Ptr)
  | prepDevice (chan : Option ChanId) (dest src len : BitVec 32) (dir : DmaTransferDirection)
      (pick : Ptr)
  | prepCyclic (chan : Option ChanId) (bufAddr bufLen periodLen : BitVec 32)
      (dir : DmaTransferDirection) (picks : List Addr)
  | callbackInstall (chan : Option ChanId) (callback callbackParam : Ptr)
  | slaveConfig (chan : Option ChanId) (config : Option DmaSlaveConfig)
  | txStatus (chan : Option ChanId) (leftSize : Bool) (pos cnt : BitVec 32)
  | start (chan : Option ChanId)
  | stop (chan : Option ChanId)
  | chanFree (chan : Option ChanId)
  | descFree (chan : Option ChanId) (nest : Int)

def dmaCall (s : DmaSys) : DmaCall → Option (DmaRet × DmaSys)
  | .request => some (halDmaChanRequest s)
  | .prepMemcpy chan dest src len pick => halDmaPrepMemcpy chan dest src len pick s
  | .prepDevice chan dest src len dir pick => halDmaPrepDevice chan dest src len dir pick s
  | .prepCyclic chan bufAddr bufLen periodLen dir picks =>
    halDmaPrepCyclic chan bufAddr bufLen periodLen dir picks s
  | .callbackInstall chan callback callbackParam =>
    some (halDmaCallbackInstall chan callback callbackParam s)
  | .slaveConfig chan config => some (halDmaSlaveConfig chan config s)
  | .txStatus chan leftSize pos cnt => halDmaTxStatus chan leftSize pos cnt s
  | .start chan => halDmaStart chan s
  | .stop chan => some (halDmaStop chan s)
  | .chanFree chan => halDmaChanFree chan s
  | .descFree chan nest => halDmaChanDescFree chan nest s

/-- A call in a run, where undefined behaviour has no state after it. -/
def dmaStep (s : Option DmaSys) (call : DmaCall) : Option DmaRet × Option DmaSys :=
  let r := s.bind fun s => dmaCall s call
  (r.map Prod.fst, r.map Prod.snd)

/-- What happens to the driver: a call, or a turn of its interrupt handler for one channel. -/
inductive DmaEvent
  | call (call : DmaCall)
  | irq (chan : ChanId) (statusL statusH : BitVec 32)

inductive DmaOut
  | ret (ret : DmaRet)
  | callback (made : Option (Addr × Ptr))
  deriving DecidableEq

def dmaEvent (s : DmaSys) : DmaEvent → Option (DmaOut × DmaSys)
  | .call call => (dmaCall s call).map fun r => (.ret r.1, r.2)
  | .irq c statusL statusH => (irqTurn c statusL statusH s).map fun r => (.callback r.1, r.2)

end D1Flash
