import D1Flash.Dma.HalDma
import D1Flash.Lib.NorArray
import D1Flash.Lib.Polls
import D1Flash.Spi.Common
import D1Flash.Spi.HalSem

namespace D1Flash
open HalSem (halSemPost halSemTimedwait)
open LinkedHeap
open NorArray (put slice)
set_option autoImplicit true

abbrev maxFifu : Nat := 64
abbrev bulkDataBoundary : Nat := 64
abbrev alignDmaBufSize : Nat := 4096 + 64

abbrev spiMasterError : Int := -6
abbrev spiMasterErrorTimeout : Int := -4
abbrev spiMasterInvalidParameter : Int := -1
abbrev spiMasterOk : Int := 0

abbrev spiXferReady : Int := 0
abbrev spiXferOk : Int := 1
abbrev spiXferFailed : Int := -1

/-- What `budget--` leaves of a `uint32_t` that is 0. -/
abbrev u32Top : Nat := 0xFFFFFFFF

/-- The registers, by their offset. -/
def spiTcReg : Nat := 0x08
def spiIntCtlReg : Nat := 0x10
def spiIntStaReg : Nat := 0x14
def spiFifoCtlReg : Nat := 0x18
def spiBurstCntReg : Nat := 0x30
def spiTransmitCntReg : Nat := 0x34
def spiBccReg : Nat := 0x38
def spiTxdataReg : BitVec 64 := 0x200
def spiRxdataReg : BitVec 64 := 0x300

def spiTcXch : BitVec 32 := 1 <<< 31
def spiIntenTc : BitVec 32 := 1 <<< 12
def spiIntenErr : BitVec 32 := 1 <<< 10 ||| 1 <<< 9 ||| 1 <<< 8
def spiIntenMask : BitVec 32 := 0x77 ||| 0x3f <<< 8
def spiIntStaTc : BitVec 32 := 1 <<< 12
def spiIntStaErr : BitVec 32 := 1 <<< 10 ||| 1 <<< 9 ||| 1 <<< 8
def spiIntStaMask : BitVec 32 := 0x77 ||| 0x3f <<< 8
def spiFifoCtlRxLevel : BitVec 32 := 0xFF
def spiFifoCtlRxDrqen : BitVec 32 := 1 <<< 8
def spiFifoCtlRxRst : BitVec 32 := 1 <<< 15
def spiFifoCtlTxLevel : BitVec 32 := 0xFF <<< 16
def spiFifoCtlTxDrqen : BitVec 32 := 1 <<< 24
def spiFifoCtlTxRst : BitVec 32 := 1 <<< 31
def spiFifoCtlDrqenMask : BitVec 32 := spiFifoCtlTxDrqen ||| spiFifoCtlRxDrqen
def spiFifoStaRxCnt : BitVec 32 := 0xFF
def spiFifoStaTxCnt : BitVec 32 := 0xFF <<< 16
def spiBcCntMask : BitVec 32 := 0xFFFFFF
def spiTcCntMask : BitVec 32 := 0xFFFFFF
def spiBccStcMask : BitVec 32 := 0xFFFFFF
def spiBccDualMode : BitVec 32 := 1 <<< 28
def spiBccQuadMode : BitVec 32 := 1 <<< 29

def drqsrcSpi0Rx : BitVec 32 := 22
def drqdstSpi0Tx : BitVec 32 := 22
def sunxiSlaveId (d s : BitVec 32) : BitVec 32 := d <<< 16 ||| s

inductive SpiModeType
  | sgleHalfDuplexRx
  | sgleHalfDuplexTx
  | dualHalfDuplexRx
  | dualHalfDuplexTx
  | quadHalfDuplexRx
  | quadHalfDuplexTx
  | fullDuplexTxRx
  | null
  deriving DecidableEq

/-- `hal_spi_master_transfer_t` with the addresses of its buffers. -/
structure SpiTransfer where
  txBuf : Ptr
  txLen : BitVec 32
  txSingleLen : BitVec 32
  rxBuf : Ptr
  rxLen : BitVec 32
  txNbits : Nat
  rxNbits : Nat
  dummyByte : BitVec 8
  deriving DecidableEq

structure SpiDma where
  config : DmaSlaveConfig
  chan : Option ChanId
  deriving DecidableEq

/-- What the interrupts write of `sunxi_spi_t`. -/
structure SpiSignal (ς : Type) where
  result : Int
  sem : Bool
  xSemaphoreTx : ς
  xSemaphoreRx : ς
  deriving DecidableEq

structure SunxiSpi (ς : Type) extends SpiSignal ς where
  base : BitVec 64
  modeType : SpiModeType
  dmaRx : SpiDma
  dmaTx : SpiDma
  alignDmaBuf : Addr
  port : Nat
  transfer : SpiTransfer

/-- What there is to see of a transfer: the bytes that go through the FIFOs, the levels of these
that were read, the interrupts with their status and the calls of `spi_dma_rx_callback`. -/
inductive SpiEvent
  | txData (x : Byte)
  | txLevel (level : Nat)
  | rxData (x : Byte)
  | rxLevel (level : Nat)
  | irq (status : BitVec 32)
  | dmaEnd (chan : ChanId)
  deriving DecidableEq

abbrev SpiRegs := Nat → BitVec 32

/-- A controller with its registers as last written, the memory as the CPU sees it, the DMA driver
and what happened. `cpuXferOnly` is the build option `CONFIG_SUNXI_SPI_CPU_XFER_ONLY`; `self` and
`rxCallback` are the addresses a channel gets as its callback's. -/
structure SpiSys (ς : Type) where
  cpuXferOnly : Bool
  sspi : SunxiSpi ς
  regs : SpiRegs
  self : Addr
  rxCallback : Addr
  mem : Addr → Byte
  dma : DmaSys
  trace : List SpiEvent

/-- An interrupt of the controller, or one of the DMA engine for a channel. -/
inductive SpiIntr
  | irq (status : BitVec 32)
  | dmaEnd (chan : ChanId)
  deriving DecidableEq

/-- What a call meets: the values of the FIFO status register its polls read and the bytes in the
RX FIFO, the descriptor of a DMA transfer, the memory behind the data cache, and the interrupts by
where they come. Two accesses with no place between them have no data in common with a handler. -/
structure SpiEnv where
  txSta : Nat → BitVec 32
  rxSta : Nat → BitVec 32
  rxData : Nat → Byte
  pick : Ptr
  /-- what the cache shows of the buffer that the engine writes, by the offset -/
  shown : Nat → Byte
  /-- what memory holds from the bounce buffer on when the cache gives up these lines -/
  dram : Nat → Byte
  /-- before `result` is reset -/
  entry : List SpiIntr
  /-- while the transfer is set up -/
  setup : List SpiIntr
  /-- after `sem` is set -/
  started : List SpiIntr
  /-- before a reading of `result` by the polling loop -/
  poll : Nat → List SpiIntr
  /-- while the semaphore is waited for -/
  waiting : List SpiIntr
  /-- before `result` is looked at, or set, after a wait or the loop -/
  woken : List SpiIntr
  /-- before a channel is freed -/
  late : List SpiIntr

/-! The registers. -/

def orReg (off : Nat) (bits : BitVec 32) (regs : SpiRegs) : SpiRegs :=
  Function.update regs off (regs off ||| bits)

def clearReg (off : Nat) (bits : BitVec 32) (regs : SpiRegs) : SpiRegs :=
  Function.update regs off (regs off &&& ~~~bits)

def spiStartXfer : SpiRegs → SpiRegs := orReg spiTcReg spiTcXch

def spiEnableIrq (bitmap : BitVec 32) : SpiRegs → SpiRegs :=
  orReg spiIntCtlReg (bitmap &&& spiIntenMask)

def spiDisableIrq (bitmap : BitVec 32) : SpiRegs → SpiRegs :=
  clearReg spiIntCtlReg (bitmap &&& spiIntenMask)

def spiEnableDmaIrq (bitmap : BitVec 32) : SpiRegs → SpiRegs :=
  orReg spiFifoCtlReg (bitmap &&& spiFifoCtlDrqenMask)

def spiDisableDmaIrq (bitmap : BitVec 32) : SpiRegs → SpiRegs :=
  clearReg spiFifoCtlReg (bitmap &&& spiFifoCtlDrqenMask)

def spiClrIrqPending (pendingBit : BitVec 32) (regs : SpiRegs) : SpiRegs :=
  Function.update regs spiIntStaReg (pendingBit &&& spiIntStaMask)

/-- `spi_query_txfifo`, of the value it reads. -/
def spiQueryTxfifo (sta : BitVec 32) : Nat := ((spiFifoStaTxCnt &&& sta) >>> 16).toNat

/-- `spi_query_rxfifo`, of the value it reads. -/
def spiQueryRxfifo (sta : BitVec 32) : Nat := (spiFifoStaRxCnt &&& sta).toNat

def spiResetFifo (regs : SpiRegs) : SpiRegs :=
  let regVal := regs spiFifoCtlReg ||| (spiFifoCtlRxRst ||| spiFifoCtlTxRst)
  let regVal := regVal &&& ~~~(spiFifoCtlRxLevel ||| spiFifoCtlTxLevel)
  Function.update regs spiFifoCtlReg (regVal ||| (0x20 <<< 16 ||| 0x20))

def spiSetTxTrig (val : BitVec 32) (regs : SpiRegs) : SpiRegs :=
  orReg spiFifoCtlReg (val <<< 16 &&& spiFifoCtlTxLevel)
  (clearReg spiFifoCtlReg spiFifoCtlTxLevel regs)

def spiSetBcTcStc (txLen rxLen stcLen dummyCnt : BitVec 32) (regs : SpiRegs) : SpiRegs :=
  let regs := clearReg spiBurstCntReg spiBcCntMask regs
  let regs := orReg spiBurstCntReg (spiBcCntMask &&& (txLen + rxLen + dummyCnt)) regs
  let regs := clearReg spiTransmitCntReg spiTcCntMask regs
  let regs := orReg spiTransmitCntReg (spiTcCntMask &&& txLen) regs
  let regVal := regs spiBccReg &&& ~~~spiBccStcMask ||| (spiBccStcMask &&& stcLen)
  Function.update regs spiBccReg (regVal &&& ~~~((0xf : BitVec 32) <<< 24) ||| dummyCnt <<< 24)

def spiDisableDual : SpiRegs → SpiRegs := clearReg spiBccReg spiBccDualMode

def spiEnableDual (regs : SpiRegs) : SpiRegs :=
  orReg spiBccReg spiBccDualMode (clearReg spiBccReg spiBccQuadMode regs)

def spiDisableQuad : SpiRegs → SpiRegs := clearReg spiBccReg spiBccQuadMode

def spiEnableQuad : SpiRegs → SpiRegs := orReg spiBccReg spiBccQuadMode

/-- The lines for a number of bits, as every branch of `spi_mode_check` sets them. -/
def spiSetLines (nbits : Nat) (regs : SpiRegs) : SpiRegs :=
  if nbits = spiNbitsQuad then spiEnableQuad (spiDisableDual regs)
  else if nbits = spiNbitsDual then spiEnableDual (spiDisableQuad regs)
  else spiDisableDual (spiDisableQuad regs)

namespace SpiSys

variable {ς : Type}

def onRegs (s : SpiSys ς) (f : SpiRegs → SpiRegs) : SpiSys ς := { s with regs := f s.regs }

def log (s : SpiSys ς) (e : SpiEvent) : SpiSys ς := { s with trace := s.trace ++ [e] }

def setResult (s : SpiSys ς) (result : Int) : SpiSys ς := { s with sspi := { s.sspi with result } }

def setMode (s : SpiSys ς) (modeType : SpiModeType) : SpiSys ς :=
  { s with sspi := { s.sspi with modeType } }

variable [HalSem ς]

/-- `hal_sem_post(sspi->xSemaphore_tx)`; its result is only logged. -/
def postTx (s : SpiSys ς) : SpiSys ς :=
  { s with sspi := { s.sspi with xSemaphoreTx := (halSemPost s.sspi.xSemaphoreTx).2 } }

/-! The interrupts. -/

/-- The end of both branches of `spi_irq_handler`. -/
def wakeTx (s : SpiSys ς) : SpiSys ς :=
  if !s.cpuXferOnly && s.sspi.sem then { s with sspi := { s.sspi with sem := false } }.postTx else s

/-- `spi_irq_handler`, of the status it reads. -/
def spiIrqHandler (status : BitVec 32) (s : SpiSys ς) : SpiSys ς :=
  let status := spiIntStaMask &&& status
  let s := (s.log (.irq status)).onRegs (spiClrIrqPending status)
  let s := s.setResult spiXferOk
  if status &&& spiIntStaTc ≠ 0 then
    (s.onRegs (spiDisableIrq (spiIntStaTc ||| spiIntStaErr))).wakeTx
  else if status &&& spiIntStaErr ≠ 0 then
    ((s.onRegs (spiDisableIrq (spiIntStaTc ||| spiIntStaErr))).setResult spiXferFailed).wakeTx
  else s

def spiDmaRxCallback (s : SpiSys ς) : SpiSys ς :=
  { s with sspi := { s.sspi with xSemaphoreRx := (halSemPost s.sspi.xSemaphoreRx).2 } }

/-- The channel would call `spi_dma_rx_callback` for this controller. -/
def Rings (s : SpiSys ς) (c : ChanId) : Prop :=
  (s.dma.chans c).used = true ∧ (s.dma.chans c).callback = some s.rxCallback ∧
    (s.dma.chans c).callbackParam = some s.self

instance (s : SpiSys ς) (c : ChanId) : Decidable (s.Rings c) := inferInstanceAs (Decidable (_ ∧ _))

/-- An interrupt; one of the DMA engine only as far as it gets to this driver. -/
def intr (s : SpiSys ς) : SpiIntr → SpiSys ς
  | .irq status => s.spiIrqHandler status
  | .dmaEnd c => if s.Rings c then (s.log (.dmaEnd c)).spiDmaRxCallback else s

def deliver (s : SpiSys ς) (is : List SpiIntr) : SpiSys ς := is.foldl intr s

/-! The transfer by the CPU. -/

/-- A test of `while ((spi_query_txfifo(sspi) >= MAX_FIFU) && poll_time--)`. -/
def readTxLevel (env : SpiEnv) (k : Nat) (s : SpiSys ς) : Bool × SpiSys ς :=
  let level := spiQueryTxfifo (env.txSta k)
  (decide (level < maxFifu), s.log (.txLevel level))

/-- A test of `while (!spi_query_rxfifo(sspi) && poll_time--)`. -/
def readRxLevel (env : SpiEnv) (k : Nat) (s : SpiSys ς) : Bool × SpiSys ς :=
  let level := spiQueryRxfifo (env.rxSta k)
  (decide (level ≠ 0), s.log (.rxLevel level))

/-- The loop of `spi_cpu_write` with `len` bytes left from `buf` on, before reading `k`. -/
def cpuWriteLoop (env : SpiEnv) : Nat → Addr → Nat → Nat → SpiSys ς → Int × SpiSys ς
  | 0, _, _, _, s => (spiMasterOk, s)
  | len + 1, buf, pollTime, k, s =>
    match Polls.wait (readTxLevel env) u32Top pollTime k (s.log (.txData (s.mem buf))) with
    | ((pollTime, k), s) =>
      if pollTime = 0 then (spiMasterErrorTimeout, s)
      else cpuWriteLoop env len (buf + 1) pollTime k s

def spiCpuWrite (env : SpiEnv) (s : SpiSys ς) : Int × SpiSys ς :=
  match s.sspi.transfer.txBuf with
  | none => (spiMasterInvalidParameter, s)
  | some buf => cpuWriteLoop env s.sspi.transfer.txLen.toNat buf 0xff 0 s

/-- The loop of `spi_cpu_read` with `len` bytes left, the next of them byte `n` from the FIFO. -/
def cpuReadLoop (env : SpiEnv) (buf : Addr) : Nat → Nat → Nat → Nat → SpiSys ς → Int × SpiSys ς
  | 0, _, _, _, s => (spiMasterOk, s)
  | len + 1, n, pollTime, k, s =>
    match Polls.wait (readRxLevel env) u32Top pollTime k s with
    | ((pollTime, k), s) =>
      if pollTime = 0 then (spiMasterErrorTimeout, s)
      else
        cpuReadLoop env buf len (n + 1) pollTime k
          { s.log (.rxData (env.rxData n)) with
            mem := Function.update s.mem (buf + n) (env.rxData n) }

def spiCpuRead (env : SpiEnv) (s : SpiSys ς) : Int × SpiSys ς :=
  match s.sspi.transfer.rxBuf with
  | none => (spiMasterInvalidParameter, s)
  | some buf => cpuReadLoop env buf s.sspi.transfer.rxLen.toNat 0 0xff 0 s

/-- A test of `while (!sspi->result && timeout--)`. -/
def readResult (env : SpiEnv) (k : Nat) (s : SpiSys ς) : Bool × SpiSys ς :=
  let s := s.deliver (env.poll k)
  (decide (s.sspi.result ≠ 0), s)

def spiCpuComplete (env : SpiEnv) (s : SpiSys ς) : Int × SpiSys ς :=
  match Polls.wait (readResult env) u32Top 0xffff 0 s with
  | ((timeout, _), s) =>
    if timeout = 0 then (spiMasterErrorTimeout, s)
    else
      let s := s.deliver env.woken
      if s.sspi.result = spiXferFailed then (spiMasterError, s) else (spiMasterOk, s)

/-! The transfer by DMA. -/

def spiAlign (x a : Nat) : Nat := (x + (a - 1)) / a * a

/-- The words of a configuration, for the width the length allows. -/
def dmaSlaveConfig (direction : DmaTransferDirection) (srcAddr dstAddr : BitVec 64)
    (len slaveId : BitVec 32) : DmaSlaveConfig :=
  if len.toNat % 4 ≠ 0 then
    { direction, srcAddr, dstAddr, srcAddrWidth := .bytes1, dstAddrWidth := .bytes1,
      srcMaxburst := 16, dstMaxburst := 16, slaveId }
  else
    { direction, srcAddr, dstAddr, srcAddrWidth := .bytes4, dstAddrWidth := .bytes4,
      srcMaxburst := 8, dstMaxburst := 8, slaveId }

/-- The buffer and the length are aligned to a cache line. -/
def CacheAligned (buf : Addr) (len : BitVec 32) : Prop := buf % 64 = 0 ∧ len.toNat % 64 = 0

instance (buf : Addr) (len : BitVec 32) : Decidable (CacheAligned buf len) :=
  inferInstanceAs (Decidable (_ ∧ _))

def spiDmaTxConfig (s : SpiSys ς) : Int × SpiSys ς :=
  let len := s.sspi.transfer.txLen
  match s.sspi.transfer.txBuf with
  | none => (spiMasterInvalidParameter, s)
  | some buf =>
    if alignDmaBufSize < len.toNat ∧ ¬ CacheAligned buf len then (spiMasterInvalidParameter, s)
    else
      let small := len.toNat ≤ alignDmaBufSize
      let s := if small then
        { s with mem := put s.mem s.sspi.alignDmaBuf (slice s.mem buf len.toNat) } else s
      let buf := if small then s.sspi.alignDmaBuf else buf
      match halDmaChanRequest s.dma with
      | (r, dma) =>
        let s := { s with dma }
        if r.ret = halDmaChanStatusBusy then (spiMasterError, s)
        else
          let s := s.onRegs (spiSetTxTrig 0x20)
          let s := s.onRegs (spiEnableDmaIrq spiFifoCtlTxDrqen)
          let config := dmaSlaveConfig .memToDev (.ofNat 64 buf) (s.sspi.base + spiTxdataReg) len
            (sunxiSlaveId (drqdstSpi0Tx + .ofNat 32 s.sspi.port) drqsrcSdram)
          (spiMasterOk, { s with sspi := { s.sspi with dmaTx := { config, chan := r.chan } } })

def spiDmaRxConfig (s : SpiSys ς) : Int × SpiSys ς :=
  let len := s.sspi.transfer.rxLen
  match s.sspi.transfer.rxBuf with
  | none => (spiMasterInvalidParameter, s)
  | some buf =>
    if alignDmaBufSize < len.toNat ∧ ¬ CacheAligned buf len then (spiMasterInvalidParameter, s)
    else
      let small := len.toNat ≤ alignDmaBufSize
      let s := if small then
        { s with mem := put s.mem s.sspi.alignDmaBuf (List.replicate alignDmaBufSize 0) } else s
      let buf := if small then s.sspi.alignDmaBuf else buf
      let s := s.onRegs (spiEnableDmaIrq spiFifoCtlRxDrqen)
      match halDmaChanRequest s.dma with
      | (r, dma) =>
        let s := { s with dma }
        if r.ret = halDmaChanStatusBusy then (spiMasterError, s)
        else
          let config := dmaSlaveConfig .devToMem (s.sspi.base + spiRxdataReg) (.ofNat 64 buf) len
            (sunxiSlaveId drqdstSdram (drqsrcSpi0Rx + .ofNat 32 s.sspi.port))
          (spiMasterOk, { s with sspi := { s.sspi with dmaRx := { config, chan := r.chan } } })

/-- The body of both submits: `install` sets the callback of the channel. -/
def spiDmaSubmit (d : SpiDma) (len : BitVec 32) (pick : Ptr) (install : DmaChan → DmaChan)
    (dma : DmaSys) : Option (Int × DmaSys) :=
  match halDmaSlaveConfig d.chan (some d.config) dma with
  | (r, dma) =>
    if r.ret ≠ 0 then some (spiMasterError, dma)
    else
      match halDmaPrepDevice d.chan (d.config.dstAddr.setWidth 32) (d.config.srcAddr.setWidth 32)
          len d.config.direction pick dma with
      | none => none
      | some (r, dma) =>
        if r.ret ≠ 0 then some (spiMasterError, dma)
        else
          match d.chan with
          | none => none
          | some c =>
            match halDmaStart (some c) (dma.setChan c (install (dma.chans c))) with
            | none => none
            | some (r, dma) => some (if r.ret ≠ 0 then spiMasterError else spiMasterOk, dma)

def spiDmaTxSubmit (env : SpiEnv) (s : SpiSys ς) : Option (Int × SpiSys ς) :=
  (spiDmaSubmit s.sspi.dmaTx s.sspi.transfer.txLen env.pick id s.dma).map
    fun p => (p.1, { s with dma := p.2 })

def spiDmaRxSubmit (env : SpiEnv) (s : SpiSys ς) : Option (Int × SpiSys ς) :=
  (spiDmaSubmit s.sspi.dmaRx s.sspi.transfer.rxLen env.pick (fun chan =>
    { chan with callback := some s.rxCallback, callbackParam := some s.self }) s.dma).map
    fun p => (p.1, { s with dma := p.2 })

/-- The wait of `spi_dma_tx_complete` and its branches. -/
def txWait (env : SpiEnv) (s : SpiSys ς) : Int × SpiSys ς :=
  match halSemTimedwait 1000 s.sspi.xSemaphoreTx with
  | (xResult, xSemaphoreTx) =>
    let s := ({ s with sspi := { s.sspi with xSemaphoreTx } } : SpiSys ς).deliver env.woken
    if xResult = 0 then
      (if s.sspi.result = spiXferOk then spiMasterOk
        else if s.sspi.result = spiXferFailed then spiMasterError else 0, s)
    else (spiMasterErrorTimeout, (s.setResult spiXferFailed).postTx)

def spiDmaTxComplete (env : SpiEnv) (s : SpiSys ς) : Option (Int × SpiSys ς) :=
  let chan := s.sspi.dmaTx.chan
  match txWait env (s.deliver env.waiting) with
  | (ret, s) =>
    let s := s.deliver env.late
    match halDmaStop chan s.dma with
    | (r, dma) =>
      if r.ret ≠ 0 then some (spiMasterError, { s with dma })
      else
        match halDmaChanFree chan dma with
        | none => none
        | some (r, dma) => some (if r.ret ≠ 0 then spiMasterError else ret, { s with dma })

/-- While the engine writes to the buffer of the descriptor it is up to the cache what the CPU sees
of it. -/
def dmaStore (env : SpiEnv) (s : SpiSys ς) : SpiSys ς :=
  let len := s.sspi.transfer.rxLen.toNat
  let dst := if len ≤ alignDmaBufSize then some s.sspi.alignDmaBuf else s.sspi.transfer.rxBuf
  { s with mem := put s.mem (dst.getD 0) (slice env.shown 0 len) }

/-- `hal_dcache_invalidate` of the bounce buffer: the CPU sees what memory holds. -/
def dcacheInvalidate (env : SpiEnv) (size : Nat) (s : SpiSys ς) : SpiSys ς :=
  { s with mem := put s.mem s.sspi.alignDmaBuf (slice env.dram 0 size) }

/-- The wait of `spi_dma_rx_complete` and its branches. -/
def rxWait (env : SpiEnv) (s : SpiSys ς) : Int × SpiSys ς :=
  let len := s.sspi.transfer.rxLen.toNat
  match halSemTimedwait 1000 s.sspi.xSemaphoreRx with
  | (xResult, xSemaphoreRx) =>
    let s := ({ s with sspi := { s.sspi with xSemaphoreRx } } : SpiSys ς).deliver env.woken
    if xResult ≠ 0 then (spiMasterErrorTimeout, s.setResult spiXferFailed)
    else
      let s := (s.dcacheInvalidate env (spiAlign len 64)).setResult spiXferOk
      match s.sspi.transfer.rxBuf with
      | none => (spiMasterOk, s)
      | some buf =>
        (spiMasterOk, if len ≤ alignDmaBufSize then
          { s with mem := put s.mem buf (slice s.mem s.sspi.alignDmaBuf len) } else s)

def spiDmaRxComplete (env : SpiEnv) (s : SpiSys ς) : Option (Int × SpiSys ς) :=
  let chan := s.sspi.dmaRx.chan
  match rxWait env (dmaStore env (s.deliver env.waiting)) with
  | (ret, s) =>
    let s := (s.onRegs (spiDisableIrq (spiIntStaTc ||| spiIntStaErr))).deliver env.late
    match halDmaStop chan s.dma with
    | (r, dma) =>
      let ret := if r.ret ≠ 0 then spiMasterError else ret
      match halDmaChanFree chan dma with
      | none => none
      | some (r, dma) => some (if r.ret ≠ 0 then spiMasterError else ret, { s with dma })

/-- The controller's `spi_dma_rx_config` and `spi_dma_rx_submit`, as `spi_transfer` calls them. -/
def spiDmaRx (env : SpiEnv) (s : SpiSys ς) : Option (Int × SpiSys ς) :=
  match spiDmaRxConfig s with
  | (ret, s) =>
    if ret ≠ 0 then some (spiMasterError, s)
    else
      match spiDmaRxSubmit env s with
      | none => none
      | some (ret, s) => some (if ret ≠ 0 then spiMasterError else spiMasterOk, s)

def spiDmaTx (env : SpiEnv) (s : SpiSys ς) : Option (Int × SpiSys ς) :=
  match spiDmaTxConfig s with
  | (ret, s) =>
    if ret ≠ 0 then some (spiMasterError, s)
    else
      match spiDmaTxSubmit env s with
      | none => none
      | some (ret, s) => some (if ret ≠ 0 then spiMasterError else spiMasterOk, s)

/-! The call. -/

def spiModeCheck (s : SpiSys ς) : Int × SpiSys ς :=
  let t := s.sspi.transfer
  let dummy := t.dummyByte.setWidth 32
  if s.sspi.modeType ≠ .null then (spiMasterInvalidParameter, s)
  else
    match t.txBuf, t.rxBuf with
    | some _, some _ =>
      let s := (s.onRegs (spiSetBcTcStc t.txLen t.rxLen t.txSingleLen dummy)).setMode
        .fullDuplexTxRx
      (spiMasterOk, s.onRegs (spiSetLines t.rxNbits))
    | some _, none =>
      let s := s.onRegs (spiSetLines t.txNbits)
      if t.txNbits = spiNbitsQuad then
        (spiMasterOk, (s.onRegs (spiSetBcTcStc t.txLen 0 t.txSingleLen dummy)).setMode
          .quadHalfDuplexTx)
      else if t.txNbits = spiNbitsDual then
        (spiMasterOk, (s.onRegs (spiSetBcTcStc t.txLen 0 t.txSingleLen dummy)).setMode
          .dualHalfDuplexTx)
      else
        (spiMasterOk, (s.onRegs (spiSetBcTcStc t.txLen 0 t.txLen dummy)).setMode .sgleHalfDuplexTx)
    | none, some _ =>
      let s := s.onRegs (spiSetLines t.rxNbits)
      let modeType := if t.rxNbits = spiNbitsQuad then SpiModeType.quadHalfDuplexRx
        else if t.rxNbits = spiNbitsDual then .dualHalfDuplexRx else .sgleHalfDuplexRx
      (spiMasterOk, (s.setMode modeType).onRegs (spiSetBcTcStc 0 t.rxLen 0 dummy))
    | none, none => (spiMasterOk, s)

/-- A length is left to the DMA engine. -/
def Bulk (s : SpiSys ς) (len : BitVec 32) : Prop :=
  s.cpuXferOnly = false ∧ bulkDataBoundary < len.toNat

instance (s : SpiSys ς) (len : BitVec 32) :
    Decidable (s.Bulk len) := inferInstanceAs (Decidable (_ ∧ _))

def spiTransfer (env : SpiEnv) (s : SpiSys ς) : Option (Int × SpiSys ς) :=
  match s.sspi.modeType with
  | .sgleHalfDuplexRx | .dualHalfDuplexRx | .quadHalfDuplexRx =>
    if s.Bulk s.sspi.transfer.rxLen then
      match spiDmaRx env (s.onRegs (spiDisableIrq spiIntenTc)) with
      | none => none
      | some (ret, s) =>
        if ret ≠ 0 then some (spiMasterError, s) else some (spiMasterOk, s.onRegs spiStartXfer)
    else
      let s := (s.onRegs (spiClrIrqPending spiIntStaMask)).onRegs spiStartXfer
      some (spiMasterOk, (spiCpuRead env s).2)
  | .sgleHalfDuplexTx | .dualHalfDuplexTx | .quadHalfDuplexTx =>
    if s.Bulk s.sspi.transfer.txLen then
      let s := { s with sspi := { s.sspi with sem := true } }
      spiDmaTx env ((s.onRegs spiStartXfer).deliver env.started)
    else some (spiMasterOk, (spiCpuWrite env (s.onRegs spiStartXfer)).2)
  | .fullDuplexTxRx =>
    if s.Bulk s.sspi.transfer.rxLen then
      let s := (s.onRegs (spiDisableIrq spiIntenTc)).onRegs spiStartXfer
      spiDmaRx env (spiCpuWrite env s).2
    else
      let s := (spiCpuWrite env (s.onRegs spiStartXfer)).2
      some (spiMasterOk, (spiCpuRead env s).2)
  | .null => some (spiMasterInvalidParameter, s)

/-- The last `switch` of `hal_spi_xfer`. -/
def spiComplete (env : SpiEnv) (s : SpiSys ς) : Option (Int × SpiSys ς) :=
  let cpu := some (spiCpuComplete env s)
  let done := fun p : Int × SpiSys ς => (if p.1 ≠ 0 then spiMasterError else spiMasterOk, p.2)
  match s.sspi.modeType with
  | .sgleHalfDuplexRx | .dualHalfDuplexRx | .quadHalfDuplexRx | .fullDuplexTxRx =>
    (if s.Bulk s.sspi.transfer.rxLen then spiDmaRxComplete env s else cpu).map done
  | .sgleHalfDuplexTx | .dualHalfDuplexTx | .quadHalfDuplexTx =>
    (if s.Bulk s.sspi.transfer.txLen then spiDmaTxComplete env s else cpu).map done
  | .null => some (spiMasterInvalidParameter, s)

/-- The test of the parameters. -/
def BadTransfer (t : SpiTransfer) : Prop :=
  (t.txBuf = none ∧ t.rxBuf = none) ∨ (t.txLen = 0 ∧ t.rxBuf = none)

instance (t : SpiTransfer) : Decidable (BadTransfer t) := inferInstanceAs (Decidable (_ ∨ _))

/-- The writes of `result` and of `transfer` before `spi_mode_check`. -/
def accept (s : SpiSys ς) (t : SpiTransfer) : SpiSys ς :=
  { s with sspi := { s.sspi with result := spiXferReady, transfer := t } }

/-- `hal_spi_xfer` up to its label `end`. -/
def spiXfer (env : SpiEnv) (transfer : Option SpiTransfer) (s : SpiSys ς) :
    Option (Int × SpiSys ς) :=
  let s := s.deliver env.entry
  match transfer with
  | none => some (spiMasterInvalidParameter, s)
  | some t =>
    if BadTransfer t then some (spiMasterInvalidParameter, s)
    else
      match spiModeCheck ((s.accept t).deliver env.setup) with
      | (ret, s) =>
        if ret ≠ 0 then some (spiMasterInvalidParameter, s)
        else
          let s := s.onRegs (spiClrIrqPending spiIntStaMask)
          let s := s.onRegs (spiDisableDmaIrq spiFifoCtlDrqenMask)
          let s := s.onRegs spiResetFifo
          let s := s.onRegs (spiEnableIrq (spiIntenTc ||| spiIntenErr))
          match spiTransfer env s with
          | none => none
          | some (ret, s) => if ret ≠ 0 then some (spiMasterError, s) else spiComplete env s

def halSpiXfer (env : SpiEnv) (transfer : Option SpiTransfer) (s : SpiSys ς) :
    Option (Int × SpiSys ς) :=
  (spiXfer env transfer s).map fun p => (p.1, p.2.setMode .null)

end SpiSys

end D1Flash
