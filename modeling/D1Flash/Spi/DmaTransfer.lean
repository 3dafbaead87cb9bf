import D1Flash.Dma.Client
import D1Flash.Spi.CpuTransfer

namespace D1Flash
open LinkedHeap
open NorArray (put slice)
set_option autoImplicit true

namespace SpiTransfer

def bulkBuf (t : SpiTransfer) : Ptr := if t.rxBuf = none then t.txBuf else t.rxBuf

def Bounces (t : SpiTransfer) : Prop := t.bulkLen.toNat ≤ alignDmaBufSize

instance (t : SpiTransfer) : Decidable t.Bounces := inferInstanceAs (Decidable (_ ≤ _))

/-- The DMA engine cannot use the buffer. -/
def Misaligned (t : SpiTransfer) : Prop :=
  ¬ t.Bounces ∧ ¬ SpiSys.CacheAligned (t.bulkBuf.getD 0) t.bulkLen

instance (t : SpiTransfer) : Decidable t.Misaligned := inferInstanceAs (Decidable (_ ∧ _))

end SpiTransfer

namespace SpiSys

def dmaBuf (s : SpiSys ς) (t : SpiTransfer) : Addr :=
  if t.Bounces then s.sspi.alignDmaBuf else t.bulkBuf.getD 0

def dataReg (s : SpiSys ς) (t : SpiTransfer) : BitVec 64 :=
  s.sspi.base + if t.rxBuf = none then spiTxdataReg else spiRxdataReg

/-- The memory with the bounce buffer made ready. -/
def staged (s : SpiSys ς) (t : SpiTransfer) : Addr → Byte :=
  if t.Bounces then
    put s.mem s.sspi.alignDmaBuf (if t.rxBuf = none then t.txData s.mem
      else List.replicate alignDmaBufSize 0)
  else s.mem

/-- `hal_dma_prep_device` gets its descriptor: no address is 0 and there is memory. -/
def Prepares (s : SpiSys ς) (env : SpiEnv) (t : SpiTransfer) : Prop :=
  (s.dataReg t).setWidth 32 ≠ 0 ∧ (BitVec.ofNat 64 (s.dmaBuf t)).setWidth 32 ≠ 0 ∧
    malloc s.dma.heap env.pick ≠ none

instance (s : SpiSys ς) (env : SpiEnv) (t : SpiTransfer) : Decidable (s.Prepares env t) :=
  inferInstanceAs (Decidable (_ ∧ _ ∧ _))

/-- The channel runs one descriptor, which moves the bytes between the data register
and the buffer. -/
def Programmed (dma : DmaSys) (c : ChanId) (s : SpiSys ς) (t : SpiTransfer) : Prop :=
  ∃ a lli, (dma.chans c).desc = some a ∧
  dma.regs (dmaLliAddr (dma.chans c).chanCount) = .ofNat 32 a ∧
    dma.heap.lookup a = some lli ∧ lli.vlln = none ∧ lli.pLln = linkEnd ∧ lli.len = t.bulkLen ∧
    let reg := (s.dataReg t).setWidth 32
    let buf := (BitVec.ofNat 64 (s.dmaBuf t)).setWidth 32
    if t.rxBuf = none then lli.src = buf ∧ lli.dst = reg else lli.src = reg ∧ lli.dst = buf

theorem deviceItem_moves (config : DmaSlaveConfig) (dest src len : BitVec 32)
    (h : dir = .memToDev ∨ dir = .devToMem) :
    (deviceItem config dest src len dir).src = src ∧
    (deviceItem config dest src len dir).dst = dest ∧
      (deviceItem config dest src len dir).len = len := by
  rcases h with rfl | rfl <;> exact ⟨rfl, rfl, rfl⟩

variable {own : ChanId → Bool}

theorem status_ok : ¬ (DmaRet.status halDmaStatusOk).ret ≠ 0 := not_not.2 rfl

theorem spiDmaSubmit_eq {dma : DmaSys} (hi : DmaInv own dma) (hd : d.chan = some c)
    (hdir : d.config.direction = .memToDev ∨ d.config.direction = .devToMem)
    (f p : DmaChan → Ptr)
    (hinst : ∀ chan, install chan = { chan with callback := f chan, callbackParam := p chan })
    (len : BitVec 32) (pick : Ptr) :
    if d.config.dstAddr.setWidth 32 ≠ 0 ∧ d.config.srcAddr.setWidth 32 ≠ 0 ∧
        malloc dma.heap pick ≠ none then
      ∃ u chan a lli, spiDmaSubmit d len pick install dma = some (spiMasterOk, u) ∧
        (chan.callback, chan.callbackParam) = dma.hook c ∧
        Worked c own (f chan, p chan) dma u ∧ (u.chans c).desc = some a ∧
        u.regs (dmaLliAddr (u.chans c).chanCount) = .ofNat 32 a ∧
        u.heap.lookup a = some lli ∧ lli.vlln = none ∧ lli.pLln = linkEnd ∧
        lli.src = d.config.srcAddr.setWidth 32 ∧ lli.dst = d.config.dstAddr.setWidth 32 ∧
        lli.len = len
    else
      ∃ u, spiDmaSubmit d len pick install dma = some (spiMasterError, u) ∧
        Worked c own (dma.hook c) dma u := by
  obtain ⟨v, hv, hheap, hwv⟩ := Worked.slaveConfig hi c d.config
  have hp := Worked.prepDevice hwv.inv c (d.config.dstAddr.setWidth 32)
    (d.config.srcAddr.setWidth 32) len d.config.direction pick
  rw [hheap] at hp
  rw [spiDmaSubmit, hd, hv]
  dsimp only
  rw [if_neg status_ok]
  split
  · next hc =>
    rw [if_pos hc] at hp
    obtain ⟨w, a, hw, hdesc, hlli, hww⟩ := hp
    obtain ⟨u, hu, hheapu, hdescu, hreg, hwu⟩ := Worked.start
      (Worked.install hww.inv c (f (w.chans c)) (p (w.chans c))).inv c
    rw [hw]
    dsimp only
    rw [if_neg status_ok, hinst, hu]
    obtain ⟨hsrc, hdst, hlen⟩ := deviceItem_moves (v.chans c).cfg (d.config.dstAddr.setWidth 32)
      (d.config.srcAddr.setWidth 32) len hdir
    refine ⟨u, w.chans c, a, { deviceItem (v.chans c).cfg (d.config.dstAddr.setWidth 32)
      (d.config.srcAddr.setWidth 32) len d.config.direction with pLln := linkEnd, vlln := none },
      rfl, hww.hook.trans hwv.hook, ?_, ?_, ?_, ?_, rfl, rfl, hsrc, hdst, hlen⟩
    · have hi' := Worked.install hww.inv c (f (w.chans c)) (p (w.chans c))
      have hall := ((hwv.trans hww).trans hi').trans hwu
      rwa [hi'.hook] at hall
    · rw [hdescu, DmaSys.setChan_self, hdesc]
    · rw [hreg, DmaSys.setChan_self, hdesc]
      rfl
    · rw [hheapu, DmaSys.setChan_heap, hlli]
  · next hc =>
    rw [if_neg hc] at hp
    obtain ⟨ret, hret, hw⟩ := hp
    rw [hw]
    dsimp only
    rw [if_pos (show (DmaRet.status ret).ret ≠ 0 from hret)]
    exact ⟨v, rfl, hwv⟩

/-- How the set-up of a transfer by DMA ends, where `own` are the channels in use before. -/
inductive Begun (env : SpiEnv) (t : SpiTransfer) (own : ChanId → Bool) (s : SpiSys ς) :
    Int → SpiSys ς → Prop
  /-- the buffer does not suit the engine, or no channel is left -/
  | refused (h : t.Misaligned ∨ ∀ c, own c = true) (regs : SpiRegs) :
    Begun env t own s spiMasterError { s with regs, mem := s.staged t }
  /-- the channel is taken, but not its descriptor -/
  | unprepared {dma : DmaSys} (hm : ¬ t.Misaligned) (hp : ¬ s.Prepares env t) (hc : own c = false)
    (hw : Worked c (Function.update own c true) (s.dma.hook c) s.dma dma) (dmaTx dmaRx : SpiDma)
    (regs : SpiRegs) :
    Begun env t own s spiMasterError
      { s with sspi := { s.sspi with dmaTx, dmaRx }, regs, mem := s.staged t, dma }
  /-- the channel runs -/
  | running {dma : DmaSys} (hm : ¬ t.Misaligned) (hp : s.Prepares env t) (hc : own c = false)
    (hn : (halDmaChanRequest s.dma).1.chan = some c)
    (hw : Worked c (Function.update own c true)
      (if t.rxBuf = none then s.dma.hook c else (some s.rxCallback, some s.self)) s.dma dma)
    (hr : Programmed dma c s t) (dmaTx dmaRx : SpiDma)
    (hd : (if t.rxBuf = none then dmaTx.chan else dmaRx.chan) = some c) (regs : SpiRegs) :
    Begun env t own s spiMasterOk
      { s with sspi := { s.sspi with dmaTx, dmaRx }, regs, mem := s.staged t, dma }

theorem dmaSlaveConfig_addrs (direction : DmaTransferDirection) (srcAddr dstAddr : BitVec 64)
    (len slaveId : BitVec 32) :
    (dmaSlaveConfig direction srcAddr dstAddr len slaveId).direction = direction ∧
      (dmaSlaveConfig direction srcAddr dstAddr len slaveId).srcAddr = srcAddr ∧
      (dmaSlaveConfig direction srcAddr dstAddr len slaveId).dstAddr = dstAddr := by
  rw [dmaSlaveConfig]
  split <;> exact ⟨rfl, rfl, rfl⟩

theorem staged_misaligned {s : SpiSys ς} (h : t.Misaligned) : s.staged t = s.mem := if_neg h.1

theorem misaligned_iff {t : SpiTransfer} (hlen : t.bulkLen = len) (hbuf : t.bulkBuf = some buf) :
    t.Misaligned ↔ alignDmaBufSize < len.toNat ∧ ¬ CacheAligned buf len := by
  rw [SpiTransfer.Misaligned, SpiTransfer.Bounces, Nat.not_le, hbuf, hlen]
  rfl

theorem dmaBuf_eq {t : SpiTransfer} {s : SpiSys ς} (hlen : t.bulkLen = len)
    (hbuf : t.bulkBuf = some buf) :
    (if len.toNat ≤ alignDmaBufSize then s.sspi.alignDmaBuf else buf) = s.dmaBuf t := by
  subst hlen
  rw [dmaBuf, hbuf]
  rfl

theorem staged_eq {t : SpiTransfer} {s : SpiSys ς} (hlen : t.bulkLen = len)
    (hdata : (if t.rxBuf = none then t.txData s.mem else List.replicate alignDmaBufSize 0) = data) :
    (if len.toNat ≤ alignDmaBufSize then { s with mem := put s.mem s.sspi.alignDmaBuf data }
      else s) = { s with mem := s.staged t } := by
  subst hlen
  rw [staged, hdata]
  by_cases hb : t.Bounces
  · rw [if_pos hb]
    exact if_pos hb
  · rw [if_neg hb]
    exact if_neg hb

theorem begun_of_submit {s : SpiSys ς} {dma : DmaSys} (install : DmaChan → DmaChan)
    (hm : ¬ t.Misaligned) (hc : own c = false)
    (hn : (halDmaChanRequest s.dma).1.chan = some c)
    (hw : Worked c (Function.update own c true) (s.dma.hook c) s.dma dma)
    (hh : dma.heap = s.dma.heap)
    (hd : d.chan = some c)
    (ha : if t.rxBuf = none then
        d.config.direction = .memToDev ∧ d.config.dstAddr = s.dataReg t ∧
          d.config.srcAddr = .ofNat 64 (s.dmaBuf t)
      else
        d.config.direction = .devToMem ∧ d.config.srcAddr = s.dataReg t ∧
          d.config.dstAddr = .ofNat 64 (s.dmaBuf t))
    (f p : DmaChan → Ptr)
    (hinst : ∀ chan, install chan = { chan with callback := f chan, callbackParam := p chan })
    (hf : ∀ chan, (f chan, p chan) = if t.rxBuf = none then (chan.callback, chan.callbackParam)
      else (some s.rxCallback, some s.self)) (env : SpiEnv) :
    ∃ r u, spiDmaSubmit d t.bulkLen env.pick install dma = some (r, u) ∧
      (if r ≠ 0 then spiMasterError else spiMasterOk) = r ∧ ∀ dmaTx dmaRx regs,
      (if t.rxBuf = none then dmaTx = d else dmaRx = d) →
        Begun env t own s r
          { s with sspi := { s.sspi with dmaTx, dmaRx }, regs, mem := s.staged t, dma := u } := by
  have hdir : d.config.direction = .memToDev ∨ d.config.direction = .devToMem := by
    by_cases hn : t.rxBuf = none
    · rw [if_pos hn] at ha
      exact .inl ha.1
    · rw [if_neg hn] at ha
      exact .inr ha.1
  have hprep : d.config.dstAddr.setWidth 32 ≠ 0 ∧ d.config.srcAddr.setWidth 32 ≠ 0 ∧
      malloc dma.heap env.pick ≠ none ↔ s.Prepares env t := by
    rw [Prepares, hh]
    by_cases hn : t.rxBuf = none
    · rw [if_pos hn] at ha
      rw [ha.2.1, ha.2.2]
    · rw [if_neg hn] at ha
      rw [ha.2.1, ha.2.2, and_left_comm]
  have hsub := spiDmaSubmit_eq hw.inv hd hdir f p hinst t.bulkLen env.pick
  split at hsub
  · next hp =>
    obtain ⟨u, chan, a, lli, hs, hcb, hwu, hdesc, hreg, hlook, hv, hl, hsrc, hdst, hlen⟩ := hsub
    refine ⟨_, u, hs, rfl, fun dmaTx dmaRx regs hthis => ?_⟩
    refine .running hm (hprep.1 hp) hc hn ?_ ?_ dmaTx dmaRx ?_ regs
    · rw [hf] at hwu
      have hall := hw.trans hwu
      rw [hcb, hw.hook] at hall
      exact hall
    · refine ⟨a, lli, hdesc, hreg, hlook, hv, hl, hlen, ?_⟩
      by_cases hn : t.rxBuf = none
      · rw [if_pos hn] at ha ⊢
        exact ⟨by rw [hsrc, ha.2.2], by rw [hdst, ha.2.1]⟩
      · rw [if_neg hn] at ha ⊢
        exact ⟨by rw [hsrc, ha.2.1], by rw [hdst, ha.2.2]⟩
    · by_cases hn : t.rxBuf = none
      · rw [if_pos hn] at hthis ⊢
        rw [hthis, hd]
      · rw [if_neg hn] at hthis ⊢
        rw [hthis, hd]
  · next hp =>
    obtain ⟨u, hs, hwu⟩ := hsub
    have hall := hw.trans hwu
    rw [hw.hook] at hall
    exact ⟨_, u, hs, rfl, fun dmaTx dmaRx regs _ =>
      .unprepared hm (fun h => hp (hprep.2 h)) hc hall dmaTx dmaRx regs⟩

theorem spiDmaTx_begun {s : SpiSys ς} (env : SpiEnv) (hi : DmaInv own s.dma)
    (htx : s.sspi.transfer.txBuf = some buf) (hrx : s.sspi.transfer.rxBuf = none) :
    ∃ r s', spiDmaTx env s = some (r, s') ∧ Begun env s.sspi.transfer own s r s' := by
  have hbuf : s.sspi.transfer.bulkBuf = some buf := by rw [SpiTransfer.bulkBuf, if_pos hrx, htx]
  have hlen : s.sspi.transfer.bulkLen = s.sspi.transfer.txLen := if_pos hrx
  have hbad := misaligned_iff hlen hbuf
  rw [spiDmaTx, spiDmaTxConfig, htx]
  dsimp only
  by_cases hm : s.sspi.transfer.Misaligned
  · rw [if_pos (hbad.1 hm)]
    have hb : Begun env s.sspi.transfer own s spiMasterError _ := .refused (.inl hm) s.regs
    rw [staged_misaligned hm] at hb
    exact ⟨_, _, if_pos (show spiMasterInvalidParameter ≠ 0 by decide), hb⟩
  · rw [if_neg (mt hbad.2 hm)]
    have hdata : (if s.sspi.transfer.rxBuf = none then s.sspi.transfer.txData s.mem
        else List.replicate alignDmaBufSize 0) = slice s.mem buf s.sspi.transfer.txLen.toNat := by
      rw [SpiTransfer.txData, htx, if_pos hrx]
    rw [staged_eq hlen hdata]
    dsimp only
    rw [dmaBuf_eq hlen hbuf]
    rcases request_cases hi with ⟨c, dma, hc, hreq, hh, hw⟩ | ⟨hall, hreq⟩
    · rw [hreq]
      dsimp only
      rw [if_neg (show halDmaChanStatusFree ≠ halDmaChanStatusBusy by decide)]
      obtain ⟨hdir, hsrc, hdst⟩ := dmaSlaveConfig_addrs .memToDev
        (.ofNat 64 (s.dmaBuf s.sspi.transfer))
        (s.sspi.base + spiTxdataReg) s.sspi.transfer.txLen
        (sunxiSlaveId (drqdstSpi0Tx + .ofNat 32 s.sspi.port) drqsrcSdram)
      have hreg : s.sspi.base + spiTxdataReg = s.dataReg s.sspi.transfer := by
        rw [dataReg, if_pos hrx]
      rw [if_neg (not_not.2 (rfl : spiMasterOk = 0)), spiDmaTxSubmit]
      dsimp only [onRegs]
      generalize dmaSlaveConfig .memToDev (.ofNat 64 (s.dmaBuf s.sspi.transfer))
        (s.sspi.base + spiTxdataReg) s.sspi.transfer.txLen
        (sunxiSlaveId (drqdstSpi0Tx + .ofNat 32 s.sspi.port) drqsrcSdram) =
        config at hdir hsrc hdst ⊢
      obtain ⟨r, u, hs, hr, hb⟩ := begun_of_submit (t := s.sspi.transfer) (s := s)
        (d := ⟨config, some c⟩) id hm hc (by rw [hreq]) hw hh rfl
        (by rw [if_pos hrx]; exact ⟨hdir, hdst.trans hreg, hsrc⟩) DmaChan.callback
        DmaChan.callbackParam (fun _ => rfl) (fun chan => by rw [if_pos hrx]) env
      rw [hlen] at hs
      rw [hs, Option.map_some]
      dsimp only
      rw [hr]
      exact ⟨r, _, rfl, hb ⟨config, some c⟩ s.sspi.dmaRx _ (by rw [if_pos hrx])⟩
    · rw [hreq]
      dsimp only
      rw [if_pos (show (DmaRet.status halDmaChanStatusBusy).ret = halDmaChanStatusBusy from rfl)]
      exact ⟨_, _, if_pos (show spiMasterError ≠ 0 by decide), .refused (.inr hall) s.regs⟩

theorem spiDmaRx_begun {s : SpiSys ς} (env : SpiEnv) (hi : DmaInv own s.dma)
    (hrx : s.sspi.transfer.rxBuf = some buf) :
    ∃ r s', spiDmaRx env s = some (r, s') ∧ Begun env s.sspi.transfer own s r s' := by
  have hsome : s.sspi.transfer.rxBuf ≠ none := by
    rw [hrx]
    exact Option.some_ne_none buf
  have hbuf : s.sspi.transfer.bulkBuf = some buf := by rw [SpiTransfer.bulkBuf, if_neg hsome, hrx]
  have hlen : s.sspi.transfer.bulkLen = s.sspi.transfer.rxLen := if_neg hsome
  have hbad := misaligned_iff hlen hbuf
  rw [spiDmaRx, spiDmaRxConfig, hrx]
  dsimp only
  by_cases hm : s.sspi.transfer.Misaligned
  · rw [if_pos (hbad.1 hm)]
    have hb : Begun env s.sspi.transfer own s spiMasterError _ := .refused (.inl hm) s.regs
    rw [staged_misaligned hm] at hb
    exact ⟨_, _, if_pos (show spiMasterInvalidParameter ≠ 0 by decide), hb⟩
  · rw [if_neg (mt hbad.2 hm)]
    rw [staged_eq hlen (if_neg hsome)]
    dsimp only
    rw [dmaBuf_eq hlen hbuf]
    have hdma : ({ s with mem := s.staged s.sspi.transfer }.onRegs
        (spiEnableDmaIrq spiFifoCtlRxDrqen)).dma = s.dma := rfl
    rw [hdma]
    rcases request_cases hi with ⟨c, dma, hc, hreq, hh, hw⟩ | ⟨hall, hreq⟩
    · rw [hreq]
      dsimp only
      rw [if_neg (show halDmaChanStatusFree ≠ halDmaChanStatusBusy by decide)]
      obtain ⟨hdir, hsrc, hdst⟩ := dmaSlaveConfig_addrs .devToMem (s.sspi.base + spiRxdataReg)
        (.ofNat 64 (s.dmaBuf s.sspi.transfer)) s.sspi.transfer.rxLen
        (sunxiSlaveId drqdstSdram (drqsrcSpi0Rx + .ofNat 32 s.sspi.port))
      have hreg : s.sspi.base + spiRxdataReg = s.dataReg s.sspi.transfer := by
        rw [dataReg, if_neg hsome]
      rw [if_neg (not_not.2 (rfl : spiMasterOk = 0)), spiDmaRxSubmit]
      dsimp only [onRegs]
      generalize dmaSlaveConfig .devToMem (s.sspi.base + spiRxdataReg)
        (.ofNat 64 (s.dmaBuf s.sspi.transfer)) s.sspi.transfer.rxLen
        (sunxiSlaveId drqdstSdram (drqsrcSpi0Rx + .ofNat 32 s.sspi.port)) =
        config at hdir hsrc hdst ⊢
      obtain ⟨r, u, hs, hr, hb⟩ := begun_of_submit (t := s.sspi.transfer) (s := s)
        (d := ⟨config, some c⟩)
        (fun chan => { chan with callback := some s.rxCallback, callbackParam := some s.self })
        hm hc (by rw [hreq]) hw hh rfl (by rw [if_neg hsome]; exact ⟨hdir, hsrc.trans hreg, hdst⟩)
        (fun _ => some s.rxCallback) (fun _ => some s.self) (fun _ => rfl)
        (fun chan => by rw [if_neg hsome]) env
      rw [hlen] at hs
      rw [hs, Option.map_some]
      dsimp only
      rw [hr]
      exact ⟨r, _, rfl, hb s.sspi.dmaTx ⟨config, some c⟩ _ (by rw [if_neg hsome])⟩
    · rw [hreq]
      dsimp only
      rw [if_pos (show (DmaRet.status halDmaChanStatusBusy).ret = halDmaChanStatusBusy from rfl)]
      exact ⟨_, _, if_pos (show spiMasterError ≠ 0 by decide), .refused (.inr hall) _⟩

end SpiSys
end D1Flash
