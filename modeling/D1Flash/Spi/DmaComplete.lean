import D1Flash.Spi.DmaTransfer

namespace D1Flash
open HalSem (halSemPost halSemTimedwait)
open LinkedHeap
open NorArray (put slice)
set_option autoImplicit true

variable {ς : Type} [HalSem ς]

namespace SpiSys

/-- What interrupts make of data shared with the handlers that the driver wrote to. -/
def after (s : SpiSys ς) (sig : SpiSignal ς) (is : List SpiIntr) : SpiSignal ς :=
  (s.quiet sig s.regs s.trace).signal is

theorem after_result (s : SpiSys ς) (sig : SpiSignal ς) (is : List SpiIntr) :
    (s.after sig is).result = resultAfter (statuses is) sig.result := rfl

theorem signal_result (s : SpiSys ς) (is : List SpiIntr) :
    (s.signal is).result = resultAfter (statuses is) s.sspi.result := rfl

theorem deliver_quiet (s : SpiSys ς) (sig : SpiSignal ς) (is : List SpiIntr) (regs : SpiRegs)
    (trace : List SpiEvent) :
    ∃ regs' trace', (s.quiet sig regs trace).deliver is =
    s.quiet (s.after sig is) regs' trace' := by
  obtain ⟨r, h⟩ := (s.quiet sig regs trace).deliver_eq is
  exact ⟨r, _, h⟩

variable {own : ChanId → Bool} (env : SpiEnv) (v : SpiSys ς)

/-- `spi_dma_tx_complete` does not wait in vain. -/
def TxAwaited : Prop := (halSemTimedwait 1000 (v.signal env.waiting).xSemaphoreTx).1 = 0

/-- `spi_dma_rx_complete` does not wait in vain. -/
def RxAwaited : Prop := (halSemTimedwait 1000 (v.signal env.waiting).xSemaphoreRx).1 = 0

instance : Decidable (v.TxAwaited env) := inferInstanceAs (Decidable (_ = _))
instance : Decidable (v.RxAwaited env) := inferInstanceAs (Decidable (_ = _))

/-- The data shared with the handlers where a wait for the transmitter ends. -/
def txTaken : SpiSignal ς :=
  { v.signal env.waiting with
    xSemaphoreTx := (halSemTimedwait 1000 (v.signal env.waiting).xSemaphoreTx).2 }

/-- The data shared with the handlers where a wait for the receiver ends. -/
def rxTaken : SpiSignal ς :=
  { v.signal env.waiting with
    xSemaphoreRx := (halSemTimedwait 1000 (v.signal env.waiting).xSemaphoreRx).2 }

/-- What `spi_dma_tx_complete` leaves of the data shared with the handlers. -/
def txEnd : SpiSignal ς :=
  let sig := v.after (v.txTaken env) env.woken
  if v.TxAwaited env then v.after sig env.late
  else
    v.after { sig with
      result := spiXferFailed
      xSemaphoreTx := (halSemPost sig.xSemaphoreTx).2 } env.late

/-- The driver reads a result that is not a failure as a success. -/
theorem read_result (r : Int) :
    (if r = spiXferOk then spiMasterOk else if r = spiXferFailed then spiMasterError else 0) =
      if r = spiXferFailed then spiMasterError else spiMasterOk := by
  by_cases hr : r = spiXferOk
  · rw [if_pos hr, hr, if_neg (by decide)]
  · rw [if_neg hr]

/-- The wait for the end of a transmission, up to the stop of the channel. -/
theorem txWait_eq :
    (txWait env (v.deliver env.waiting)).2.dma = v.dma ∧
      (txWait env (v.deliver env.waiting)).1 = (if v.TxAwaited env then
          if resultAfter (statuses (env.waiting ++ env.woken)) v.sspi.result = spiXferFailed then
            spiMasterError else spiMasterOk
        else spiMasterErrorTimeout) ∧
      ∃ regs trace, (txWait env (v.deliver env.waiting)).2.deliver env.late =
        v.quiet (v.txEnd env) regs trace := by
  obtain ⟨r₁, h₁⟩ := v.deliver_eq env.waiting
  obtain ⟨r₂, tr₂, h₂⟩ := v.deliver_quiet (v.txTaken env) env.woken r₁
    (v.trace ++ v.events env.waiting)
  have hwait : txWait env (v.deliver env.waiting) =
      let s := v.quiet (v.after (v.txTaken env) env.woken) r₂ tr₂
      if v.TxAwaited env then
        (if s.sspi.result = spiXferOk then spiMasterOk
          else if s.sspi.result = spiXferFailed then spiMasterError else 0, s)
      else (spiMasterErrorTimeout, (s.setResult spiXferFailed).postTx) := by
    rw [h₁, ← h₂]
    rfl
  have hres : (v.after (v.txTaken env) env.woken).result =
      resultAfter (statuses (env.waiting ++ env.woken)) v.sspi.result := by
    rw [after_result, statuses_append, resultAfter_append]
    rfl
  rw [hwait, txEnd]
  dsimp only
  by_cases ha : v.TxAwaited env
  · rw [if_pos ha, if_pos ha, if_pos ha]
    refine ⟨rfl, ?_, ?_⟩
    · apply (read_result _).trans
      rw [← hres]
      rfl
    · apply deliver_quiet
  · rw [if_neg ha, if_neg ha, if_neg ha]
    refine ⟨rfl, rfl, ?_⟩
    apply deliver_quiet

theorem spiDmaTxComplete_eq (hi : DmaInv own v.dma) (hchan : v.sspi.dmaTx.chan = some c)
    (hc : own c = true) :
    ∃ regs trace dma, Worked c (Function.update own c false) (none, none) v.dma dma ∧
      spiDmaTxComplete env v = some (
        if v.TxAwaited env then
          if resultAfter (statuses (env.waiting ++ env.woken)) v.sspi.result = spiXferFailed then
            spiMasterError else spiMasterOk
        else spiMasterErrorTimeout,
        { v.quiet (v.txEnd env) regs trace with dma }) := by
  obtain ⟨dma₁, dma, hstop, hfree, hw⟩ := Worked.giveBack hi hc
  obtain ⟨hdma, hret, regs, trace, hend⟩ := txWait_eq env v
  have hd : (v.quiet (v.txEnd env) regs trace).dma = v.dma := rfl
  rw [spiDmaTxComplete, hchan]
  dsimp only
  rw [hend, hd, hstop]
  dsimp only
  rw [if_neg status_ok, hfree]
  dsimp only
  rw [if_neg status_ok, hret]
  exact ⟨regs, trace, dma, hw, rfl⟩

/-- What `spi_dma_rx_complete` leaves of the data shared with the handlers. -/
def rxEnd : SpiSignal ς :=
  v.after { v.after (v.rxTaken env) env.woken with
    result := if v.RxAwaited env then spiXferOk else spiXferFailed } env.late

/-- The memory after the driver looked for what the engine stored in the bounce buffer. -/
def fetched (m : Addr → Byte) (t : SpiTransfer) : Addr → Byte :=
  let m := put m v.sspi.alignDmaBuf (slice env.dram 0 (spiAlign t.bulkLen.toNat 64))
  if t.Bounces then put m (t.bulkBuf.getD 0) (slice m v.sspi.alignDmaBuf t.bulkLen.toNat) else m

/-- The memory after a reception that was set up. -/
def received (t : SpiTransfer) : Addr → Byte :=
  let m := put v.mem (v.dmaBuf t) (slice env.shown 0 t.bulkLen.toNat)
  if v.RxAwaited env then v.fetched env m t else m

section
variable {t : SpiTransfer} (hrx : t.rxBuf = some buf)
include hrx

theorem rxBuf_ne_none : t.rxBuf ≠ none := by
  rw [hrx]
  exact Option.some_ne_none buf

theorem bulkLen_rx : t.bulkLen = t.rxLen := if_neg (rxBuf_ne_none hrx)

theorem bulkBuf_rx : t.bulkBuf = some buf := (if_neg (rxBuf_ne_none hrx)).trans hrx

theorem bounces_rx : t.Bounces ↔ t.rxLen.toNat ≤ alignDmaBufSize := by
  rw [← bulkLen_rx hrx]
  exact Iff.rfl

end

omit [HalSem ς] in
/-- The state in which the engine may have stored what it received. -/
theorem dmaStore_eq (s : SpiSys ς) (hrx : s.sspi.transfer.rxBuf = some buf) :
    dmaStore env s = { s with
      mem := put s.mem (s.dmaBuf s.sspi.transfer)
        (slice env.shown 0 s.sspi.transfer.bulkLen.toNat) } := by
  have hlen := bulkLen_rx hrx
  have hdst : (if s.sspi.transfer.rxLen.toNat ≤ alignDmaBufSize then some s.sspi.alignDmaBuf
      else some buf).getD 0 = s.dmaBuf s.sspi.transfer := by
    rw [dmaBuf, bulkBuf_rx hrx]
    by_cases hb : s.sspi.transfer.Bounces
    · rw [if_pos hb, if_pos ((bounces_rx hrx).1 hb)]
      rfl
    · rw [if_neg hb, if_neg (mt (bounces_rx hrx).2 hb)]
  rw [dmaStore, hrx, hlen, hdst]

theorem rxWait_step (s : SpiSys ς) (hrx : s.sspi.transfer.rxBuf = some buf) :
    ∃ regs trace, rxWait env s =
      let sig := s.after { s.sspi.toSpiSignal with
        xSemaphoreRx := (halSemTimedwait 1000 s.sspi.xSemaphoreRx).2 } env.woken
      if (halSemTimedwait 1000 s.sspi.xSemaphoreRx).1 = 0 then
        (spiMasterOk, { s.quiet { sig with result := spiXferOk } regs trace with
          mem := s.fetched env s.mem s.sspi.transfer })
      else
        (spiMasterErrorTimeout, s.quiet { sig with result := spiXferFailed } regs trace) := by
  unfold rxWait
  generalize halSemTimedwait 1000 s.sspi.xSemaphoreRx = wait
  obtain ⟨xResult, sem⟩ := wait
  obtain ⟨r, tr, h⟩ := s.deliver_quiet { s.sspi.toSpiSignal with xSemaphoreRx := sem } env.woken
    s.regs s.trace
  have hs : ({ s with sspi := { s.sspi with xSemaphoreRx := sem } } : SpiSys ς).deliver env.woken =
    s.quiet (s.after { s.sspi.toSpiSignal with xSemaphoreRx := sem } env.woken) r tr := h
  dsimp only
  rw [hs]
  refine ⟨r, tr, ?_⟩
  by_cases ha : xResult = 0
  · dsimp only [dcacheInvalidate, setResult, quiet]
    rw [if_neg (not_not.2 ha), if_pos ha, fetched, bulkBuf_rx hrx, bulkLen_rx hrx, hrx]
    dsimp only
    by_cases hb : s.sspi.transfer.Bounces
    · rw [if_pos hb, if_pos ((bounces_rx hrx).1 hb)]
      rfl
    · rw [if_neg hb, if_neg (mt (bounces_rx hrx).2 hb)]
  · rw [if_pos ha, if_neg ha]
    rfl

/-- The wait for the end of a reception, up to the stop of the channel. -/
theorem rxWait_eq (hrx : v.sspi.transfer.rxBuf = some buf) :
    (rxWait env (dmaStore env (v.deliver env.waiting))).1 =
        (if v.RxAwaited env then spiMasterOk else spiMasterErrorTimeout) ∧
      ∃ regs trace, ((rxWait env (dmaStore env (v.deliver env.waiting))).2.onRegs
          (spiDisableIrq (spiIntStaTc ||| spiIntStaErr))).deliver env.late =
        { v.quiet (v.rxEnd env) regs trace with mem := v.received env v.sspi.transfer } := by
  obtain ⟨r₁, h₁⟩ := v.deliver_eq env.waiting
  -- the state with what the cache shows of the buffer
  obtain ⟨u, hu⟩ : ∃ u : SpiSys ς, u = { v with
    mem := put v.mem (v.dmaBuf v.sspi.transfer)
      (slice env.shown 0 v.sspi.transfer.bulkLen.toNat) } := ⟨_, rfl⟩
  obtain ⟨x, hx⟩ : ∃ x, x = u.quiet (u.signal env.waiting) r₁ (v.trace ++ v.events env.waiting) :=
    ⟨_, rfl⟩
  have hstore : dmaStore env (v.deliver env.waiting) = x := by
    rw [h₁, hx, hu]
    apply dmaStore_eq
    exact hrx
  have hbuf : x.sspi.transfer.rxBuf = some buf := by
    rw [hx, hu]
    exact hrx
  obtain ⟨r₂, tr₂, h₂⟩ := rxWait_step env x hbuf
  have hwait : rxWait env x =
      if v.RxAwaited env then
        (spiMasterOk, {
          u.quiet { v.after (v.rxTaken env) env.woken with result := spiXferOk } r₂ tr₂ with
          mem := v.fetched env u.mem v.sspi.transfer })
      else
        (spiMasterErrorTimeout,
          u.quiet { v.after (v.rxTaken env) env.woken with result := spiXferFailed } r₂ tr₂) := by
    rw [h₂, hx, hu]
    rfl
  -- the interrupts up to the end of the call do not see the memory
  have hlate : ∀ (m : Addr → Byte) (result : Int), ∃ regs trace,
      (({ u.quiet { v.after (v.rxTaken env) env.woken with result } r₂ tr₂ with
        mem := m } : SpiSys ς).onRegs (spiDisableIrq (spiIntStaTc ||| spiIntStaErr))).deliver
          env.late =
        { v.quiet (v.after { v.after (v.rxTaken env) env.woken with result } env.late) regs
            trace with
          mem := m } := by
    intro m result
    obtain ⟨r₃, tr₃, h₃⟩ := ({ v with mem := m } : SpiSys ς).deliver_quiet
      { v.after (v.rxTaken env) env.woken with result } env.late
      (spiDisableIrq (spiIntStaTc ||| spiIntStaErr) r₂) tr₂
    rw [hu]
    exact ⟨r₃, tr₃, h₃⟩
  have hmem : u.mem = put v.mem (v.dmaBuf v.sspi.transfer)
      (slice env.shown 0 v.sspi.transfer.bulkLen.toNat) := by rw [hu]
  rw [hstore, hwait, received, rxEnd, ← hmem]
  dsimp only
  by_cases ha : v.RxAwaited env
  · rw [if_pos ha, if_pos ha, if_pos ha, if_pos ha]
    exact ⟨rfl, hlate (v.fetched env u.mem v.sspi.transfer) spiXferOk⟩
  · rw [if_neg ha, if_neg ha, if_neg ha, if_neg ha]
    exact ⟨rfl, hlate u.mem spiXferFailed⟩

theorem spiDmaRxComplete_eq (hi : DmaInv own v.dma) (hchan : v.sspi.dmaRx.chan = some c)
    (hc : own c = true) (hrx : v.sspi.transfer.rxBuf = some buf) :
    ∃ regs trace dma, Worked c (Function.update own c false) (none, none) v.dma dma ∧
      spiDmaRxComplete env v = some (
        if v.RxAwaited env then spiMasterOk else spiMasterErrorTimeout,
        { v.quiet (v.rxEnd env) regs trace with mem := v.received env v.sspi.transfer, dma }) := by
  obtain ⟨dma₁, dma, hstop, hfree, hw⟩ := Worked.giveBack hi hc
  obtain ⟨hret, regs, trace, hend⟩ := rxWait_eq env v hrx
  obtain ⟨y, hy⟩ : ∃ y : SpiSys ς, y = { v.quiet (v.rxEnd env) regs trace with
    mem := v.received env v.sspi.transfer } := ⟨_, rfl⟩
  have hdma : y.dma = v.dma := by
    rw [hy]
    rfl
  rw [← hy] at hend
  rw [spiDmaRxComplete, hchan]
  dsimp only
  rw [hend, hdma, hstop]
  dsimp only
  rw [if_neg status_ok, hfree]
  dsimp only
  rw [if_neg status_ok, hret, hy]
  exact ⟨regs, trace, dma, hw, rfl⟩

end SpiSys
end D1Flash
