import D1Flash.Spi.DmaComplete

namespace D1Flash
open LinkedHeap
set_option autoImplicit true

variable {ς : Type} [HalSem ς]

namespace SpiSys

variable {own : ChanId → Bool} (env : SpiEnv)

/-- The data shared with the handlers when a transfer by DMA is set up. -/
def startSignal (s : SpiSys ς) (env : SpiEnv) (t : SpiTransfer) : SpiSignal ς :=
  let sig := (s.called env t s.regs).sspi.toSpiSignal
  if t.rxBuf = none then (s.quiet { sig with sem := true } s.regs s.trace).signal env.started
  else sig

/-- The state in which a transfer by DMA is set up. -/
def starting (s : SpiSys ς) (env : SpiEnv) (t : SpiTransfer) (regs : SpiRegs)
    (trace : List SpiEvent) :
    SpiSys ς :=
  { s with
    sspi := { s.sspi with toSpiSignal := s.startSignal env t, modeType := t.mode, transfer := t }
    regs
    trace }

omit [HalSem ς] in
theorem Begun.ret {s : SpiSys ς} (h : Begun env t own s r s') :
    r = spiMasterOk ∨ r = spiMasterError := by
  cases h with
  | refused => exact .inr rfl
  | unprepared => exact .inr rfl
  | running => exact .inl rfl

theorem starting_tx (s : SpiSys ς) (hrx : t.rxBuf = none) (regs : SpiRegs) :
    ∃ regs' trace, ((({ s.primed env t regs with
      sspi := { (s.primed env t regs).sspi with sem := true } } : SpiSys ς).onRegs
        spiStartXfer).deliver env.started) = s.starting env t regs' trace := by
  obtain ⟨u, hu⟩ : ∃ u : SpiSys ς, u = (({ s.primed env t regs with
    sspi := { (s.primed env t regs).sspi with sem := true } } : SpiSys ς).onRegs
      spiStartXfer) := ⟨_, rfl⟩
  obtain ⟨r, h⟩ := u.deliver_eq env.started
  rw [← hu, h]
  refine ⟨r, u.trace ++ u.events env.started, ?_⟩
  rw [starting, startSignal, if_pos hrx, hu]
  rfl

theorem starting_rx (s : SpiSys ς) (hrx : t.rxBuf ≠ none) (regs regs' : SpiRegs)
    (trace : List SpiEvent) :
    s.starting env t regs' trace = { s.primed env t regs with regs := regs', trace } := by
  rw [starting, startSignal, if_neg hrx]
  rfl

theorem spiTransfer_dma {s : SpiSys ς} (hi : DmaInv own s.dma) (hok : ¬ s.Refuses t)
    (hbulk : s.Bulk t.bulkLen) (regs : SpiRegs) :
    ∃ regs' trace r v f, (s.primed env t regs).spiTransfer env = some (r, v.onRegs f) ∧
      Begun env t own (s.starting env t regs' trace) r v := by
  have hbuf : ¬ BadTransfer t := fun h => hok (.inl h)
  have hmode : (s.primed env t regs).sspi.modeType = t.mode := rfl
  rw [SpiTransfer.bulkLen] at hbulk
  rw [spiTransfer, hmode]
  cases hrx : t.rxBuf with
  | none =>
    have hb : (s.primed env t regs).Bulk (s.primed env t regs).sspi.transfer.txLen := by
      rw [if_pos hrx] at hbulk
      exact hbulk
    cases htx : t.txBuf with
    | none => exact (hbuf (.inl ⟨htx, hrx⟩)).elim
    | some txBuf =>
      obtain ⟨r', tr, hstart⟩ := starting_tx env s hrx regs
      obtain ⟨r, v, hv, hbegun⟩ := spiDmaTx_begun (s := s.starting env t r' tr) env hi htx hrx
      refine ⟨r', tr, r, v, id, ?_, hbegun⟩
      rcases SpiTransfer.mode_tx htx hrx with h | h | h <;> rw [h] <;> dsimp only <;>
        rw [if_pos hb, hstart, hv] <;> rfl
  | some rxBuf =>
    have hsome : t.rxBuf ≠ none := by
      rw [hrx]
      exact Option.some_ne_none rxBuf
    have hb : (s.primed env t regs).Bulk (s.primed env t regs).sspi.transfer.rxLen := by
      rw [if_neg hsome] at hbulk
      exact hbulk
    cases htx : t.txBuf with
    | none =>
      obtain ⟨u, hu⟩ : ∃ u, u = (s.primed env t regs).onRegs (spiDisableIrq spiIntenTc) := ⟨_, rfl⟩
      have hstart : u = s.starting env t u.regs u.trace := by
        rw [starting_rx env s hsome regs, hu]
        rfl
      obtain ⟨r, v, hv, hbegun⟩ := spiDmaRx_begun (s := s.starting env t u.regs u.trace) env hi hrx
      rw [← hstart] at hv
      rcases hbegun.ret with hr | hr
      · refine ⟨_, _, r, v, spiStartXfer, ?_, hbegun⟩
        rcases SpiTransfer.mode_rx htx hrx with h | h | h <;> rw [h] <;> dsimp only <;>
          rw [if_pos hb, ← hu, hv, hr] <;> rfl
      · refine ⟨_, _, r, v, id, ?_, hbegun⟩
        rcases SpiTransfer.mode_rx htx hrx with h | h | h <;> rw [h] <;> dsimp only <;>
          rw [if_pos hb, ← hu, hv, hr] <;> rfl
    | some txBuf =>
      obtain ⟨u, hu⟩ : ∃ u, u = ((s.primed env t regs).onRegs (spiDisableIrq spiIntenTc)).onRegs
        spiStartXfer := ⟨_, rfl⟩
      obtain ⟨w, hw, -⟩ := spiCpuWrite_spec env u
      have hstart : u.logAll w = s.starting env t u.regs (u.trace ++ w) := by
        rw [starting_rx env s hsome regs, hu]
        rfl
      obtain ⟨r, v, hv, hbegun⟩ := spiDmaRx_begun
        (s := s.starting env t u.regs (u.trace ++ w)) env hi hrx
      refine ⟨_, _, r, v, id, ?_, hbegun⟩
      rw [SpiTransfer.mode, htx, hrx]
      dsimp only
      rw [if_pos hb, ← hu, hw, hstart, hv]
      rfl

/-- The state in which a transfer by DMA runs. -/
def running (s : SpiSys ς) (env : SpiEnv) (t : SpiTransfer) (dmaTx dmaRx : SpiDma) (regs : SpiRegs)
    (trace : List SpiEvent) (dma : DmaSys) : SpiSys ς :=
  { s.starting env t regs trace with
    sspi := { (s.starting env t regs trace).sspi with dmaTx, dmaRx }
    mem := s.staged t
    dma }

/-- The channel is one that runs for the call. -/
structure Running (env : SpiEnv) (t : SpiTransfer) (own : ChanId → Bool) (c : ChanId)
    (s v : SpiSys ς) :
    Prop where
  free : own c = false
  chan : (halDmaChanRequest s.dma).1.chan = some c
  worked : Worked c (Function.update own c true)
    (if t.rxBuf = none then s.dma.hook c else (some s.rxCallback, some s.self)) s.dma v.dma
  signal : v.sspi.toSpiSignal = s.startSignal env t
  build : v.cpuXferOnly = s.cpuXferOnly
  self : v.self = s.self ∧ v.rxCallback = s.rxCallback
  mem : v.mem = s.staged t
  bounce : v.sspi.alignDmaBuf = s.sspi.alignDmaBuf

/-- How a call with a transfer by DMA ends. -/
inductive DmaOutcome (env : SpiEnv) (t : SpiTransfer) (own : ChanId → Bool) (s : SpiSys ς) :
    Int → SpiSys ς → Prop
  | refused (h : t.Misaligned ∨ ∀ c, own c = true) (regs : SpiRegs) (trace : List SpiEvent) :
    DmaOutcome env t own s spiMasterError
      { s with
        sspi := { s.sspi with toSpiSignal := s.startSignal env t, transfer := t }
        regs
        trace
        mem := s.staged t }
  | unprepared {dma : DmaSys} (hm : ¬ t.Misaligned) (hp : ¬ s.Prepares env t) (hc : own c = false)
    (hw : Worked c (Function.update own c true) (s.dma.hook c) s.dma dma) (dmaTx dmaRx : SpiDma)
    (regs : SpiRegs) (trace : List SpiEvent) :
    DmaOutcome env t own s spiMasterError
      { s with
        sspi := { s.sspi with toSpiSignal := s.startSignal env t, transfer := t, dmaTx, dmaRx }
        regs
        trace
        mem := s.staged t
        dma }
  | sent {dma : DmaSys} (hm : ¬ t.Misaligned) (hp : s.Prepares env t) (hrx : t.rxBuf = none)
    (hr : Running env t own c s v) (hw : Worked c own (none, none) s.dma dma) (dmaTx dmaRx : SpiDma)
    (regs : SpiRegs) (trace : List SpiEvent) :
    DmaOutcome env t own s
      (if v.TxAwaited env ∧ resultAfter (statuses (env.waiting ++ env.woken)) v.sspi.result ≠
        spiXferFailed then spiMasterOk else spiMasterError)
      { s with
        sspi := { s.sspi with toSpiSignal := v.txEnd env, transfer := t, dmaTx, dmaRx }
        regs
        trace
        mem := s.staged t
        dma }
  | received {dma : DmaSys} (hm : ¬ t.Misaligned) (hp : s.Prepares env t) (hrx : t.rxBuf ≠ none)
    (hr : Running env t own c s v) (hw : Worked c own (none, none) s.dma dma) (dmaTx dmaRx : SpiDma)
    (regs : SpiRegs) (trace : List SpiEvent) :
    DmaOutcome env t own s (if v.RxAwaited env then spiMasterOk else spiMasterError)
      { s with
        sspi := { s.sspi with toSpiSignal := v.rxEnd env, transfer := t, dmaTx, dmaRx }
        regs
        trace
        mem := v.received env t
        dma }

theorem spiComplete_tx {v : SpiSys ς} (hmode : v.sspi.modeType = v.sspi.transfer.mode)
    (htx : v.sspi.transfer.txBuf = some buf) (hrx : v.sspi.transfer.rxBuf = none)
    (hb : v.Bulk v.sspi.transfer.bulkLen) :
    v.spiComplete env = (spiDmaTxComplete env v).map fun p =>
      (if p.1 ≠ 0 then spiMasterError else spiMasterOk, p.2) := by
  rw [SpiTransfer.bulkLen, if_pos hrx] at hb
  rw [spiComplete, hmode]
  rcases SpiTransfer.mode_tx htx hrx with h | h | h <;> rw [h] <;> dsimp only <;> rw [if_pos hb]

theorem spiComplete_rx {v : SpiSys ς} (hmode : v.sspi.modeType = v.sspi.transfer.mode)
    (hrx : v.sspi.transfer.rxBuf = some buf) (hb : v.Bulk v.sspi.transfer.bulkLen) :
    v.spiComplete env = (spiDmaRxComplete env v).map fun p =>
      (if p.1 ≠ 0 then spiMasterError else spiMasterOk, p.2) := by
  have hsome : v.sspi.transfer.rxBuf ≠ none := by
    rw [hrx]
    exact Option.some_ne_none buf
  rw [SpiTransfer.bulkLen, if_neg hsome] at hb
  rw [spiComplete, hmode]
  cases htx : v.sspi.transfer.txBuf with
  | none =>
    rcases SpiTransfer.mode_rx htx hrx with h | h | h <;> rw [h] <;> dsimp only <;> rw [if_pos hb]
  | some txBuf =>
    rw [SpiTransfer.mode, htx, hrx]
    dsimp only
    rw [if_pos hb]

theorem sent_code (a b : Prop) [Decidable a] [Decidable b] :
    (if (if a then if b then spiMasterError else spiMasterOk else spiMasterErrorTimeout) ≠ 0 then
      spiMasterError else spiMasterOk) = if a ∧ ¬ b then spiMasterOk else spiMasterError := by
  by_cases ha : a
  · by_cases hb : b
    · rw [if_pos ha, if_pos hb, if_pos (by decide), if_neg fun h => h.2 hb]
    · rw [if_pos ha, if_neg hb, if_neg (not_not.2 rfl), if_pos ⟨ha, hb⟩]
  · rw [if_neg ha, if_pos (by decide), if_neg fun h => ha h.1]

theorem received_code (a : Prop) [Decidable a] :
    (if (if a then spiMasterOk else spiMasterErrorTimeout) ≠ 0 then spiMasterError
    else spiMasterOk) =
      if a then spiMasterOk else spiMasterError := by
  by_cases ha : a
  · rw [if_pos ha, if_pos ha, if_neg (not_not.2 rfl)]
  · rw [if_neg ha, if_neg ha, if_pos (by decide)]

theorem spiComplete_running {s : SpiSys ς} {dma : DmaSys} (hok : ¬ s.Refuses t)
    (hb : s.Bulk t.bulkLen) (hm : ¬ t.Misaligned) (hp : s.Prepares env t) (hc : own c = false)
    (hn : (halDmaChanRequest s.dma).1.chan = some c)
    (hw : Worked c (Function.update own c true)
      (if t.rxBuf = none then s.dma.hook c else (some s.rxCallback, some s.self)) s.dma dma)
    (dmaTx dmaRx : SpiDma) (hd : (if t.rxBuf = none then dmaTx.chan else dmaRx.chan) = some c)
    (regs : SpiRegs) (trace : List SpiEvent) :
    ∃ r s', ((s.running env t dmaTx dmaRx regs trace dma).spiComplete env).map
        (fun p => (p.1, p.2.setMode .null)) = some (r, s') ∧ DmaOutcome env t own s r s' := by
  have hnull : s.sspi.modeType = .null := not_not.1 (not_or.1 hok).2
  have hrun : Running env t own c s (s.running env t dmaTx dmaRx regs trace dma) :=
    ⟨hc, hn, hw, rfl, rfl, ⟨rfl, rfl⟩, rfl, rfl⟩
  have hown : Function.update own c true c = true := Function.update_self ..
  have hback : Function.update (Function.update own c true) c false = own := by
    rw [Function.update_idem, ← hc, Function.update_eq_self]
  cases hrx : t.rxBuf with
  | none =>
    rw [if_pos hrx] at hd
    obtain ⟨txBuf, htx⟩ : ∃ txBuf, t.txBuf = some txBuf := by
      cases htx : t.txBuf with
      | none => exact (hok (.inl (.inl ⟨htx, hrx⟩))).elim
      | some txBuf => exact ⟨txBuf, rfl⟩
    obtain ⟨regs', trace', dma', hw', he⟩ := spiDmaTxComplete_eq env
      (s.running env t dmaTx dmaRx regs trace dma) hrun.worked.inv hd hown
    rw [hback] at hw'
    rw [spiComplete_tx (v := s.running env t dmaTx dmaRx regs trace dma) env rfl htx hrx hb, he,
      Option.map_some, Option.map_some]
    refine ⟨_, _, rfl, ?_⟩
    have ho := DmaOutcome.sent hm hp hrx hrun (hw.trans hw') dmaTx dmaRx regs' trace'
    dsimp only
    rw [sent_code, ← hnull]
    exact ho
  | some buf =>
    have hsome : t.rxBuf ≠ none := by
      rw [hrx]
      exact Option.some_ne_none buf
    rw [if_neg hsome] at hd
    obtain ⟨regs', trace', dma', hw', he⟩ := spiDmaRxComplete_eq env
      (s.running env t dmaTx dmaRx regs trace dma) hrun.worked.inv hd hown hrx
    rw [hback] at hw'
    rw [spiComplete_rx (v := s.running env t dmaTx dmaRx regs trace dma) env rfl hrx hb, he,
      Option.map_some, Option.map_some]
    refine ⟨_, _, rfl, ?_⟩
    have ho := DmaOutcome.received hm hp hsome hrun (hw.trans hw') dmaTx dmaRx regs' trace'
    dsimp only
    rw [received_code, ← hnull]
    exact ho

theorem halSpiXfer_dma {s : SpiSys ς} (hi : DmaInv own s.dma) (hok : ¬ s.Refuses t)
    (hbulk : s.Bulk t.bulkLen) :
    ∃ r s', s.halSpiXfer env (some t) = some (r, s') ∧ DmaOutcome env t own s r s' := by
  obtain ⟨regs, hx⟩ := spiXfer_accepted env hok
  obtain ⟨regs', trace, r, v, f, hv, hbegun⟩ := spiTransfer_dma env hi hok hbulk regs
  have hnull : s.sspi.modeType = .null := not_not.1 (not_or.1 hok).2
  rw [halSpiXfer, hx, hv]
  dsimp only
  cases hbegun with
  | refused h regs =>
    rw [if_pos (by decide)]
    refine ⟨_, _, rfl, ?_⟩
    have ho : DmaOutcome env t own s spiMasterError _ := .refused h (f regs) trace
    rw [← hnull]
    exact ho
  | unprepared hm hp hc hw dmaTx dmaRx regs =>
    rw [if_pos (by decide)]
    refine ⟨_, _, rfl, ?_⟩
    have hp' : ¬ s.Prepares env t := hp
    have hw' : Worked _ _ (s.dma.hook _) s.dma _ := hw
    have ho := DmaOutcome.unprepared hm hp' hc hw' dmaTx dmaRx (f regs) trace
    rw [← hnull]
    exact ho
  | running hm hp hc hn hw hr dmaTx dmaRx hd regs =>
    rw [if_neg (not_not.2 rfl)]
    exact spiComplete_running env hok hbulk hm hp hc hn hw dmaTx dmaRx hd (f regs) trace

end SpiSys
end D1Flash
