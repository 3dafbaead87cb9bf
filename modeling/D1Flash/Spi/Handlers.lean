import D1Flash.Spi.HalSpi

namespace D1Flash
open HalSem (halSemPost)
open LinkedHeap
set_option autoImplicit true

variable {ς : Type} [HalSem ς]

def IsTc (status : BitVec 32) : Prop := status &&& spiIntStaTc ≠ 0

def IsErr (status : BitVec 32) : Prop := status &&& spiIntStaErr ≠ 0

instance (status : BitVec 32) : Decidable (IsTc status) := inferInstanceAs (Decidable (_ ≠ _))
instance (status : BitVec 32) : Decidable (IsErr status) := inferInstanceAs (Decidable (_ ≠ _))

/-- An interrupt that the handler takes for an error. -/
def Fails (status : BitVec 32) : Prop := IsErr status ∧ ¬ IsTc status

/-- An interrupt that ends a wait for the transmitter. -/
def Wakes (status : BitVec 32) : Prop := IsTc status ∨ IsErr status

instance (status : BitVec 32) : Decidable (Fails status) := inferInstanceAs (Decidable (_ ∧ _))
instance (status : BitVec 32) : Decidable (Wakes status) := inferInstanceAs (Decidable (_ ∨ _))

def statuses (is : List SpiIntr) : List (BitVec 32) :=
  is.filterMap fun
    | .irq status => some (spiIntStaMask &&& status)
    | .dmaEnd _ => none

/-- What `result` is after the statuses. -/
def resultAfter (xs : List (BitVec 32)) (result : Int) : Int :=
  match xs.getLast? with
  | none => result
  | some status => if Fails status then spiXferFailed else spiXferOk

theorem statuses_append (is js : List SpiIntr) : statuses (is ++ js) = statuses is ++ statuses js :=
  List.filterMap_append

theorem resultAfter_append (xs ys : List (BitVec 32)) (result : Int) :
    resultAfter (xs ++ ys) result = resultAfter ys (resultAfter xs result) := by
  rw [resultAfter, List.getLast?_append]
  cases h : ys.getLast? with
  | none => rw [resultAfter, resultAfter, h]; rfl
  | some status => rw [resultAfter, h]; rfl

namespace SpiSys

/-- The state with other values of all that a handler writes. -/
def quiet (s : SpiSys ς) (sig : SpiSignal ς) (regs : SpiRegs) (trace : List SpiEvent) : SpiSys ς :=
  { s with sspi := { s.sspi with toSpiSignal := sig }, regs, trace }

/-- What an interrupt adds to the trace. -/
def event (s : SpiSys ς) : SpiIntr → List SpiEvent
  | .irq status => [.irq (spiIntStaMask &&& status)]
  | .dmaEnd c => if s.Rings c then [.dmaEnd c] else []

def events (s : SpiSys ς) (is : List SpiIntr) : List SpiEvent := is.flatMap s.event

/-- The channels that call `spi_dma_rx_callback`. -/
def ends (s : SpiSys ς) (is : List SpiIntr) : List ChanId :=
  is.filterMap fun
    | .irq _ => none
    | .dmaEnd c => if s.Rings c then some c else none

/-- One of the interrupts would end a wait for the transmitter. -/
def wakes (s : SpiSys ς) (is : List SpiIntr) : Bool :=
  !s.cpuXferOnly && (statuses is).any fun x => Wakes x

/-- A semaphore after a post that depends on a condition. -/
def posted (b : Bool) (x : ς) : ς := if b then (halSemPost x).2 else x

/-- What the interrupts make of the data shared with the handlers. -/
def signal (s : SpiSys ς) (is : List SpiIntr) : SpiSignal ς where
  result := resultAfter (statuses is) s.sspi.result
  sem := s.sspi.sem && !s.wakes is
  xSemaphoreTx := posted (s.sspi.sem && s.wakes is) s.sspi.xSemaphoreTx
  xSemaphoreRx := (fun x => (halSemPost x).2)^[(s.ends is).length] s.sspi.xSemaphoreRx

theorem signal_irq (s : SpiSys ς) (status : BitVec 32) :
    s.signal [.irq status] = {
      result := if Fails (spiIntStaMask &&& status) then spiXferFailed else spiXferOk
      sem := s.sspi.sem && !(!s.cpuXferOnly && decide (Wakes (spiIntStaMask &&& status)))
      xSemaphoreTx := posted
        (s.sspi.sem && (!s.cpuXferOnly && decide (Wakes (spiIntStaMask &&& status))))
        s.sspi.xSemaphoreTx
      xSemaphoreRx := s.sspi.xSemaphoreRx } := by
  simp only [signal, wakes, statuses, ends, List.filterMap_cons, List.filterMap_nil, List.any_cons,
    List.any_nil, Bool.or_false]
  rfl

theorem wakeTx_eq (s : SpiSys ς) :
    s.wakeTx = s.quiet { s.sspi.toSpiSignal with
      sem := s.sspi.sem && !(!s.cpuXferOnly)
      xSemaphoreTx := posted (s.sspi.sem && !s.cpuXferOnly) s.sspi.xSemaphoreTx }
      s.regs s.trace := by
  have hcomm := Bool.and_comm (!s.cpuXferOnly) s.sspi.sem
  rw [wakeTx, hcomm]
  by_cases hw : (s.sspi.sem && !s.cpuXferOnly) = true
  · obtain ⟨h, ho⟩ := Bool.and_eq_true_iff.1 hw
    rw [if_pos hw, hw, h, ho]
    rfl
  · have hsem : (s.sspi.sem && !(!s.cpuXferOnly)) = s.sspi.sem := by
      revert hw
      cases s.sspi.sem <;> cases s.cpuXferOnly <;> decide
    rw [if_neg hw, Bool.eq_false_of_not_eq_true hw, hsem]
    rfl

theorem spiIrqHandler_eq (s : SpiSys ς) (status : BitVec 32) :
    ∃ regs, s.spiIrqHandler status = s.quiet (s.signal [.irq status]) regs
      (s.trace ++ s.events [.irq status]) := by
  rw [signal_irq, spiIrqHandler]
  show ∃ regs, _ = s.quiet _ regs (s.trace ++ [.irq (spiIntStaMask &&& status)])
  generalize spiIntStaMask &&& status = x
  by_cases htc : x &&& spiIntStaTc ≠ 0
  · have hw : Wakes x := .inl htc
    rw [if_pos htc, wakeTx_eq, if_neg fun h : Fails x => h.2 htc, decide_eq_true hw, Bool.and_true]
    exact ⟨_, rfl⟩
  · by_cases herr : x &&& spiIntStaErr ≠ 0
    · have hw : Wakes x := .inr herr
      have hf : Fails x := ⟨herr, htc⟩
      rw [if_neg htc, if_pos herr, wakeTx_eq, if_pos hf, decide_eq_true hw, Bool.and_true]
      exact ⟨_, rfl⟩
    · have hw : ¬ Wakes x := not_or.2 ⟨htc, herr⟩
      rw [if_neg htc, if_neg herr, if_neg fun h : Fails x => herr h.1, decide_eq_false hw,
        Bool.and_false, Bool.not_false, Bool.and_true, Bool.and_false]
      exact ⟨_, rfl⟩

theorem intr_eq (s : SpiSys ς) (i : SpiIntr) :
    ∃ regs, s.intr i = s.quiet (s.signal [i]) regs (s.trace ++ s.events [i]) := by
  cases i with
  | irq status => exact s.spiIrqHandler_eq status
  | dmaEnd c =>
    refine ⟨s.regs, ?_⟩
    have hev : s.events [.dmaEnd c] = if s.Rings c then [.dmaEnd c] else [] :=
      List.append_nil _
    have hsig : s.signal [.dmaEnd c] = { s.sspi.toSpiSignal with
        xSemaphoreRx :=
          (fun x => (halSemPost x).2)^[(s.ends [.dmaEnd c]).length] s.sspi.xSemaphoreRx } := by
      show SpiSignal.mk s.sspi.result (s.sspi.sem && !(!s.cpuXferOnly && false))
        (posted (s.sspi.sem && (!s.cpuXferOnly && false)) s.sspi.xSemaphoreTx) _ = _
      rw [Bool.and_false, Bool.not_false, Bool.and_true, Bool.and_false]
      rfl
    have hends : s.ends [.dmaEnd c] = if s.Rings c then [c] else [] := by
      by_cases hr : s.Rings c <;> simp [ends, hr]
    rw [hev, hsig, intr, hends]
    by_cases hr : s.Rings c
    · rw [if_pos hr, if_pos hr, if_pos hr]
      rfl
    · rw [if_neg hr, if_neg hr, if_neg hr, List.append_nil]
      rfl

theorem signal_nil (s : SpiSys ς) : s.signal [] = s.sspi.toSpiSignal := by
  show SpiSignal.mk s.sspi.result (s.sspi.sem && !(!s.cpuXferOnly && false))
    (posted (s.sspi.sem && (!s.cpuXferOnly && false)) s.sspi.xSemaphoreTx) s.sspi.xSemaphoreRx = _
  rw [Bool.and_false, Bool.not_false, Bool.and_true, Bool.and_false]
  rfl

/-- The flag lets one interrupt post only. -/
theorem posted_once (x : ς) (sem first rest : Bool) :
    posted (sem && !first && rest) (posted (sem && first) x) =
    posted (sem && (first || rest)) x := by
  cases sem <;> cases first <;> cases rest <;> rfl

theorem signal_append (s : SpiSys ς) (is js : List SpiIntr) (regs : SpiRegs)
    (trace : List SpiEvent) :
    (s.quiet (s.signal is) regs trace).signal js = s.signal (is ++ js) := by
  have hst := statuses_append is js
  have hends : s.ends (is ++ js) = s.ends is ++ s.ends js := List.filterMap_append
  have hresult : resultAfter (statuses js) (resultAfter (statuses is) s.sspi.result) =
      resultAfter (statuses (is ++ js)) s.sspi.result := by
    rw [hst, resultAfter_append]
  have hwake : s.wakes (is ++ js) = (s.wakes is || s.wakes js) := by
    rw [wakes, hst, List.any_append, Bool.and_or_distrib_left]
    rfl
  have hsem : (s.sspi.sem && !s.wakes is && !s.wakes js) = (s.sspi.sem && !s.wakes (is ++ js)) := by
    rw [hwake, Bool.not_or, Bool.and_assoc]
  have htx := posted_once s.sspi.xSemaphoreTx s.sspi.sem (s.wakes is) (s.wakes js)
  rw [← hwake] at htx
  have hrx : (fun x => (halSemPost x).2)^[(s.ends js).length]
      ((fun x => (halSemPost x).2)^[(s.ends is).length] s.sspi.xSemaphoreRx) =
        (fun x => (halSemPost x).2)^[(s.ends (is ++ js)).length] s.sspi.xSemaphoreRx := by
    rw [hends, List.length_append, Nat.add_comm, Function.iterate_add_apply]
  have hall : s.signal (is ++ js) = ⟨_, _, _, _⟩ := rfl
  rw [hall, ← hresult, ← hsem, ← htx, ← hrx]
  rfl

omit [HalSem ς] in
theorem events_append (s : SpiSys ς) (is js : List SpiIntr) :
    s.events (is ++ js) = s.events is ++ s.events js := List.flatMap_append

theorem deliver_eq (s : SpiSys ς) (is : List SpiIntr) :
    ∃ regs, s.deliver is = s.quiet (s.signal is) regs (s.trace ++ s.events is) := by
  induction is generalizing s with
  | nil =>
    refine ⟨s.regs, ?_⟩
    rw [signal_nil]
    show s = s.quiet s.sspi.toSpiSignal s.regs (s.trace ++ [])
    rw [List.append_nil]
    rfl
  | cons i is ih =>
    obtain ⟨r, hr⟩ := s.intr_eq i
    obtain ⟨r', hr'⟩ := ih (s.intr i)
    refine ⟨r', ?_⟩
    show (s.intr i).deliver is = _
    have hev : s.events (i :: is) = s.events [i] ++ s.events is := s.events_append [i] is
    rw [hr', hr, signal_append, hev, ← List.append_assoc]
    rfl

theorem deliver_append (s : SpiSys ς) (is js : List SpiIntr) :
    s.deliver (is ++ js) = (s.deliver is).deliver js := List.foldl_append

@[simp] theorem deliver_mem (s : SpiSys ς) (is : List SpiIntr) : (s.deliver is).mem = s.mem := by
  obtain ⟨regs, h⟩ := s.deliver_eq is
  rw [h]
  rfl

@[simp] theorem deliver_dma (s : SpiSys ς) (is : List SpiIntr) : (s.deliver is).dma = s.dma := by
  obtain ⟨regs, h⟩ := s.deliver_eq is
  rw [h]
  rfl

omit [HalSem ς] in
/-- The handler of the DMA driver calls this driver only for a channel that rings. -/
theorem rings_of_irqTurn {s : SpiSys ς}
    (h : irqTurn c statusL statusH s.dma = some (some (s.rxCallback, some s.self), dma')) :
    s.Rings c := by
  have hcb : (s.dma.chans c).callback.map (·, (s.dma.chans c).callbackParam) =
      some (s.rxCallback, some s.self) → (s.dma.chans c).used = true → s.Rings c := by
    intro hm hu
    obtain ⟨f, hf, he⟩ := Option.map_eq_some_iff.1 hm
    exact ⟨hu, hf.trans (congrArg (fun p => some p.1) he), congrArg Prod.snd he⟩
  rw [irqTurn] at h
  split at h
  · cases h
  · next hu =>
    have hused : (s.dma.chans c).used = true := by
      rw [Bool.not_eq_true, Bool.not_eq_false'] at hu
      exact hu
    dsimp only at h
    split at h
    · cases h
    · split at h
      · split at h
        · cases h
        · exact hcb (congrArg Prod.fst (Option.some.inj h)) hused
      · exact hcb (congrArg Prod.fst (Option.some.inj h)) hused

/-! The call up to its transfer. -/

end SpiSys

/-- The mode a transfer is run in. -/
def SpiTransfer.mode (t : SpiTransfer) : SpiModeType :=
  match t.txBuf, t.rxBuf with
  | some _, some _ => .fullDuplexTxRx
  | some _, none =>
    if t.txNbits = spiNbitsQuad then .quadHalfDuplexTx
    else if t.txNbits = spiNbitsDual then .dualHalfDuplexTx
    else .sgleHalfDuplexTx
  | none, some _ =>
    if t.rxNbits = spiNbitsQuad then .quadHalfDuplexRx
    else if t.rxNbits = spiNbitsDual then .dualHalfDuplexRx
    else .sgleHalfDuplexRx
  | none, none => .null

namespace SpiSys

omit [HalSem ς] in
theorem spiModeCheck_eq {s : SpiSys ς} (h : s.sspi.modeType = .null) :
    ∃ regs, s.spiModeCheck = (spiMasterOk,
      { s with sspi := { s.sspi with modeType := s.sspi.transfer.mode }, regs }) := by
  rw [spiModeCheck, if_neg (not_not.2 h), SpiTransfer.mode]
  cases s.sspi.transfer.txBuf with
  | none =>
    cases s.sspi.transfer.rxBuf with
    | none => exact ⟨s.regs, by rw [← h]⟩
    | some rxBuf => exact ⟨_, rfl⟩
  | some txBuf =>
    cases s.sspi.transfer.rxBuf with
    | some rxBuf => exact ⟨_, rfl⟩
    | none =>
      dsimp only
      split
      · exact ⟨_, rfl⟩
      · split
        · exact ⟨_, rfl⟩
        · exact ⟨_, rfl⟩

/-- The state in which `spi_mode_check` finds the controller. -/
def called (env : SpiEnv) (t : SpiTransfer) (regs : SpiRegs) (s : SpiSys ς) : SpiSys ς :=
  { s with
    sspi := { s.sspi with
      toSpiSignal := { s.signal (env.entry ++ env.setup) with
        result := resultAfter (statuses env.setup) spiXferReady }
      transfer := t }
    regs
    trace := s.trace ++ s.events (env.entry ++ env.setup) }

theorem called_eq (s : SpiSys ς) (env : SpiEnv) (t : SpiTransfer) :
    ∃ regs, ((s.deliver env.entry).accept t).deliver env.setup = s.called env t regs := by
  obtain ⟨r, hr⟩ := s.deliver_eq env.entry
  rw [hr]
  obtain ⟨r', hr'⟩ := deliver_eq
    ((s.quiet (s.signal env.entry) r (s.trace ++ s.events env.entry)).accept t) env.setup
  refine ⟨r', hr'.trans ?_⟩
  have hsig := s.signal_append env.entry env.setup r (s.trace ++ s.events env.entry)
  rw [called, events_append, ← List.append_assoc, ← hsig]
  rfl

/-- The state in which the transfer starts. -/
def primed (env : SpiEnv) (t : SpiTransfer) (regs : SpiRegs) (s : SpiSys ς) : SpiSys ς :=
  (s.called env t regs).setMode t.mode

def Refuses (s : SpiSys ς) (t : SpiTransfer) : Prop := BadTransfer t ∨ s.sspi.modeType ≠ .null

instance (s : SpiSys ς) (t : SpiTransfer) : Decidable (s.Refuses t) :=
  inferInstanceAs (Decidable (_ ∨ _))

theorem spiXfer_refused {s : SpiSys ς} (env : SpiEnv) (h : s.Refuses t) :
    ∃ is result transfer regs trace, s.spiXfer env (some t) = some (spiMasterInvalidParameter,
      { s with
        sspi := { s.sspi with toSpiSignal := { s.signal is with result }, transfer }
        regs
        trace }) := by
  rw [spiXfer]
  by_cases ht : BadTransfer t
  · obtain ⟨regs, hd⟩ := s.deliver_eq env.entry
    rw [if_pos ht, hd]
    exact ⟨env.entry, _, _, _, _, rfl⟩
  · obtain ⟨regs, hr⟩ := s.called_eq env t
    have hm : (s.called env t regs).sspi.modeType ≠ .null := h.resolve_left ht
    rw [if_neg ht, hr, spiModeCheck, if_pos hm]
    exact ⟨env.entry ++ env.setup, _, _, _, _, if_pos (by decide)⟩

theorem spiXfer_accepted {s : SpiSys ς} (env : SpiEnv) (h : ¬ s.Refuses t) :
    ∃ regs, s.spiXfer env (some t) =
      match (s.primed env t regs).spiTransfer env with
      | none => none
      | some (ret, s) => if ret ≠ 0 then some (spiMasterError, s) else s.spiComplete env := by
  obtain ⟨ht, hm⟩ := not_or.1 h
  obtain ⟨regs, hr⟩ := s.called_eq env t
  have hnull : (s.called env t regs).sspi.modeType = .null := not_not.1 hm
  obtain ⟨regs', hr'⟩ := spiModeCheck_eq hnull
  rw [spiXfer, if_neg ht, hr, hr']
  dsimp only
  rw [if_neg (not_not.2 (rfl : spiMasterOk = 0))]
  exact ⟨spiEnableIrq (spiIntenTc ||| spiIntenErr) (spiResetFifo
    (spiDisableDmaIrq spiFifoCtlDrqenMask (spiClrIrqPending spiIntStaMask regs'))), rfl⟩

end SpiSys

end D1Flash
