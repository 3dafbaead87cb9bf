import D1Flash.Spi.Channels

namespace D1Flash
open HalSem (halSemPost halSemTimedwait)
open LinkedHeap Runs
set_option autoImplicit true

variable {ς : Type} [HalSem ς]

/-! The tokens of the transmitter's semaphore over whole runs. -/

/-- The last interrupt of a transmission is one the handler takes for an error. -/
def SpiEnv.SentInError (env : SpiEnv) : Prop :=
  ((statuses (env.setup ++ env.started ++ env.waiting ++ env.woken)).getLast?.any
    fun x => Fails x) = true

instance (env : SpiEnv) : Decidable env.SentInError := inferInstanceAs (Decidable (_ = true))

namespace SpiSys

variable {s s' : SpiSys ς} {own : ChanId → Bool} {tokens : ς → Nat} (env : SpiEnv)

/-- The tokens for the transmitter that are there or promised to the next interrupt. -/
def credit (tokens : ς → Nat) (sig : SpiSignal ς) : Nat :=
  tokens sig.xSemaphoreTx + if sig.sem then 1 else 0

theorem tokens_posted (ht : HalSem.Counts tokens) (b : Bool) (x : ς) :
    tokens (posted b x) = tokens x + if b then 1 else 0 := by
  cases b with
  | false => rfl
  | true => exact ht.post x

/-- The handlers turn a promise into a token, and make none. -/
theorem credit_signal (ht : HalSem.Counts tokens) (s : SpiSys ς) (is : List SpiIntr) :
    credit tokens (s.signal is) = credit tokens s.sspi.toSpiSignal := by
  have hpost := tokens_posted ht (s.sspi.sem && s.wakes is) s.sspi.xSemaphoreTx
  show tokens (posted _ _) + (if (s.sspi.sem && !s.wakes is) = true then 1 else 0) =
    tokens s.sspi.xSemaphoreTx + if s.sspi.sem = true then 1 else 0
  rw [hpost]
  cases s.sspi.sem <;> cases s.wakes is <;> rfl

theorem credit_after (ht : HalSem.Counts tokens) (s : SpiSys ς) (sig : SpiSignal ς)
    (is : List SpiIntr) : credit tokens (s.after sig is) = credit tokens sig :=
  credit_signal ht (s.quiet sig s.regs s.trace) is

/-- A call that does not wait for the DMA engine: what its interrupts do is all it does to the
tokens. -/
theorem halSpiXfer_plain (ht : HalSem.Counts tokens) (t : Option SpiTransfer)
    (h : ∀ t', t = some t' → ¬ s.Refuses t' → ¬ s.Bulk t'.bulkLen) :
    ∃ r s' is, s.halSpiXfer env t = some (r, s') ∧ s'.dma = s.dma ∧ s'.self = s.self ∧
      s'.rxCallback = s.rxCallback ∧
      credit tokens s'.sspi.toSpiSignal = credit tokens s.sspi.toSpiSignal ∧
      s'.sspi.xSemaphoreRx = (s.signal is).xSemaphoreRx := by
  cases t with
  | none =>
    obtain ⟨regs, hd⟩ := s.deliver_eq env.entry
    refine ⟨_, _, env.entry, rfl, ?_, ?_, ?_, ?_, ?_⟩
    · exact s.deliver_dma env.entry
    · rw [hd]; rfl
    · rw [hd]; rfl
    · rw [hd]
      exact credit_signal ht s env.entry
    · rw [hd]; rfl
  | some t =>
    by_cases hok : s.Refuses t
    · obtain ⟨is, result, transfer, regs, trace, hx⟩ := spiXfer_refused env hok
      rw [halSpiXfer, hx]
      exact ⟨_, _, is, rfl, rfl, rfl, rfl, credit_signal ht s is, rfl⟩
    · obtain ⟨w, r, regs, mem, hx, -⟩ := halSpiXfer_cpu env hok (h t rfl hok)
      generalize env.completing = js at hx
      refine ⟨_, _, env.entry ++ env.setup ++ js, hx, rfl, rfl, rfl, ?_, ?_⟩
      · exact (credit_signal ht (s.called env t s.regs) js).trans
          (credit_signal ht s (env.entry ++ env.setup))
      · rw [← s.signal_append (env.entry ++ env.setup) js s.regs s.trace]
        rfl

/-- The set-up of a transfer by DMA succeeds. -/
def Begins (s : SpiSys ς) (env : SpiEnv) (t : SpiTransfer) : Prop :=
  ¬ t.Misaligned ∧ (∃ c, (s.dma.chans c).used = false) ∧ s.Prepares env t

/-- There is a token when the end of a transmission is waited for, or one comes. -/
def TxAwaits (s : SpiSys ς) (env : SpiEnv) (t : SpiTransfer) : Prop :=
  (s.quiet (s.startSignal env t) s.regs s.trace).TxAwaited env

instance (s : SpiSys ς) (env : SpiEnv) (t : SpiTransfer) : Decidable (s.Begins env t) :=
  inferInstanceAs (Decidable (_ ∧ _ ∧ _))
instance (s : SpiSys ς) (env : SpiEnv) (t : SpiTransfer) : Decidable (s.TxAwaits env t) :=
  inferInstanceAs (Decidable (_ = _))

omit [HalSem ς] in
theorem begins_iff (hi : DmaInv own s.dma) :
    s.Begins env t ↔ ¬ (t.Misaligned ∨ ∀ c, own c = true) ∧ s.Prepares env t := by
  have hfree : (∃ c, (s.dma.chans c).used = false) ↔ ¬ ∀ c, own c = true := by
    rw [not_forall]
    refine exists_congr fun c => ?_
    rw [hi.used, Bool.not_eq_true]
  rw [Begins, hfree, not_or, and_assoc]

/-- The tokens when the flag is set for a transmission. -/
def onStart (tokens : ς → Nat) (s : SpiSys ς) (env : SpiEnv) : Nat :=
  tokens (s.signal (env.entry ++ env.setup)).xSemaphoreTx

theorem credit_start (ht : HalSem.Counts tokens) (s : SpiSys ς) (env : SpiEnv) (t : SpiTransfer) :
    credit tokens (s.startSignal env t) =
      if t.rxBuf = none then s.onStart tokens env + 1 else credit tokens s.sspi.toSpiSignal := by
  rw [startSignal]
  by_cases hrx : t.rxBuf = none
  · rw [if_pos hrx, if_pos hrx, credit_signal ht]
    rfl
  · rw [if_neg hrx, if_neg hrx]
    exact credit_signal ht s (env.entry ++ env.setup)

theorem result_start (s : SpiSys ς) (env : SpiEnv) (t : SpiTransfer) (hrx : t.rxBuf = none) :
    (s.startSignal env t).result =
      resultAfter (statuses (env.setup ++ env.started)) spiXferReady := by
  rw [startSignal, if_pos hrx, signal_result, statuses_append, resultAfter_append]
  rfl

theorem txAwaited_iff (ht : HalSem.Counts tokens) (v : SpiSys ς) :
    v.TxAwaited env ↔ 0 < tokens (v.signal env.waiting).xSemaphoreTx :=
  (ht.wait 1000 _).1

theorem credit_txTaken (ht : HalSem.Counts tokens) (v : SpiSys ς) :
    credit tokens (v.txTaken env) = credit tokens v.sspi.toSpiSignal -
      if v.TxAwaited env then 1 else 0 := by
  have htok := (ht.wait 1000 (v.signal env.waiting).xSemaphoreTx).2
  rw [← credit_signal ht v env.waiting]
  show tokens (halSemTimedwait 1000 (v.signal env.waiting).xSemaphoreTx).2 + _ =
    tokens (v.signal env.waiting).xSemaphoreTx + (if (v.signal env.waiting).sem then 1 else 0) - _
  rw [htok]
  by_cases ha : v.TxAwaited env
  · rw [if_pos ha]
    exact (Nat.sub_add_comm ((txAwaited_iff env ht v).1 ha)).symm
  · have hzero := Nat.eq_zero_of_not_pos (mt (txAwaited_iff env ht v).2 ha)
    rw [if_neg ha, hzero]
    rfl

/-- A wait that is not in vain takes a token; one that is puts one more. -/
theorem credit_txEnd (ht : HalSem.Counts tokens) (v : SpiSys ς) :
    credit tokens (v.txEnd env) =
      if v.TxAwaited env then credit tokens v.sspi.toSpiSignal - 1
      else credit tokens v.sspi.toSpiSignal + 1 := by
  have htaken := credit_txTaken env ht v
  have hwoken := credit_after ht v (v.txTaken env) env.woken
  rw [txEnd]
  by_cases ha : v.TxAwaited env
  · rw [if_pos ha] at htaken ⊢
    rw [if_pos ha, credit_after ht, hwoken, htaken]
  · rw [if_neg ha] at htaken ⊢
    rw [if_neg ha, credit_after ht, ← Nat.sub_zero (credit tokens v.sspi.toSpiSignal), ← htaken,
      ← hwoken]
    show tokens (halSemPost _).2 + _ = tokens _ + _ + 1
    rw [ht.post, Nat.add_right_comm]

theorem txAwaited_congr {v : SpiSys ς} (hsig : v.sspi.toSpiSignal = s.startSignal env t)
    (hbuild : v.cpuXferOnly = s.cpuXferOnly) : v.TxAwaited env ↔ s.TxAwaits env t := by
  have htx : (v.signal env.waiting).xSemaphoreTx =
      ((s.quiet (s.startSignal env t) s.regs s.trace).signal env.waiting).xSemaphoreTx := by
    show posted (v.sspi.toSpiSignal.sem && (!v.cpuXferOnly && _))
      v.sspi.toSpiSignal.xSemaphoreTx = _
    rw [hsig, hbuild]
    rfl
  rw [TxAwaits, TxAwaited, TxAwaited, htx]

theorem sentInError_iff (hr : Running env t own c s v) (hrx : t.rxBuf = none) :
    resultAfter (statuses (env.waiting ++ env.woken)) v.sspi.result = spiXferFailed ↔
      env.SentInError := by
  rw [hr.signal, result_start s env t hrx, ← resultAfter_append, ← statuses_append,
    resultAfter_failed, ← List.append_assoc]
  exact Iff.rfl

/-- A transmission by DMA. -/
theorem halSpiXfer_sent (ht : HalSem.Counts tokens) (hi : DmaInv own s.dma) (hok : ¬ s.Refuses t)
    (hb : s.Bulk t.bulkLen)
    (hrx : t.rxBuf = none) :
    ∃ r s', s.halSpiXfer env (some t) = some (r, s') ∧
      (r = spiMasterOk ↔ s.Begins env t ∧ s.TxAwaits env t ∧ ¬ env.SentInError) ∧
      credit tokens s'.sspi.toSpiSignal =
        if s.Begins env t then
          if s.TxAwaits env t then s.onStart tokens env else s.onStart tokens env + 2
        else s.onStart tokens env + 1 := by
  have hstart := credit_start ht s env t
  rw [if_pos hrx] at hstart
  obtain ⟨r, s', hx, ho⟩ := halSpiXfer_dma env hi hok hb
  refine ⟨r, s', hx, ?_⟩
  cases ho with
  | refused h regs trace =>
    have hnot : ¬ s.Begins env t := fun hbeg => ((begins_iff env hi).1 hbeg).1 h
    rw [if_neg hnot]
    exact ⟨iff_of_false (by decide) fun h => hnot h.1, hstart⟩
  | unprepared hm hp hc hw dmaTx dmaRx regs trace =>
    have hnot : ¬ s.Begins env t := fun hbeg => hp hbeg.2.2
    rw [if_neg hnot]
    exact ⟨iff_of_false (by decide) fun h => hnot h.1, hstart⟩
  | @sent c v dma hm hp hrx' hr hw dmaTx dmaRx regs trace =>
    have hbeg : s.Begins env t := ⟨hm, ⟨c, (hi.used c).trans hr.free⟩, hp⟩
    have hawait := txAwaited_congr env hr.signal hr.build
    have herr := sentInError_iff env hr hrx
    have hend := credit_txEnd env ht v
    rw [hr.signal, hstart] at hend
    rw [if_pos hbeg]
    constructor
    · rw [and_iff_right hbeg, ← hawait, ← herr]
      split
      · next h => exact iff_of_true rfl h
      · next h => exact iff_of_false (by decide) h
    · refine hend.trans ?_
      by_cases ha : s.TxAwaits env t
      · rw [if_pos (hawait.2 ha), if_pos ha]
        rfl
      · rw [if_neg (mt hawait.1 ha), if_neg ha]
  | received hm hp hrx' => exact (hrx' hrx).elim

theorem halSpiXfer_received_credit (ht : HalSem.Counts tokens) (hi : DmaInv own s.dma)
    (hok : ¬ s.Refuses t) (hb : s.Bulk t.bulkLen) (hrx : t.rxBuf ≠ none) :
    ∃ r s', s.halSpiXfer env (some t) = some (r, s') ∧
      credit tokens s'.sspi.toSpiSignal = credit tokens s.sspi.toSpiSignal := by
  have hstart := credit_start ht s env t
  rw [if_neg hrx] at hstart
  obtain ⟨r, s', hx, ho⟩ := halSpiXfer_dma env hi hok hb
  refine ⟨r, s', hx, ?_⟩
  cases ho with
  | refused h regs trace => exact hstart
  | unprepared hm hp hc hw dmaTx dmaRx regs trace => exact hstart
  | sent hm hp hrx' => exact (hrx hrx').elim
  | @received c v dma hm hp hrx' hr hw dmaTx dmaRx regs trace =>
    rw [← hr.signal] at hstart
    refine Eq.trans ?_ hstart
    refine (credit_after ht v _ env.late).trans ?_
    refine (credit_after ht v (v.rxTaken env) env.woken).trans ?_
    exact credit_signal ht v env.waiting

/-- A transmission that is left to the DMA engine. -/
def Sends (s : SpiSys ς) (t : SpiTransfer) : Prop :=
  ¬ s.Refuses t ∧ s.Bulk t.bulkLen ∧ t.rxBuf = none

end SpiSys

/-- An interrupt of the transmission itself ends the wait for it. -/
def SpiEnv.Ends (env : SpiEnv) : Prop := ∃ x ∈ statuses (env.started ++ env.waiting), Wakes x

namespace SpiSys

variable {s : SpiSys ς} {own : ChanId → Bool} {tokens : ς → Nat} (env : SpiEnv)

/-- The wait for a transmission ends by its own interrupt, or by a token that was there before. -/
theorem txAwaits_iff (ht : HalSem.Counts tokens) (hs : s.Sends t) :
    s.TxAwaits env t ↔ 0 < s.onStart tokens env ∨ env.Ends := by
  obtain ⟨-, ⟨hbuild, -⟩, hrx⟩ := hs
  have hwakes : ∀ is, s.wakes is = (statuses is).any fun x => Wakes x := by
    intro is
    rw [wakes, hbuild]
    rfl
  have hends : env.Ends ↔ s.wakes env.started = true ∨ s.wakes env.waiting = true := by
    rw [hwakes, hwakes, ← Bool.or_eq_true, ← List.any_append, ← statuses_append, List.any_eq_true]
    exact exists_congr fun x => and_congr_right fun _ => (decide_eq_true_iff).symm
  have htokens : tokens
      ((s.quiet (s.startSignal env t) s.regs s.trace).signal env.waiting).xSemaphoreTx =
        s.onStart tokens env + (if s.wakes env.started then 1 else 0) +
          (if !s.wakes env.started && s.wakes env.waiting then 1 else 0) := by
    rw [startSignal, if_pos hrx]
    refine (tokens_posted ht _ _).trans ?_
    refine congrArg₂ (· + ·) (tokens_posted ht _ _) ?_
    rfl
  apply (txAwaited_iff env ht _).trans
  rw [htokens, hends]
  cases s.wakes env.started <;> cases s.wakes env.waiting <;> simp

theorem onStart_le (ht : HalSem.Counts tokens) (s : SpiSys ς) :
    s.onStart tokens env ≤ credit tokens s.sspi.toSpiSignal := by
  rw [← credit_signal ht s (env.entry ++ env.setup)]
  exact Nat.le_add_right _ _

theorem onStart_eq (ht : HalSem.Counts tokens)
    (h : (s.signal (env.entry ++ env.setup)).sem = false) :
    s.onStart tokens env = credit tokens s.sspi.toSpiSignal := by
  rw [← credit_signal ht s (env.entry ++ env.setup), credit, h]
  rfl

/-- A call that is no transmission by DMA keeps the tokens of the transmitter. -/
theorem halSpiXfer_credit (ht : HalSem.Counts tokens) (hi : DmaInv own s.dma)
    (t : Option SpiTransfer) (h : ∀ t', t = some t' → ¬ s.Sends t') :
    ∃ r s', s.halSpiXfer env t = some (r, s') ∧
      credit tokens s'.sspi.toSpiSignal = credit tokens s.sspi.toSpiSignal := by
  by_cases hplain : ∀ t', t = some t' → ¬ s.Refuses t' → ¬ s.Bulk t'.bulkLen
  · obtain ⟨r, s', -, hx, -, -, -, hc, -⟩ := halSpiXfer_plain env ht t hplain
    exact ⟨r, s', hx, hc⟩
  · simp only [not_forall, not_not] at hplain
    obtain ⟨t', rfl, hok, hb⟩ := hplain
    exact halSpiXfer_received_credit env ht hi hok hb fun hrx => h t' rfl ⟨hok, hb, hrx⟩

end SpiSys

variable {tokens : ς → Nat} {r : Option (SpiSys ς)}

/-- The answer to a transmission by DMA is that of its own interrupts, and no token stays behind. -/
def TxExact (tokens : ς → Nat) (r : Option (SpiSys ς)) : SpiOp → Prop
  | .xfer env (some t) => ∀ s, r = some s → s.Sends t →
    ∃ ret s', s.halSpiXfer env (some t) = some (ret, s') ∧
      (ret = spiMasterOk ↔ s.Begins env t ∧ env.Ends ∧ ¬ env.SentInError) ∧
      SpiSys.credit tokens s'.sspi.toSpiSignal = 0
  | _ => True

/-- A transmission by DMA is set up, and its interrupt comes before the time is up. -/
def TxProper (r : Option (SpiSys ς)) : SpiOp → Prop
  | .xfer env (some t) => ∀ s, r = some s → s.Sends t → s.Begins env t ∧ env.Ends
  | _ => True

/-- There is no token for the transmitter, and none to come. -/
def TxClean (tokens : ς → Nat) (r : Option (SpiSys ς)) : Prop :=
  Driven r ∧ ∀ s, r = some s → SpiSys.credit tokens s.sspi.toSpiSignal = 0

theorem spiStep_xfer {s s' : SpiSys ς} (hx : s.halSpiXfer env t = some (ret, s')) :
    (spiStep (some s) (.xfer env t)).2 = some s' := by
  show ((s.halSpiXfer env t).map _).map _ = _
  rw [hx]
  rfl

theorem spiStep_credit (ht : HalSem.Counts tokens) (hr : Driven r)
    (hs' : (spiStep r op).2 = some s')
    (h : ∀ env t s, op = .xfer env (some t) → r = some s → ¬ s.Sends t) :
    ∃ s, r = some s ∧
      SpiSys.credit tokens s'.sspi.toSpiSignal = SpiSys.credit tokens s.sspi.toSpiSignal := by
  obtain ⟨p, hp, rfl⟩ := Option.map_eq_some_iff.1 hs'
  obtain ⟨s, rfl, hop⟩ := Option.bind_eq_some_iff.1 hp
  obtain ⟨own, hi⟩ := hr s rfl
  refine ⟨s, rfl, ?_⟩
  cases op with
  | xfer env t =>
    obtain ⟨ret, s₁, hx, hc⟩ := SpiSys.halSpiXfer_credit env ht hi t fun t' ht' => by
      rw [ht'] at h
      exact h env t' s rfl rfl
    rw [SpiSys.op, hx] at hop
    cases hop
    exact hc
  | intr is =>
    cases hop
    obtain ⟨regs, hd⟩ := s.deliver_eq is
    dsimp only
    rw [hd]
    exact SpiSys.credit_signal ht s is
  | dma evs =>
    obtain ⟨q, -, rfl⟩ := Option.map_eq_some_iff.1 hop
    rfl
  | store a x =>
    cases hop
    rfl

theorem txClean_step (ht : HalSem.Counts tokens) (hr : TxClean tokens r)
    (h : TxExact tokens r op) : TxClean tokens (spiStep r op).2 := by
  refine ⟨spiStep_driven hr.1 op, fun s' hs' => ?_⟩
  by_cases hsend : ∃ env t s, op = .xfer env (some t) ∧ r = some s ∧ s.Sends t
  · obtain ⟨env, t, s, rfl, rfl, hst⟩ := hsend
    obtain ⟨ret, s₁, hx, -, hc⟩ := h s rfl hst
    rw [spiStep_xfer hx] at hs'
    cases hs'
    exact hc
  · obtain ⟨s, hs, hc⟩ := spiStep_credit ht hr.1 hs' fun env t s ho hs hst =>
      hsend ⟨env, t, s, ho, hs, hst⟩
    exact hc.trans (hr.2 s hs)

theorem txExact_iff (ht : HalSem.Counts tokens) (hr : TxClean tokens r) :
    TxExact tokens r op ↔ TxProper r op := by
  cases op with
  | xfer env t =>
    cases t with
    | none => exact Iff.rfl
    | some t =>
      refine forall_congr' fun s => forall_congr' fun hs => forall_congr' fun hst => ?_
      obtain ⟨own, hi⟩ := hr.1 s hs
      obtain ⟨ret, s', hx, hret, hc⟩ := SpiSys.halSpiXfer_sent env ht hi hst.1 hst.2.1 hst.2.2
      have hzero : s.onStart tokens env = 0 := Nat.le_zero.1 (hr.2 s hs ▸ s.onStart_le env ht)
      have hawait := SpiSys.txAwaits_iff env ht hst
      rw [hzero, or_iff_right (Nat.lt_irrefl 0)] at hawait
      rw [hawait] at hret
      have hclean : SpiSys.credit tokens s'.sspi.toSpiSignal = 0 ↔ s.Begins env t ∧ env.Ends := by
        rw [hc, hzero, ← hawait]
        by_cases hb : s.Begins env t
        · rw [if_pos hb]
          by_cases ha : s.TxAwaits env t
          · rw [if_pos ha]
            exact iff_of_true rfl ⟨hb, ha⟩
          · rw [if_neg ha]
            exact iff_of_false (by decide) fun h => ha h.2
        · rw [if_neg hb]
          exact iff_of_false (by decide) fun h => hb h.1
      rw [← hclean]
      constructor
      · rintro ⟨ret₁, s₁, hx₁, -, h⟩
        rw [hx] at hx₁
        cases hx₁
        exact h
      · exact fun h => ⟨ret, s', hx, hret, h⟩
  | intr | dma | store => exact Iff.rfl

/-- From a clean state every transmission by DMA is answered by its own interrupts and leaves no
token, exactly where each is set up and has its interrupt before its time is up. -/
theorem spi_tx_tokens (ht : HalSem.Counts tokens) {s : SpiSys ς} (hi : DmaInv own s.dma)
    (hc : SpiSys.credit tokens s.sspi.toSpiSignal = 0) (ops : List SpiOp) :
    Along spiStep (TxExact tokens) (some s) ops ↔ Along spiStep TxProper (some s) ops :=
  along_iff (I := TxClean tokens) (fun _ _ hr => txExact_iff ht hr)
    (fun _ _ hr h => txClean_step ht hr h)
    ⟨fun t ht => by cases ht; exact ⟨own, hi⟩, fun t ht => by cases ht; exact hc⟩

def SpiEnv.silent : SpiEnv := { SpiEnv.prompt with started := [], poll := fun _ => [] }

instance (env : SpiEnv) : Decidable env.Ends := List.decidableBEx (fun x => Wakes x) _

instance SpiSys.sendsDecidable (s : SpiSys ς) (t : SpiTransfer) : Decidable (s.Sends t) :=
  inferInstanceAs (Decidable (_ ∧ _ ∧ _))

instance : (r : Option (SpiSys ς)) → (op : SpiOp) → Decidable (TxProper r op)
  | none, .xfer _ (some _) => .isTrue fun _ h => (Option.some_ne_none _ h.symm).elim
  | some s, .xfer env (some t) =>
    decidable_of_iff (s.Sends t → s.Begins env t ∧ env.Ends)
      ⟨fun h _ hs => Option.some.inj hs ▸ h, fun h => h s rfl⟩
  | _, .xfer _ none => .isTrue trivial
  | _, .intr _ => .isTrue trivial
  | _, .dma _ => .isTrue trivial
  | _, .store _ _ => .isTrue trivial

theorem spi_tx_tokens_send :
    Along spiStep (TxExact CountSem.count) (some .idle)
        [.xfer .prompt (some .send), .xfer .prompt (some .fetch)] ∧
      ¬ Along spiStep (TxExact CountSem.count) (some .idle)
        [.xfer .prompt (some .send), .xfer .silent (some .send)] :=
  ⟨(spi_tx_tokens CountSem.counts SpiSys.idle_dma rfl _).2 (by decide +kernel),
    (spi_tx_tokens CountSem.counts SpiSys.idle_dma rfl _).not.2 (by decide +kernel)⟩

/-! After a transmission whose interrupt came too late. -/

/-- The interrupt of a transmission has come when the next one is set up. -/
def TxLate (r : Option (SpiSys ς)) : SpiOp → Prop
  | .xfer env (some t) => ∀ s, r = some s → s.Sends t →
    (s.signal (env.entry ++ env.setup)).sem = false
  | _ => True

/-- A transmission by DMA does not wait for its interrupt. -/
def TxBlind (r : Option (SpiSys ς)) : SpiOp → Prop
  | .xfer env (some t) => ∀ s, r = some s → s.Sends t →
    ∃ ret s', s.halSpiXfer env (some t) = some (ret, s') ∧
      (ret = spiMasterOk ↔ s.Begins env t ∧ ¬ env.SentInError)
  | _ => True

/-- There is a token for the transmitter, or one to come. -/
def TxStale (tokens : ς → Nat) (r : Option (SpiSys ς)) : Prop :=
  Driven r ∧ ∀ s, r = some s → 0 < SpiSys.credit tokens s.sspi.toSpiSignal

theorem txStale_step (ht : HalSem.Counts tokens) (hr : TxStale tokens r) (h : TxLate r op) :
    TxStale tokens (spiStep r op).2 ∧ TxBlind r op := by
  have hsent : ∀ env t s, op = .xfer env (some t) → r = some s → s.Sends t →
      ∃ ret s', s.halSpiXfer env (some t) = some (ret, s') ∧
        (ret = spiMasterOk ↔ s.Begins env t ∧ ¬ env.SentInError) ∧
        0 < SpiSys.credit tokens s'.sspi.toSpiSignal := by
    rintro env t s rfl rfl hst
    obtain ⟨own, hi⟩ := hr.1 s rfl
    obtain ⟨ret, s', hx, hret, hc⟩ := SpiSys.halSpiXfer_sent env ht hi hst.1 hst.2.1 hst.2.2
    have hpos : 0 < s.onStart tokens env := SpiSys.onStart_eq env ht (h s rfl hst) ▸ hr.2 s rfl
    have hawait := (SpiSys.txAwaits_iff env ht hst).2 (.inl hpos)
    rw [and_iff_right hawait] at hret
    refine ⟨ret, s', hx, hret, ?_⟩
    rw [hc, if_pos hawait]
    split
    · exact hpos
    · exact Nat.succ_pos _
  constructor
  · refine ⟨spiStep_driven hr.1 op, fun s' hs' => ?_⟩
    by_cases hsend : ∃ env t s, op = .xfer env (some t) ∧ r = some s ∧ s.Sends t
    · obtain ⟨env, t, s, ho, hs, hst⟩ := hsend
      obtain ⟨ret, s₁, hx, -, hc⟩ := hsent env t s ho hs hst
      subst ho hs
      rw [spiStep_xfer hx] at hs'
      cases hs'
      exact hc
    · obtain ⟨s, hs, hc⟩ := spiStep_credit ht hr.1 hs' fun env t s ho hs hst =>
        hsend ⟨env, t, s, ho, hs, hst⟩
      rw [hc]
      exact hr.2 s hs
  · cases op with
    | xfer env t =>
      cases t with
      | none => trivial
      | some t =>
        intro s hs hst
        obtain ⟨ret, s', hx, hret, -⟩ := hsent env t s rfl hs hst
        exact ⟨ret, s', hx, hret⟩
    | intr | dma | store => trivial

/-- A transmission that times out leaves two tokens, its own and that of its late interrupt. No
later one waits for its own interrupt, as long as the interrupt of each comes before the next is set
up: each that is set up is answered OK unless an interrupt tells of an error. -/
theorem spi_tx_blind (ht : HalSem.Counts tokens) {s : SpiSys ς} (hi : DmaInv own s.dma)
    (hst : s.Sends t) (hb : s.Begins env t) (hend : ¬ env.Ends)
    (hc : SpiSys.credit tokens s.sspi.toSpiSignal = 0) :
    ∃ ret s', s.halSpiXfer env (some t) = some (ret, s') ∧ ret ≠ spiMasterOk ∧
      SpiSys.credit tokens s'.sspi.toSpiSignal = 2 ∧
      ∀ ops, Along spiStep TxLate (some s') ops → Along spiStep TxBlind (some s') ops := by
  obtain ⟨ret, s', hx, hret, hcred⟩ := SpiSys.halSpiXfer_sent env ht hi hst.1 hst.2.1 hst.2.2
  have hzero : s.onStart tokens env = 0 := Nat.le_zero.1 (hc ▸ s.onStart_le env ht)
  have hawait : ¬ s.TxAwaits env t := by
    rw [SpiSys.txAwaits_iff env ht hst, hzero]
    exact not_or.2 ⟨Nat.lt_irrefl 0, hend⟩
  rw [if_pos hb, if_neg hawait, hzero] at hcred
  have hdriven : Driven (some s') := by
    rw [← spiStep_xfer hx]
    exact spiStep_driven (fun u hu => by cases hu; exact ⟨own, hi⟩) _
  refine ⟨ret, s', hx, fun h => hawait (hret.1 h).2.1, hcred, fun ops hlate => ?_⟩
  refine along_of_invariant (I := TxStale tokens) (fun _ _ hr h => txStale_step ht hr h)
    ⟨hdriven, ?_⟩ hlate
  rintro u hu
  cases hu
  rw [hcred]
  exact Nat.succ_pos _

instance : (r : Option (SpiSys ς)) → (op : SpiOp) → Decidable (TxLate r op)
  | none, .xfer _ (some _) => .isTrue fun _ h => (Option.some_ne_none _ h.symm).elim
  | some s, .xfer env (some t) =>
    decidable_of_iff (s.Sends t → (s.signal (env.entry ++ env.setup)).sem = false)
      ⟨fun h _ hs => Option.some.inj hs ▸ h, fun h => h s rfl⟩
  | _, .xfer _ none => .isTrue trivial
  | _, .intr _ => .isTrue trivial
  | _, .dma _ => .isTrue trivial
  | _, .store _ _ => .isTrue trivial

theorem spi_tx_blind_send :
    let late : SpiOp := .xfer { SpiEnv.silent with entry := [.irq spiIntStaTc] } (some .send)
    ∃ ret s', SpiSys.idle.halSpiXfer .silent (some .send) = some (ret, s') ∧ ret ≠ spiMasterOk ∧
      SpiSys.credit CountSem.count s'.sspi.toSpiSignal = 2 ∧
      Along spiStep TxBlind (some s') [late, late] ∧
      (exec SpiSys.op s' [late, late]).map Prod.fst =
      some [some spiMasterOk, some spiMasterOk] := by
  intro late
  have hsends : SpiSys.idle.Sends .send := by decide +kernel
  have hbegins : SpiSys.idle.Begins .silent .send := by decide +kernel
  have hsilent : ¬ SpiEnv.silent.Ends := by decide +kernel
  obtain ⟨ret, s', hx, hret, hc, hblind⟩ :=
    spi_tx_blind CountSem.counts SpiSys.idle_dma hsends hbegins hsilent rfl
  have hlate : Along spiStep TxLate
      (spiStep (some SpiSys.idle) (.xfer .silent (some .send))).2 [late, late] := by decide +kernel
  have hruns : (spiStep (some SpiSys.idle) (.xfer .silent (some .send))).2.bind (fun s =>
      (exec SpiSys.op s [late, late]).map Prod.fst) =
      some [some spiMasterOk, some spiMasterOk] := by
    decide +kernel
  rw [spiStep_xfer hx] at hlate hruns
  exact ⟨ret, s', hx, hret, hc, hblind _ hlate, hruns⟩

/-! A build without a kernel. -/

/-- With the stubs for semaphores nothing is waited for: a transfer by DMA that is set up is
answered OK, a reception also where its end has not come, a transmission unless an interrupt told of
an error. -/
theorem halSpiXfer_bare {s : SpiSys BareSem} (env : SpiEnv) (hi : DmaInv own s.dma)
    (hok : ¬ s.Refuses t) (hb : s.Bulk t.bulkLen) :
    ∃ ret s', s.halSpiXfer env (some t) = some (ret, s') ∧
      (ret = spiMasterOk ↔ s.Begins env t ∧ (t.rxBuf = none → ¬ env.SentInError)) := by
  obtain ⟨ret, s', hx, ho⟩ := SpiSys.halSpiXfer_dma env hi hok hb
  refine ⟨ret, s', hx, ?_⟩
  cases ho with
  | refused h regs trace =>
    have hnot : ¬ s.Begins env t := fun hbeg => ((SpiSys.begins_iff env hi).1 hbeg).1 h
    exact iff_of_false (by decide) fun h => hnot h.1
  | unprepared hm hp hc hw dmaTx dmaRx regs trace =>
    exact iff_of_false (by decide) fun h => hp h.1.2.2
  | @sent c v dma hm hp hrx hr hw dmaTx dmaRx regs trace =>
    have hbeg : s.Begins env t := ⟨hm, ⟨c, (hi.used c).trans hr.free⟩, hp⟩
    have hawait : v.TxAwaited env := rfl
    have herr := SpiSys.sentInError_iff env hr hrx
    rw [and_iff_right hbeg, forall_prop_of_true hrx, ← herr]
    split
    · next h => exact iff_of_true rfl h.2
    · next h => exact iff_of_false (by decide) fun hne => h ⟨hawait, hne⟩
  | @received c v dma hm hp hrx hr hw dmaTx dmaRx regs trace =>
    have hbeg : s.Begins env t := ⟨hm, ⟨c, (hi.used c).trans hr.free⟩, hp⟩
    have hawait : v.RxAwaited env := rfl
    rw [if_pos hawait]
    exact iff_of_true rfl ⟨hbeg, fun h => (hrx h).elim⟩

theorem halSpiXfer_bare_fetch :
    let s : SpiSys BareSem := { SpiSys.idle with
      sspi := { SpiSys.idle.sspi with toSpiSignal := ⟨spiXferReady, false, ⟨⟩, ⟨⟩⟩ } }
    ∃ s', s.halSpiXfer .silent (some .fetch) = some (spiMasterOk, s') := by
  intro s
  obtain ⟨ret, s', hx, hret⟩ := halSpiXfer_bare (s := s) .silent (t := .fetch) SpiSys.idle_dma
    (by decide +kernel) (by decide +kernel)
  refine ⟨s', hx.trans ?_⟩
  rw [hret.2 ⟨by decide +kernel, by decide +kernel⟩]

end D1Flash
