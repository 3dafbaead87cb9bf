import D1Flash.Spi.DmaMemory
import D1Flash.Spi.TxTokens
import D1Flash.Dma.Hooks

namespace D1Flash
open HalSem (halSemPost halSemTimedwait)
open LinkedHeap Runs
set_option autoImplicit true

variable {ς : Type} [HalSem ς]

/-! The tokens of the receiver's semaphore over whole runs. -/

/-- All interrupts from the wait on. -/
def SpiEnv.ending (env : SpiEnv) : List SpiIntr := env.waiting ++ env.woken ++ env.late

namespace SpiSys

variable {s s' v : SpiSys ς} {own : ChanId → Bool} {tokens : ς → Nat} (env : SpiEnv)

/-- No channel calls this driver. -/
def Unhooked (s : SpiSys ς) : Prop := ∀ c, s.dma.hook c ≠ (some s.rxCallback, some s.self)

omit [HalSem ς] in
theorem Unhooked.not_rings (h : s.Unhooked) (c : ChanId) : ¬ s.Rings c :=
  fun hr => h c (Prod.ext hr.2.1 hr.2.2)

theorem rx_signal (h : s.Unhooked) (is : List SpiIntr) :
    (s.signal is).xSemaphoreRx = s.sspi.xSemaphoreRx := by
  have hends : s.ends is = [] := by
    apply List.filterMap_eq_nil_iff.2
    intro i _
    cases i with
    | irq status => rfl
    | dmaEnd c => exact if_neg (h.not_rings c)
  show (fun x => (halSemPost x).2)^[(s.ends is).length] s.sspi.xSemaphoreRx = _
  rw [hends]
  rfl

/-- How often the channel that the call is to get tells of its end. -/
def rung (s : SpiSys ς) (is : List SpiIntr) : Nat :=
  is.countP fun
    | .irq _ => false
    | .dmaEnd c => (halDmaChanRequest s.dma).1.chan = some c

omit [HalSem ς] in
theorem rung_append (s : SpiSys ς) (is js : List SpiIntr) :
    s.rung (is ++ js) = s.rung is + s.rung js := List.countP_append

theorem rx_signal_rung (ht : HalSem.Counts tokens)
    (hn : (halDmaChanRequest s.dma).1.chan = some c) (h : ∀ j, v.Rings j ↔ j = c)
    (is : List SpiIntr) :
    tokens (v.signal is).xSemaphoreRx = tokens v.sspi.xSemaphoreRx + s.rung is := by
  have hends : (v.ends is).length = s.rung is := by
    induction is with
    | nil => rfl
    | cons i is ih =>
      cases i with
      | irq status => exact ih
      | dmaEnd j =>
        rw [rung, List.countP_cons, ← rung, ← ih, hn]
        by_cases hj : v.Rings j
        · have he : v.ends (.dmaEnd j :: is) = j :: v.ends is :=
            List.filterMap_cons_some (if_pos hj)
          rw [he, (h j).1 hj, if_pos (decide_eq_true rfl)]
          rfl
        · have he : v.ends (.dmaEnd j :: is) = v.ends is := List.filterMap_cons_none (if_neg hj)
          rw [he, if_neg]
          · rfl
          · exact fun hd => hj ((h j).2 (Option.some.inj (of_decide_eq_true hd)).symm)
  rw [← hends]
  exact ht.posts (v.ends is).length v.sspi.xSemaphoreRx

theorem rx_after_rung (ht : HalSem.Counts tokens)
    (hn : (halDmaChanRequest s.dma).1.chan = some c) (h : ∀ j, v.Rings j ↔ j = c)
    (sig : SpiSignal ς) (is : List SpiIntr) :
    tokens (v.after sig is).xSemaphoreRx = tokens sig.xSemaphoreRx + s.rung is :=
  rx_signal_rung (v := v.quiet sig v.regs v.trace) ht hn h is

/-- What a call keeps for those after it. -/
structure Same (s s' : SpiSys ς) : Prop where
  self : s'.self = s.self
  rxCallback : s'.rxCallback = s.rxCallback
  unhooked : s.Unhooked → s'.Unhooked

omit [HalSem ς] in
theorem unhooked_worked {dma : DmaSys} {cb : Ptr × Ptr} (hi : DmaInv own s.dma) (h : s.Unhooked)
    (hw : Worked c own' cb s.dma dma) (hcb : cb ≠ (some s.rxCallback, some s.self)) (j : ChanId) :
    dma.hook j ≠ (some s.rxCallback, some s.self) := by
  by_cases hj : j = c
  · rw [hj, hw.hook]
    exact hcb
  · rw [hw.hook_of_ne hi.owns hj]
    exact h j

theorem DmaOutcome.same (ho : DmaOutcome env t own s r s') (hi : DmaInv own s.dma) : Same s s' := by
  cases ho with
  | refused h regs trace => exact ⟨rfl, rfl, id⟩
  | @unprepared c dma hm hp hc hw dmaTx dmaRx regs trace =>
    exact ⟨rfl, rfl, fun hun j => unhooked_worked hi hun hw (hun c) j⟩
  | sent hm hp hrx hr hw dmaTx dmaRx regs trace =>
    exact ⟨rfl, rfl, fun hun j => unhooked_worked hi hun hw (by simp) j⟩
  | received hm hp hrx hr hw dmaTx dmaRx regs trace =>
    exact ⟨rfl, rfl, fun hun j => unhooked_worked hi hun hw (by simp) j⟩

theorem rx_start (h : s.Unhooked) (env : SpiEnv) (t : SpiTransfer) :
    (s.startSignal env t).xSemaphoreRx = s.sspi.xSemaphoreRx := by
  have hcalled : (s.called env t s.regs).sspi.xSemaphoreRx = s.sspi.xSemaphoreRx :=
    rx_signal h (env.entry ++ env.setup)
  rw [startSignal]
  by_cases hrx : t.rxBuf = none
  · rw [if_pos hrx]
    have hun : (s.quiet { (s.called env t s.regs).sspi.toSpiSignal with sem := true } s.regs
      s.trace).Unhooked := h
    exact (rx_signal hun env.started).trans hcalled
  · rw [if_neg hrx]
    exact hcalled

/-- The channel of a reception calls this driver, and no other does. -/
theorem Running.rings (hr : Running env t own c s v) (hi : DmaInv own s.dma) (h : s.Unhooked)
    (hrx : t.rxBuf ≠ none) (j : ChanId) : v.Rings j ↔ j = c := by
  have hw := hr.worked
  rw [if_neg hrx] at hw
  constructor
  · intro hring
    by_contra hj
    have hhook := hw.hook_of_ne hi.owns hj
    apply h j
    rw [← hhook]
    refine Prod.ext (hring.2.1.trans ?_) (hring.2.2.trans ?_)
    · rw [hr.self.2]
    · rw [hr.self.1]
  · rintro rfl
    have hhook := hw.hook
    refine ⟨?_, ?_, ?_⟩
    · rw [hw.inv.used, Function.update_self]
    · rw [hr.self.2]
      exact congrArg Prod.fst hhook
    · rw [hr.self.1]
      exact congrArg Prod.snd hhook

theorem Running.unhooked (hr : Running env t own c s v) (hi : DmaInv own s.dma) (h : s.Unhooked)
    (hrx : t.rxBuf = none) : v.Unhooked := by
  have hw := hr.worked
  rw [if_pos hrx] at hw
  intro j
  rw [hr.self.1, hr.self.2]
  exact unhooked_worked hi h hw (h c) j

/-- There is a token when the end of a reception is waited for, or one comes. -/
def RxAwaits (tokens : ς → Nat) (s : SpiSys ς) (env : SpiEnv) : Prop :=
  0 < tokens s.sspi.xSemaphoreRx + s.rung env.waiting

instance (s : SpiSys ς) (env : SpiEnv) : Decidable (s.RxAwaits tokens env) :=
  inferInstanceAs (Decidable (_ < _))

theorem rxEnd_tokens (ht : HalSem.Counts tokens)
    (hn : (halDmaChanRequest s.dma).1.chan = some c) (h : ∀ j, v.Rings j ↔ j = c) :
    (v.RxAwaited env ↔ 0 < tokens v.sspi.xSemaphoreRx + s.rung env.waiting) ∧
      tokens (v.rxEnd env).xSemaphoreRx = tokens v.sspi.xSemaphoreRx + s.rung env.ending -
        if v.RxAwaited env then 1 else 0 := by
  obtain ⟨hret, htok⟩ := ht.wait 1000 (v.signal env.waiting).xSemaphoreRx
  rw [rx_signal_rung ht hn h] at hret htok
  refine ⟨hret, ?_⟩
  have htaken : tokens (v.rxTaken env).xSemaphoreRx =
      tokens v.sspi.xSemaphoreRx + s.rung env.waiting - 1 := htok
  have hwoken := rx_after_rung ht hn h (v.rxTaken env) env.woken
  have hlate : tokens (v.rxEnd env).xSemaphoreRx = _ := rx_after_rung ht hn h _ env.late
  rw [hlate]
  show tokens (v.after (v.rxTaken env) env.woken).xSemaphoreRx + _ = _
  rw [hwoken, htaken, SpiEnv.ending, rung_append, rung_append]
  split
  · next ha =>
    have hpos := hret.1 ha
    omega
  · next ha =>
    have hzero := Nat.eq_zero_of_not_pos (mt hret.2 ha)
    omega

/-- A reception by DMA. -/
theorem halSpiXfer_received (ht : HalSem.Counts tokens) (hi : DmaInv own s.dma)
    (hun : s.Unhooked) (hok : ¬ s.Refuses t) (hb : s.Bulk t.bulkLen) (hrx : t.rxBuf ≠ none) :
    ∃ r s', s.halSpiXfer env (some t) = some (r, s') ∧ Same s s' ∧
      (r = spiMasterOk ↔ s.Begins env t ∧ s.RxAwaits tokens env) ∧
      tokens s'.sspi.xSemaphoreRx =
        if s.Begins env t then
          tokens s.sspi.xSemaphoreRx + s.rung env.ending - if s.RxAwaits tokens env then 1 else 0
        else tokens s.sspi.xSemaphoreRx := by
  have hstart := rx_start hun env t
  obtain ⟨r, s', hx, ho⟩ := halSpiXfer_dma env hi hok hb
  refine ⟨r, s', hx, ho.same env hi, ?_⟩
  cases ho with
  | refused h regs trace =>
    have hnot : ¬ s.Begins env t := fun hbeg => ((begins_iff env hi).1 hbeg).1 h
    rw [if_neg hnot]
    exact ⟨iff_of_false (by decide) fun h => hnot h.1, congrArg tokens hstart⟩
  | unprepared hm hp hc hw dmaTx dmaRx regs trace =>
    have hnot : ¬ s.Begins env t := fun hbeg => hp hbeg.2.2
    rw [if_neg hnot]
    exact ⟨iff_of_false (by decide) fun h => hnot h.1, congrArg tokens hstart⟩
  | sent hm hp hrx' => exact (hrx hrx').elim
  | @received c v dma hm hp hrx' hr hw dmaTx dmaRx regs trace =>
    have hbeg : s.Begins env t := ⟨hm, ⟨c, (hi.used c).trans hr.free⟩, hp⟩
    obtain ⟨hawait, hend⟩ := rxEnd_tokens env ht hr.chan (hr.rings env hi hun hrx)
    rw [hr.signal, hstart] at hawait hend
    have hiff : v.RxAwaited env ↔ s.RxAwaits tokens env := hawait
    rw [if_pos hbeg]
    constructor
    · rw [and_iff_right hbeg, ← hiff]
      split
      · next h => exact iff_of_true rfl h
      · next h => exact iff_of_false (by decide) h
    · refine hend.trans ?_
      by_cases ha : s.RxAwaits tokens env
      · rw [if_pos (hiff.2 ha), if_pos ha]
      · rw [if_neg (mt hiff.1 ha), if_neg ha]

/-- A call that is no reception by DMA keeps the tokens of the receiver. -/
theorem halSpiXfer_rx (ht : HalSem.Counts tokens) (hi : DmaInv own s.dma) (hun : s.Unhooked)
    (t : Option SpiTransfer)
    (h : ∀ t', t = some t' → ¬ s.Refuses t' → s.Bulk t'.bulkLen → t'.rxBuf = none) :
    ∃ r s', s.halSpiXfer env t = some (r, s') ∧ Same s s' ∧
      s'.sspi.xSemaphoreRx = s.sspi.xSemaphoreRx := by
  by_cases hplain : ∀ t', t = some t' → ¬ s.Refuses t' → ¬ s.Bulk t'.bulkLen
  · obtain ⟨r, s', is, hx, hd, hself, hcb, -, hrx⟩ := halSpiXfer_plain env ht t hplain
    refine ⟨r, s', hx, ⟨hself, hcb, fun hun c => ?_⟩, hrx.trans (rx_signal hun is)⟩
    rw [hd, hself, hcb]
    exact hun c
  · simp only [not_forall, not_not] at hplain
    obtain ⟨t', rfl, hok, hb⟩ := hplain
    have hrx := h t' rfl hok hb
    have hstart := rx_start hun env t'
    obtain ⟨r, s', hx, ho⟩ := halSpiXfer_dma env hi hok hb
    refine ⟨r, s', hx, ho.same env hi, ?_⟩
    cases ho with
    | refused h regs trace => exact hstart
    | unprepared hm hp hc hw dmaTx dmaRx regs trace => exact hstart
    | @sent c v dma hm hp hrx' hr hw dmaTx dmaRx regs trace =>
      have hun' := hr.unhooked env hi hun hrx
      have hsame : ∀ sig is, (v.after sig is).xSemaphoreRx = sig.xSemaphoreRx := fun sig is =>
        rx_signal (s := v.quiet sig v.regs v.trace) hun' is
      have hwoken : (v.after (v.txTaken env) env.woken).xSemaphoreRx = v.sspi.xSemaphoreRx :=
        (hsame _ env.woken).trans (rx_signal hun' env.waiting)
      show (v.txEnd env).xSemaphoreRx = _
      rw [← hstart, ← hr.signal, ← hwoken, txEnd]
      split
      · exact hsame _ env.late
      · exact hsame _ env.late
    | received hm hp hrx' => exact (hrx' hrx).elim

def Receives (s : SpiSys ς) (t : SpiTransfer) : Prop :=
  ¬ s.Refuses t ∧ s.Bulk t.bulkLen ∧ t.rxBuf ≠ none

end SpiSys

variable {tokens : ς → Nat} {r : Option (SpiSys ς)}

/-- The answer to a reception by DMA is that of its own channel, and no token stays behind. -/
def RxExact (tokens : ς → Nat) (r : Option (SpiSys ς)) : SpiOp → Prop
  | .xfer env (some t) => ∀ s, r = some s → s.Receives t →
    ∃ ret s', s.halSpiXfer env (some t) = some (ret, s') ∧
      (ret = spiMasterOk ↔ s.Begins env t ∧ 0 < s.rung env.waiting) ∧
      tokens s'.sspi.xSemaphoreRx = 0
  | _ => True

/-- The channel of a reception tells of its end while it is waited for and only once, or
not at all. -/
def RxProper (r : Option (SpiSys ς)) : SpiOp → Prop
  | .xfer env (some t) => ∀ s, r = some s → s.Receives t → s.Begins env t →
    s.rung env.ending = if 0 < s.rung env.waiting then 1 else 0
  | _ => True

/-- Nobody else makes a channel call `cb`. -/
def SpiOp.Foreign (cb : Ptr × Ptr) : SpiOp → Prop
  | .dma evs => NotInstalled cb evs
  | _ => True

/-- No channel calls the driver, there is no token for the receiver, and the driver is the one that
has `cb` for its callback. -/
def RxClean (tokens : ς → Nat) (cb : Ptr × Ptr) (r : Option (SpiSys ς)) : Prop :=
  Driven r ∧ ∀ s, r = some s → s.Unhooked ∧ tokens s.sspi.xSemaphoreRx = 0 ∧
    (some s.rxCallback, some s.self) = cb

omit [HalSem ς] in
theorem rxClean_same {s s' : SpiSys ς} (hs : s.Unhooked)
    (hcb : (some s.rxCallback, some s.self) = cb)
    (h : s.Same s') : s'.Unhooked ∧ (some s'.rxCallback, some s'.self) = cb := by
  refine ⟨h.unhooked hs, ?_⟩
  rw [h.self, h.rxCallback]
  exact hcb

theorem rxClean_step (ht : HalSem.Counts tokens) (hr : RxClean tokens cb r) (hop : op.Foreign cb)
    (h : RxExact tokens r op) : RxClean tokens cb (spiStep r op).2 := by
  refine ⟨spiStep_driven hr.1 op, fun s' hs' => ?_⟩
  obtain ⟨p, hp, rfl⟩ := Option.map_eq_some_iff.1 hs'
  obtain ⟨s, rfl, hstep⟩ := Option.bind_eq_some_iff.1 hp
  obtain ⟨hun, hzero, hcb⟩ := hr.2 s rfl
  obtain ⟨own, hi⟩ := hr.1 s rfl
  cases op with
  | xfer env t =>
    by_cases hrec : ∃ t', t = some t' ∧ s.Receives t'
    · obtain ⟨t', rfl, hrt⟩ := hrec
      obtain ⟨ret, s₁, hx, -, hrx⟩ := h s rfl hrt
      obtain ⟨ret', s₂, hx', hsame, -⟩ :=
        SpiSys.halSpiXfer_received env ht hi hun hrt.1 hrt.2.1 hrt.2.2
      rw [hx] at hx'
      cases hx'
      rw [SpiSys.op, hx] at hstep
      cases hstep
      exact ⟨(rxClean_same hun hcb hsame).1, hrx, (rxClean_same hun hcb hsame).2⟩
    · obtain ⟨ret, s₁, hx, hsame, hrx⟩ := SpiSys.halSpiXfer_rx env ht hi hun t
          fun t' ht' hok hb => by
            by_contra hne
            exact hrec ⟨t', ht', hok, hb, hne⟩
      rw [SpiSys.op, hx] at hstep
      cases hstep
      exact ⟨(rxClean_same hun hcb hsame).1, (congrArg tokens hrx).trans hzero,
        (rxClean_same hun hcb hsame).2⟩
  | intr is =>
    cases hstep
    obtain ⟨regs, hd⟩ := s.deliver_eq is
    dsimp only
    rw [hd]
    exact ⟨hun, (congrArg tokens (SpiSys.rx_signal hun is)).trans hzero, hcb⟩
  | dma evs =>
    obtain ⟨q, hq, rfl⟩ := Option.map_eq_some_iff.1 hstep
    refine ⟨fun c => ?_, hzero, hcb⟩
    have hevs : NotInstalled (some s.rxCallback, some s.self) evs := by
      rw [hcb]
      exact hop
    exact exec_not_hooked hun (by simp) hevs hq c
  | store a x =>
    cases hstep
    exact ⟨hun, hzero, hcb⟩

theorem rxExact_iff (ht : HalSem.Counts tokens) (hr : RxClean tokens cb r) :
    RxExact tokens r op ↔ RxProper r op := by
  cases op with
  | xfer env t =>
    cases t with
    | none => exact Iff.rfl
    | some t =>
      refine forall_congr' fun s => forall_congr' fun hs => forall_congr' fun hrt => ?_
      obtain ⟨own, hi⟩ := hr.1 s hs
      obtain ⟨hun, hzero, -⟩ := hr.2 s hs
      obtain ⟨ret, s', hx, -, hret, hrx⟩ :=
        SpiSys.halSpiXfer_received env ht hi hun hrt.1 hrt.2.1 hrt.2.2
      have hawait : s.RxAwaits tokens env ↔ 0 < s.rung env.waiting := by
        rw [SpiSys.RxAwaits, hzero, Nat.zero_add]
      have hle : s.rung env.waiting ≤ s.rung env.ending := by
        rw [SpiEnv.ending, List.append_assoc]
        exact List.Sublist.countP_le (List.sublist_append_left _ _)
      have hclean : tokens s'.sspi.xSemaphoreRx = 0 ↔
          (s.Begins env t → s.rung env.ending = if 0 < s.rung env.waiting then 1 else 0) := by
        rw [hrx, hzero, Nat.zero_add]
        by_cases hb : s.Begins env t
        · rw [if_pos hb, forall_prop_of_true hb]
          by_cases ha : 0 < s.rung env.waiting
          · rw [if_pos (hawait.2 ha), if_pos ha]
            omega
          · rw [if_neg (mt hawait.1 ha), if_neg ha]
            omega
        · rw [if_neg hb]
          exact iff_of_true rfl fun h => (hb h).elim
      rw [← hclean]
      rw [hawait] at hret
      constructor
      · rintro ⟨ret₁, s₁, hx₁, -, h⟩
        rw [hx] at hx₁
        cases hx₁
        exact h
      · exact fun h => ⟨ret, s', hx, hret, h⟩
  | intr | dma | store => exact Iff.rfl

/-- Where nobody else has a channel call this driver, every reception by DMA is answered by the
channel it got and leaves no token, exactly where each such channel calls once while it is waited
for, or not at all before it is freed. -/
theorem spi_rx_tokens (ht : HalSem.Counts tokens) {s : SpiSys ς} (hi : DmaInv own s.dma)
    (hun : s.Unhooked) (hzero : tokens s.sspi.xSemaphoreRx = 0)
    (hops : ∀ op ∈ ops, SpiOp.Foreign (some s.rxCallback, some s.self) op) :
    Along spiStep (RxExact tokens) (some s) ops ↔ Along spiStep RxProper (some s) ops :=
  along_iff_of_mem (I := RxClean tokens (some s.rxCallback, some s.self))
    (fun _ _ hr => rxExact_iff ht hr) (fun _ _ hr hop h => rxClean_step ht hr hop h)
    ⟨fun t ht => by cases ht; exact ⟨own, hi⟩, fun t ht => by cases ht; exact ⟨hun, hzero, rfl⟩⟩
    hops

instance SpiSys.receivesDecidable (s : SpiSys ς) (t : SpiTransfer) : Decidable (s.Receives t) :=
  inferInstanceAs (Decidable (_ ∧ _ ∧ _))

instance : (r : Option (SpiSys ς)) → (op : SpiOp) → Decidable (RxProper r op)
  | none, .xfer _ (some _) => .isTrue fun _ h => (Option.some_ne_none _ h.symm).elim
  | some s, .xfer env (some t) =>
    decidable_of_iff (s.Receives t → s.Begins env t →
        s.rung env.ending = if 0 < s.rung env.waiting then 1 else 0)
      ⟨fun h _ hs => Option.some.inj hs ▸ h, fun h => h s rfl⟩
  | _, .xfer _ none => .isTrue trivial
  | _, .intr _ => .isTrue trivial
  | _, .dma _ => .isTrue trivial
  | _, .store _ _ => .isTrue trivial

theorem spi_rx_tokens_fetch :
    let twice : SpiEnv := { SpiEnv.rung with late := [.dmaEnd 0] }
    Along spiStep (RxExact CountSem.count) (some .idle)
        [.xfer .rung (some .fetch), .dma [.call .request], .xfer .prompt (some .fetch)] ∧
      ¬ Along spiStep (RxExact CountSem.count) (some .idle)
        [.dma [.call .request, .call (.chanFree (some 0))], .xfer twice (some .fetch)] := by
  have hun : SpiSys.idle.Unhooked := by
    intro c h
    cases congrArg Prod.fst h
  refine ⟨(spi_rx_tokens CountSem.counts SpiSys.idle_dma hun rfl ?_).2 (by decide +kernel),
    (spi_rx_tokens CountSem.counts SpiSys.idle_dma hun rfl ?_).not.2 (by decide +kernel)⟩
  · simp [SpiOp.Foreign, NotInstalled]
  · simp [SpiOp.Foreign, NotInstalled]

end D1Flash
