import D1Flash.Spi.DmaCall

namespace D1Flash
open LinkedHeap Runs
set_option autoImplicit true

variable {ς : Type} [HalSem ς]

/-! Runs of one controller beside the other clients of the DMA driver. -/

/-- What can happen: a call of `hal_spi_xfer`, interrupts between the calls, what the other clients
do with the DMA driver, a store to memory. -/
inductive SpiOp
  | xfer (env : SpiEnv) (transfer : Option SpiTransfer)
  | intr (is : List SpiIntr)
  | dma (evs : List DmaEvent)
  | store (a : Addr) (x : Byte)

namespace SpiSys

def op (s : SpiSys ς) : SpiOp → Option (Option Int × SpiSys ς)
  | .xfer env transfer => (s.halSpiXfer env transfer).map fun p => (some p.1, p.2)
  | .intr is => some (none, s.deliver is)
  | .dma evs => (exec dmaEvent s.dma evs).map fun p => (none, { s with dma := p.2 })
  | .store a x => some (none, { s with mem := Function.update s.mem a x })

/-- A call takes a channel that it does not give back: the channel is there, the
descriptor is not. -/
def Leaks (s : SpiSys ς) (env : SpiEnv) : Option SpiTransfer → Prop
  | none => False
  | some t => ¬ s.Refuses t ∧ s.Bulk t.bulkLen ∧ ¬ t.Misaligned ∧ ¬ s.Prepares env t ∧
    ∃ c, (s.dma.chans c).used = false

instance (s : SpiSys ς) (env : SpiEnv) : (t : Option SpiTransfer) → Decidable (s.Leaks env t)
  | none => inferInstanceAs (Decidable False)
  | some _ => inferInstanceAs (Decidable (_ ∧ _ ∧ _ ∧ _ ∧ _))

variable {s s' : SpiSys ς} {own : ChanId → Bool}

/-- What a call does with the channels: one that leaks keeps one more, no other any; those of other
clients are left alone. -/
structure ChannelsKept (leaks : Prop) (own own' : ChanId → Bool) (s s' : SpiSys ς) : Prop where
  mode : s'.sspi.modeType = .null
  inv : DmaInv own' s'.dma
  change : (¬ leaks ∧ own' = own) ∨ (leaks ∧ ∃ c, own c = false ∧ own' = Function.update own c true)
  others : ∀ j, own j = true → ∀ nodes, s.dma.Owns nodes → Untouched j nodes s.dma s'.dma

omit [HalSem ς] in
theorem ChannelsKept.of_eq (hi : DmaInv own s.dma) (hm : s'.sspi.modeType = .null)
    (hd : s'.dma = s.dma) (hl : ¬ leaks) : ChannelsKept leaks own own s s' := by
  refine ⟨hm, hd.symm ▸ hi, .inl ⟨hl, rfl⟩, fun j _ nodes _ => ?_⟩
  rw [hd]
  exact .refl s.dma

omit [HalSem ς] in
theorem aside_owned (hc : own c = false) (ha : Aside c s.dma s'.dma) (j : ChanId)
    (hj : own j = true)
    (nodes : ChanId → List Addr) (ho : s.dma.Owns nodes) : Untouched j nodes s.dma s'.dma := by
  refine ha j ?_ nodes ho
  rintro rfl
  rw [hc] at hj
  cases hj

theorem halSpiXfer_own (hi : DmaInv own s.dma) (env : SpiEnv) (t : Option SpiTransfer) :
    ∃ r s' own', s.halSpiXfer env t = some (r, s') ∧
      ChannelsKept (s.Leaks env t) own own' s s' := by
  cases t with
  | none =>
    exact ⟨_, _, own, rfl, .of_eq hi rfl (s.deliver_dma env.entry) id⟩
  | some t =>
    by_cases hok : s.Refuses t
    · obtain ⟨is, result, transfer, regs, trace, hx⟩ := spiXfer_refused env hok
      rw [halSpiXfer, hx]
      exact ⟨_, _, own, rfl, .of_eq hi rfl rfl fun h => h.1 hok⟩
    · by_cases hb : s.Bulk t.bulkLen
      · obtain ⟨r, s', hx, ho⟩ := halSpiXfer_dma env hi hok hb
        have hnull : s.sspi.modeType = .null := not_not.1 (not_or.1 hok).2
        refine ⟨r, s', ?_⟩
        cases ho with
        | refused h regs trace =>
          refine ⟨own, hx, .of_eq hi hnull rfl ?_⟩
          rintro ⟨-, -, hm, -, c, hc⟩
          cases h with
          | inl h => exact hm h
          | inr h => rw [hi.used, h c] at hc; cases hc
        | @unprepared c _ hm hp hc hw dmaTx dmaRx regs trace =>
          refine ⟨_, hx, hnull, hw.inv, .inr ⟨?_, c, hc, rfl⟩, aside_owned hc hw.aside⟩
          exact ⟨hok, hb, hm, hp, c, (hi.used c).trans hc⟩
        | sent hm hp hrx hr hw dmaTx dmaRx regs trace =>
          refine ⟨own, hx, hnull, hw.inv, .inl ⟨?_, rfl⟩, aside_owned hr.free hw.aside⟩
          exact fun h => h.2.2.2.1 hp
        | received hm hp hrx hr hw dmaTx dmaRx regs trace =>
          refine ⟨own, hx, hnull, hw.inv, .inl ⟨?_, rfl⟩, aside_owned hr.free hw.aside⟩
          exact fun h => h.2.2.2.1 hp
      · obtain ⟨r, s', hx, hm, hd, -⟩ := halSpiXfer_cpu_frame env hb
        exact ⟨r, s', own, hx, .of_eq hi hm hd fun h => hb h.2.1⟩

def inUse (dma : DmaSys) : Nat := (Finset.univ.filter fun c => (dma.chans c).used = true).card

theorem inUse_eq {dma : DmaSys} (hi : DmaInv own dma) :
    inUse dma = (Finset.univ.filter fun c => own c = true).card := by
  rw [inUse]
  congr 1
  ext c
  rw [Finset.mem_filter, Finset.mem_filter, hi.used]

theorem inUse_taken {dma dma' : DmaSys} (hi : DmaInv own dma) (hc : own c = false)
    (hi' : DmaInv (Function.update own c true) dma') : inUse dma' = inUse dma + 1 := by
  have hins : (Finset.univ.filter fun j => Function.update own c true j = true) =
      insert c (Finset.univ.filter fun j => own j = true) := by
    ext j
    rw [Finset.mem_filter, Finset.mem_insert, Finset.mem_filter, Function.update_apply]
    by_cases hj : j = c
    · rw [if_pos hj]
      exact iff_of_true ⟨Finset.mem_univ j, rfl⟩ (.inl hj)
    · rw [if_neg hj]
      exact (or_iff_right hj).symm
  have hmem : c ∉ Finset.univ.filter fun j => own j = true := by
    rw [Finset.mem_filter, hc]
    exact fun h => Bool.false_ne_true h.2
  rw [inUse_eq hi', inUse_eq hi, hins, Finset.card_insert_of_notMem hmem]

omit [HalSem ς] in
theorem ChannelsKept.inUse_iff {leaks : Prop} (hi : DmaInv own s.dma)
    (hk : ChannelsKept leaks own own' s s') : inUse s'.dma = inUse s.dma ↔ ¬ leaks := by
  rcases hk.change with ⟨hl, rfl⟩ | ⟨hl, c, hc, rfl⟩
  · exact iff_of_true ((inUse_eq hk.inv).trans (inUse_eq hi).symm) hl
  · rw [inUse_taken hi hc hk.inv]
    exact iff_of_false (Nat.succ_ne_self _) (not_not.2 hl)

end SpiSys

variable {r : Option (SpiSys ς)}

/-- A step of a run, where undefined behaviour has no state after it. -/
def spiStep (s : Option (SpiSys ς)) (op : SpiOp) : Option (Option Int) × Option (SpiSys ς) :=
  let r := s.bind fun s => s.op op
  (r.map Prod.fst, r.map Prod.snd)

/-- The call comes back with as many channels in use as before. -/
def GivesBack (r : Option (SpiSys ς)) : SpiOp → Prop
  | .xfer env t => ∀ s, r = some s →
    ∃ ret s', s.halSpiXfer env t = some (ret, s') ∧ SpiSys.inUse s'.dma = SpiSys.inUse s.dma
  | _ => True

def LeakFree (r : Option (SpiSys ς)) : SpiOp → Prop
  | .xfer env t => ∀ s, r = some s → ¬ s.Leaks env t
  | _ => True

/-- The DMA driver is in a state that its calls lead to. -/
def Driven (r : Option (SpiSys ς)) : Prop := ∀ s, r = some s → ∃ own, DmaInv own s.dma

theorem spiStep_driven (hr : Driven r) (op : SpiOp) : Driven (spiStep r op).2 := by
  intro s' hs'
  obtain ⟨p, hp, rfl⟩ := Option.map_eq_some_iff.1 hs'
  obtain ⟨s, rfl, hop⟩ := Option.bind_eq_some_iff.1 hp
  obtain ⟨own, hi⟩ := hr s rfl
  cases op with
  | xfer env t =>
    obtain ⟨ret, s₁, own', hx, hk⟩ := SpiSys.halSpiXfer_own hi env t
    rw [SpiSys.op, hx] at hop
    cases hop
    exact ⟨own', hk.inv⟩
  | intr is =>
    cases hop
    exact ⟨own, (s.deliver_dma is).symm ▸ hi⟩
  | dma evs =>
    obtain ⟨q, hq, rfl⟩ := Option.map_eq_some_iff.1 hop
    exact ⟨_, exec_inv hi hq⟩
  | store a x =>
    cases hop
    exact ⟨own, hi⟩

theorem givesBack_iff (hr : Driven r) (op : SpiOp) : GivesBack r op ↔ LeakFree r op := by
  cases op with
  | xfer env t =>
    refine forall_congr' fun s => forall_congr' fun hs => ?_
    obtain ⟨own, hi⟩ := hr s hs
    obtain ⟨ret, s', own', hx, hk⟩ := SpiSys.halSpiXfer_own hi env t
    rw [← hk.inUse_iff hi]
    constructor
    · rintro ⟨ret₁, s₁, hx₁, hu⟩
      rw [hx] at hx₁
      cases hx₁
      exact hu
    · intro hu
      exact ⟨ret, s', hx, hu⟩
  | intr | dma | store => exact Iff.rfl

/-- In a run every call comes back with the channels in use as it found them, exactly where no call
gets a channel but no descriptor for it. -/
theorem spi_channels_given_back {s : SpiSys ς} (hi : DmaInv own s.dma) (ops : List SpiOp) :
    Along spiStep GivesBack (some s) ops ↔ Along spiStep LeakFree (some s) ops :=
  along_iff (I := Driven) (fun _ op hr => givesBack_iff hr op)
    (fun _ op hr _ => spiStep_driven hr op) (fun t ht => by cases ht; exact ⟨own, hi⟩)

/-- A transmission and a reception of 128 bytes. -/
def SpiTransfer.send : SpiTransfer :=
  { SpiTransfer.zero with txBuf := some 0x1000, txLen := 128, txSingleLen := 128 }

def SpiTransfer.fetch : SpiTransfer :=
  { SpiTransfer.zero with rxBuf := some 0x1000, rxLen := 128 }

theorem SpiSys.idle_dma : DmaInv (fun _ => false) SpiSys.idle.dma := dmaInv_init fun _ => 0

/-- A controller beside clients that have some channels. -/
def SpiSys.beside (own : ChanId → Bool) : SpiSys CountSem :=
  { SpiSys.idle with
    dma := { DmaSys.init fun _ => 0 with
      chans := fun c => { DmaChan.zero with used := own c, chanCount := c } } }

theorem SpiSys.beside_dma (own : ChanId → Bool) : DmaInv own (SpiSys.beside own).dma := by
  obtain ⟨nodes, ho⟩ := (dmaInv_init fun _ => 0).owns
  have hz : (0 : BitVec 32) < 4 := by decide
  exact ⟨⟨nodes, ho.congr rfl fun _ => rfl⟩, fun _ => ⟨rfl, rfl, hz, hz⟩, fun _ => rfl⟩

instance : (r : Option (SpiSys ς)) → (op : SpiOp) → Decidable (LeakFree r op)
  | none, .xfer _ _ => .isTrue fun _ h => (Option.some_ne_none _ h.symm).elim
  | some s, .xfer env t =>
    decidable_of_iff (¬ s.Leaks env t) ⟨fun h _ hs => Option.some.inj hs ▸ h, fun h => h s rfl⟩
  | _, .intr _ => .isTrue trivial
  | _, .dma _ => .isTrue trivial
  | _, .store _ _ => .isTrue trivial

theorem spi_channels_given_back_send :
    let noMemory : SpiEnv := { SpiEnv.prompt with pick := none }
    Along spiStep GivesBack (some .idle) [.xfer .prompt (some .send), .xfer .prompt (some .fetch)] ∧
      ¬ Along spiStep GivesBack (some .idle)
        [.xfer .prompt (some .send), .xfer noMemory (some .fetch)] :=
  ⟨(spi_channels_given_back SpiSys.idle_dma _).2 (by decide +kernel),
    (spi_channels_given_back SpiSys.idle_dma _).not.2 (by decide +kernel)⟩

/-- Nothing that another client does. -/
def SpiOp.Own : SpiOp → Prop
  | .dma _ => False
  | _ => True

/-- A transfer by DMA that is accepted fails. -/
def Starved (r : Option (SpiSys ς)) : SpiOp → Prop
  | .xfer env (some t) => ∀ s, r = some s → ¬ s.Refuses t → s.Bulk t.bulkLen →
    ∃ s', s.halSpiXfer env (some t) = some (spiMasterError, s') ∧ s'.dma = s.dma
  | _ => True

def Exhausted (r : Option (SpiSys ς)) : Prop := ∃ s, r = some s ∧ DmaInv (fun _ => true) s.dma

theorem spiStep_exhausted (hr : Exhausted r) (hop : op.Own) :
    Exhausted (spiStep r op).2 ∧ Starved r op := by
  obtain ⟨s, rfl, hi⟩ := hr
  cases op with
  | xfer env t =>
    obtain ⟨ret, s', own', hx, hk⟩ := SpiSys.halSpiXfer_own hi env t
    have hown : own' = fun _ => true := by
      rcases hk.change with ⟨-, h⟩ | ⟨-, c, hc, -⟩
      · exact h
      · cases hc
    refine ⟨⟨s', ?_, hown ▸ hk.inv⟩, ?_⟩
    · show ((s.halSpiXfer env t).map _).map _ = _
      rw [hx]
      rfl
    · cases t with
      | none => trivial
      | some t =>
        intro s₁ hs₁ hok hb
        cases hs₁
        obtain ⟨r, s₂, hx₂, ho⟩ := SpiSys.halSpiXfer_dma env hi hok hb
        cases ho with
        | refused h regs trace => exact ⟨_, hx₂, rfl⟩
        | unprepared hm hp hc => cases hc
        | sent hm hp hrx hr => cases hr.free
        | received hm hp hrx hr => cases hr.free
  | intr is => exact ⟨⟨_, rfl, (s.deliver_dma is).symm ▸ hi⟩, trivial⟩
  | dma evs => exact hop.elim
  | store a x => exact ⟨⟨_, rfl, hi⟩, trivial⟩

/-- Once every channel is in use no transfer by DMA succeeds any more, whatever the driver is asked
for. -/
theorem spi_exhausted_for_good {s : SpiSys ς} (hi : DmaInv (fun _ => true) s.dma)
    (hops : ∀ op ∈ ops, SpiOp.Own op) : Along spiStep Starved (some s) ops :=
  along_of_invariant (I := Exhausted) (G := fun _ op => op.Own)
    (fun _ _ hr hop => spiStep_exhausted hr hop) ⟨s, rfl, hi⟩
    (along_of_forall fun op h _ => hops op h)

theorem spi_exhausted_for_good_send :
    Along spiStep Starved (some (.beside fun _ => true)) [.xfer .prompt (some .send)] :=
  spi_exhausted_for_good (SpiSys.beside_dma _) fun op h => by
    rw [List.mem_singleton.1 h]
    trivial

/-- The lists and channels of the other clients are as they were after a whole run. -/
theorem spi_run_untouched {s : SpiSys ς} (hi : DmaInv own s.dma) (ho : s.dma.Owns nodes)
    (hj : own j = true) (hops : ∀ op ∈ ops, SpiOp.Own op) :
    ∃ os s', exec SpiSys.op s ops = some (os, s') ∧ Untouched j nodes s.dma s'.dma := by
  induction ops generalizing s own nodes with
  | nil => exact ⟨[], s, rfl, .refl s.dma⟩
  | cons op ops ih =>
    obtain ⟨o, s₁, own', hs₁, hi', hu, hj'⟩ : ∃ o s₁ own', s.op op = some (o, s₁) ∧
        DmaInv own' s₁.dma ∧ Untouched j nodes s.dma s₁.dma ∧ own' j = true := by
      cases op with
      | xfer env t =>
        obtain ⟨ret, s₁, own', hx, hk⟩ := SpiSys.halSpiXfer_own hi env t
        refine ⟨some ret, s₁, own', ?_, hk.inv, hk.others j hj nodes ho, ?_⟩
        · rw [SpiSys.op, hx]
          rfl
        · rcases hk.change with ⟨-, rfl⟩ | ⟨-, c, hc, rfl⟩
          · exact hj
          · rw [Function.update_of_ne, hj]
            rintro rfl
            rw [hc] at hj
            cases hj
      | intr is =>
        refine ⟨none, s.deliver is, own, rfl, ?_, ?_, hj⟩
        · exact (s.deliver_dma is).symm ▸ hi
        · rw [s.deliver_dma is]
          exact .refl s.dma
      | dma evs => exact (hops _ List.mem_cons_self).elim
      | store a x => exact ⟨none, _, own, rfl, hi, .refl s.dma, hj⟩
    obtain ⟨nodes', ho'⟩ := hi'.owns
    have hn := hu.nodes_eq ho ho'
    obtain ⟨os, s', he, hu'⟩ := ih hi' ho' hj' fun op h => hops op (List.mem_cons_of_mem _ h)
    refine ⟨o :: os, s', ?_, hu.trans ⟨fun a ha => hu'.mem a (hn ▸ ha), hu'.chan⟩⟩
    rw [exec, hs₁]
    dsimp only
    rw [he]

/-- Another client has prepared a transfer on channel 0. -/
def besideEvents : List DmaEvent :=
  [.call .request, .call (.prepDevice (some 0) 0x100 0x200 64 .memToDev (some 0x50000))]

def besideDma : DmaSys :=
  ((exec dmaEvent (.init fun _ => 0) besideEvents).map Prod.snd).getD (.init fun _ => 0)

theorem besideDma_inv : ∃ own nodes, DmaInv own besideDma ∧ own 0 = true ∧ besideDma.Owns nodes ∧
    nodes 0 = [0x50000] := by
  obtain ⟨⟨os, dma⟩, hp⟩ := Option.isSome_iff_exists.1
    (show (exec dmaEvent (.init fun _ => 0) besideEvents).isSome by decide +kernel)
  have hd : besideDma = dma := by
    rw [besideDma, hp]
    rfl
  have hi := exec_inv (dmaInv_init fun _ => 0) hp
  rw [← hd] at hi
  obtain ⟨nodes, ho⟩ := hi.owns
  obtain ⟨lli, hlli⟩ := Option.isSome_iff_exists.1
    (show (besideDma.heap.lookup 0x50000).isSome by decide +kernel)
  have hnext : (besideDma.heap.lookup 0x50000).map DmaLli.vlln = some none := by decide +kernel
  refine ⟨_, nodes, hi, (hi.used 0).symm.trans (by decide +kernel), ho, ?_⟩
  apply Chain.unique (Lists.chain ho 0)
  refine ⟨by decide +kernel, lli, hlli, ?_⟩
  rw [hlli] at hnext
  exact Option.some.inj hnext

theorem spi_run_untouched_send :
    let s := { SpiSys.idle with dma := besideDma }
    ∃ nodes s', s.dma.Owns nodes ∧ nodes 0 = [0x50000] ∧
      exec SpiSys.op s [.xfer .prompt (some .send), .xfer .prompt (some .fetch)] =
        some ([some spiMasterOk, some spiMasterError], s') ∧
      Untouched 0 nodes s.dma s'.dma := by
  obtain ⟨own, nodes, hi, hj, ho, hn⟩ := besideDma_inv
  have hops : ∀ op ∈ [SpiOp.xfer .prompt (some .send), .xfer .prompt (some .fetch)], op.Own := by
    intro op h
    rcases List.mem_cons.1 h with rfl | h
    · trivial
    · rw [List.mem_singleton.1 h]
      trivial
  obtain ⟨os, s', he, hu⟩ :=
    spi_run_untouched (s := { SpiSys.idle with dma := besideDma }) hi ho hj hops
  have hos : (exec SpiSys.op { SpiSys.idle with dma := besideDma }
      [.xfer .prompt (some .send), .xfer .prompt (some .fetch)]).map Prod.fst =
        some [some spiMasterOk, some spiMasterError] := by decide +kernel
  rw [he] at hos
  refine ⟨nodes, s', ho, hn, he.trans ?_, hu⟩
  exact congrArg (fun os => some (os, s')) (Option.some.inj hos)

end D1Flash
