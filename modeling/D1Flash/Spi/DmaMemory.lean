import D1Flash.Spi.Channels

namespace D1Flash
open LinkedHeap
open NorArray (put slice)
set_option autoImplicit true

variable {ς : Type} [HalSem ς]

namespace SpiSys

variable {own : ChanId → Bool} {s v : SpiSys ς} (env : SpiEnv)

/-- The address is in no place that a transfer by DMA writes: the bounce buffer, the buffer for what
is received, which a bounced transfer writes only when it succeeds, and what the invalidation after
a success takes from memory. -/
def Outside (s : SpiSys ς) (t : SpiTransfer) (ok : Prop) (a : Addr) : Prop :=
  (t.Bounces → a < s.sspi.alignDmaBuf ∨ s.sspi.alignDmaBuf + alignDmaBufSize ≤ a) ∧
    ∀ buf, t.rxBuf = some buf →
      ((t.Bounces → ok) → a < buf ∨ buf + t.bulkLen.toNat ≤ a) ∧
      (ok → a < s.sspi.alignDmaBuf ∨ s.sspi.alignDmaBuf + spiAlign t.bulkLen.toNat 64 ≤ a)

theorem txData_length (t : SpiTransfer) (mem : Addr → Byte) (hrx : t.rxBuf = none) :
    (t.txData mem).length ≤ t.bulkLen.toNat := by
  rw [SpiTransfer.txData, SpiTransfer.bulkLen, if_pos hrx]
  cases t.txBuf with
  | none => exact Nat.zero_le _
  | some buf => exact Nat.le_of_eq (NorArray.slice_length mem)

omit [HalSem ς] in
theorem staged_outside (h : s.Outside t ok a) : s.staged t a = s.mem a := by
  rw [staged]
  by_cases hb : t.Bounces
  · rw [if_pos hb]
    apply NorArray.put_outside
    refine (h.1 hb).imp_right fun hle => Nat.le_trans (Nat.add_le_add_left ?_ _) hle
    by_cases hrx : t.rxBuf = none
    · rw [if_pos hrx]
      exact Nat.le_trans (txData_length t s.mem hrx) hb
    · rw [if_neg hrx, List.length_replicate]
  · rw [if_neg hb]

theorem put_slice_outside (m f : Addr → Byte) (h : i < a ∨ a + n ≤ i) :
    put m a (slice f b n) i = m i := by
  apply NorArray.put_outside
  rwa [NorArray.slice_length]

theorem put_slice (m f : Addr → Byte) (hi : i < n) :
    put m a (slice f b n) (a + i) = f (b + i) := by
  have hlt : a + i - a < (slice f b n).length := by
    rw [NorArray.slice_length, Nat.add_sub_cancel_left]
    exact hi
  rw [NorArray.put_inside m (Nat.le_add_right a i) hlt, NorArray.slice_getElem,
    Nat.add_sub_cancel_left]

theorem le_spiAlign (x : Nat) : x ≤ spiAlign x 64 := by
  rw [spiAlign]
  omega

omit [HalSem ς] in
theorem fetched_outside (hrx : t.rxBuf = some buf) (m : Addr → Byte)
    (hbounce : a < v.sspi.alignDmaBuf ∨ v.sspi.alignDmaBuf + spiAlign t.bulkLen.toNat 64 ≤ a)
    (hbuf : t.Bounces → a < buf ∨ buf + t.bulkLen.toNat ≤ a) : v.fetched env m t a = m a := by
  rw [fetched, bulkBuf_rx hrx]
  by_cases hb : t.Bounces
  · rw [if_pos hb, Option.getD_some, put_slice_outside _ _ (hbuf hb), put_slice_outside _ _ hbounce]
  · rw [if_neg hb, put_slice_outside _ _ hbounce]

theorem received_outside (hr : Running env t own c s v) (hrx : t.rxBuf = some buf)
    (h : s.Outside t (v.RxAwaited env) a) : v.received env t a = s.mem a := by
  obtain ⟨hbuf, hinv⟩ := h.2 buf hrx
  have hshown : put v.mem (v.dmaBuf t) (slice env.shown 0 t.bulkLen.toNat) a = s.mem a := by
    rw [put_slice_outside, hr.mem, staged_outside h]
    rw [dmaBuf, bulkBuf_rx hrx]
    by_cases hb : t.Bounces
    · rw [if_pos hb, hr.bounce]
      exact (h.1 hb).imp_right fun hle => Nat.le_trans (Nat.add_le_add_left hb _) hle
    · rw [if_neg hb]
      exact hbuf fun hb' => (hb hb').elim
  rw [received]
  by_cases ha : v.RxAwaited env
  · rw [if_pos ha, fetched_outside env hrx _ (hr.bounce ▸ hinv ha) fun _ =>
      hbuf fun _ => ha, hshown]
  · rw [if_neg ha, hshown]

/-- A call with a transfer by DMA changes what the CPU sees in these places only. After a reception
that succeeds a bounced buffer holds what memory held, and one that was not bounced shows what the
cache showed, where the invalidation does not reach it. -/
theorem halSpiXfer_dma_memory (hi : DmaInv own s.dma) (hok : ¬ s.Refuses t)
    (hb : s.Bulk t.bulkLen) :
    ∃ r s', s.halSpiXfer env (some t) = some (r, s') ∧
      (∀ a, s.Outside t (r = spiMasterOk) a → s'.mem a = s.mem a) ∧
      ∀ buf, t.rxBuf = some buf → r = spiMasterOk → ∀ i < t.bulkLen.toNat,
        (t.Bounces → s'.mem (buf + i) = env.dram i) ∧
        (¬ t.Bounces → (buf + i < s.sspi.alignDmaBuf ∨
            s.sspi.alignDmaBuf + spiAlign t.bulkLen.toNat 64 ≤ buf + i) →
          s'.mem (buf + i) = env.shown i) := by
  obtain ⟨r, s', hx, ho⟩ := halSpiXfer_dma env hi hok hb
  refine ⟨r, s', hx, ?_⟩
  cases ho with
  | refused h regs trace =>
    exact ⟨fun a ha => staged_outside ha, fun buf hrx hr => absurd hr (by decide)⟩
  | unprepared hm hp hc hw dmaTx dmaRx regs trace =>
    exact ⟨fun a ha => staged_outside ha, fun buf hrx hr => absurd hr (by decide)⟩
  | sent hm hp hrx' hr hw dmaTx dmaRx regs trace =>
    refine ⟨fun a ha => staged_outside ha, fun buf hrx => ?_⟩
    rw [hrx] at hrx'
    cases hrx'
  | @received c v dma hm hp hrx' hr hw dmaTx dmaRx regs trace =>
    have hiff : (if v.RxAwaited env then spiMasterOk else spiMasterError) = spiMasterOk ↔
        v.RxAwaited env := by
      split
      · next h => exact iff_of_true rfl h
      · next h => exact iff_of_false (by decide) h
    obtain ⟨buf, hrx⟩ := Option.ne_none_iff_exists'.1 hrx'
    constructor
    · intro a ha
      rw [hiff] at ha
      exact received_outside env hr hrx ha
    · intro buf hrx hret i hi
      dsimp only
      rw [received, if_pos (hiff.1 hret)]
      constructor
      · intro hb
        rw [fetched, bulkBuf_rx hrx, if_pos hb, Option.getD_some, put_slice _ _ hi,
          put_slice _ _ (Nat.lt_of_lt_of_le hi (le_spiAlign _)), Nat.zero_add]
      · intro hb hout
        rw [fetched_outside env hrx _ (hr.bounce ▸ hout) fun hb' => (hb hb').elim, dmaBuf,
          if_neg hb, bulkBuf_rx hrx, Option.getD_some, put_slice _ _ hi, Nat.zero_add]

omit [HalSem ς] in
/-- The set-up of a transfer by DMA succeeds exactly where the buffer suits the engine, a channel is
free and it gets its descriptor; then a channel that was free runs this one descriptor. -/
theorem spiDma_programmed (hi : DmaInv own s.dma) (ht : ¬ BadTransfer s.sspi.transfer) :
    ∃ r s', (if s.sspi.transfer.rxBuf = none then spiDmaTx env s else spiDmaRx env s) =
    some (r, s') ∧
      (r = spiMasterOk ↔ ¬ s.sspi.transfer.Misaligned ∧ (∃ c, (s.dma.chans c).used = false) ∧
        s.Prepares env s.sspi.transfer) ∧
      (r = spiMasterOk → ∃ c, (s.dma.chans c).used = false ∧
        Programmed s'.dma c s s.sspi.transfer ∧ Aside c s.dma s'.dma ∧
        s'.mem = s.staged s.sspi.transfer) := by
  obtain ⟨r, s', hx, hbegun⟩ : ∃ r s', (if s.sspi.transfer.rxBuf = none then spiDmaTx env s
      else spiDmaRx env s) = some (r, s') ∧ Begun env s.sspi.transfer own s r s' := by
    cases hrx : s.sspi.transfer.rxBuf with
    | none =>
      cases htx : s.sspi.transfer.txBuf with
      | none => exact (ht (.inl ⟨htx, hrx⟩)).elim
      | some buf => exact spiDmaTx_begun env hi htx hrx
    | some buf => exact spiDmaRx_begun env hi hrx
  refine ⟨r, s', hx, ?_⟩
  cases hbegun with
  | refused h regs =>
    refine ⟨iff_of_false (by decide) ?_, fun h => absurd h (by decide)⟩
    rintro ⟨hm, ⟨c, hc⟩, -⟩
    cases h with
    | inl h => exact hm h
    | inr h => rw [hi.used, h c] at hc; cases hc
  | unprepared hm hp hc hw dmaTx dmaRx regs =>
    exact ⟨iff_of_false (by decide) fun h => hp h.2.2, fun h => absurd h (by decide)⟩
  | @running c dma hm hp hc hn hw hr dmaTx dmaRx hd regs =>
    have hfree : (s.dma.chans c).used = false := (hi.used c).trans hc
    exact ⟨iff_of_true rfl ⟨hm, ⟨c, hfree⟩, hp⟩, fun _ => ⟨c, hfree, hr, hw.aside, rfl⟩⟩

end SpiSys

/-- The end of a reception comes in time. -/
def SpiEnv.rung : SpiEnv := { SpiEnv.prompt with waiting := [.dmaEnd 0] }

/-- The cache shows other bytes than memory holds: a bounced reception gives what memory holds, a
long one what the cache shows. -/
theorem SpiSys.halSpiXfer_dma_memory_fetch :
    let stale : SpiEnv := { SpiEnv.rung with shown := fun _ => 0x5a }
    let long : SpiTransfer := { SpiTransfer.fetch with rxBuf := some 0x2000, rxLen := 8192 }
    (∃ s', SpiSys.idle.halSpiXfer stale (some .fetch) = some (spiMasterOk, s') ∧
      (∀ a, SpiSys.idle.Outside .fetch True a → s'.mem a = 0) ∧
      ∀ i < 128, s'.mem (0x1000 + i) = 0xff) ∧
    ∃ s', SpiSys.idle.halSpiXfer stale (some long) = some (spiMasterOk, s') ∧
      ∀ i < 8192, s'.mem (0x2000 + i) = 0x5a := by
  intro stale long
  constructor
  · obtain ⟨r, s', hx, hout, hin⟩ :=
      SpiSys.halSpiXfer_dma_memory stale SpiSys.idle_dma (t := .fetch) (by decide) (by decide)
    have hr : (SpiSys.idle.halSpiXfer stale (some .fetch)).map Prod.fst = some spiMasterOk := by
      decide +kernel
    rw [hx] at hr
    cases Option.some.inj hr
    refine ⟨s', hx, fun a ha => ?_, fun i hi => ?_⟩
    · have hok : Int.ofNat 0 = spiMasterOk ↔ True := iff_of_true rfl trivial
      rw [hout a (by rwa [hok])]
      rfl
    · exact (hin 0x1000 rfl rfl i hi).1 (by decide)
  · obtain ⟨r, s', hx, -, hin⟩ :=
      SpiSys.halSpiXfer_dma_memory stale SpiSys.idle_dma (t := long) (by decide) (by decide)
    have hr : (SpiSys.idle.halSpiXfer stale (some long)).map Prod.fst = some spiMasterOk := by
      decide +kernel
    rw [hx] at hr
    cases Option.some.inj hr
    refine ⟨s', hx, fun i hi => (hin 0x2000 rfl rfl i hi).2 (by decide) (.inl ?_)⟩
    exact Nat.lt_trans (Nat.add_lt_add_left hi 0x2000) (by decide)

theorem SpiSys.spiDma_programmed_fetch :
    let s : SpiSys CountSem :=
      { SpiSys.idle with sspi := { SpiSys.idle.sspi with transfer := .fetch } }
    ∃ r s', (if s.sspi.transfer.rxBuf = none then spiDmaTx .prompt s else spiDmaRx .prompt s) =
        some (r, s') ∧
      (r = spiMasterOk ↔ ¬ s.sspi.transfer.Misaligned ∧ (∃ c, (s.dma.chans c).used = false) ∧
        s.Prepares .prompt s.sspi.transfer) ∧
      (r = spiMasterOk → ∃ c, (s.dma.chans c).used = false ∧
        Programmed s'.dma c s s.sspi.transfer ∧ Aside c s.dma s'.dma ∧
        s'.mem = s.staged s.sspi.transfer) :=
  SpiSys.spiDma_programmed .prompt SpiSys.idle_dma (by decide)

end D1Flash
