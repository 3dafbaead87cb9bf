import D1Flash.Dma.CyclicCover
import D1Flash.Dma.Frame
import D1Flash.Dma.Leftover

namespace D1Flash
open LinkedHeap Runs
set_option autoImplicit true

variable {s t u : DmaSys} {nodes : ChanId → List Addr}

def dmaIrqStat (x : Nat) : Nat := 0x10 + 4 * x

/-- `sunxi_dma_irq_handle`, where the status word read is `statusL`. It gives the callback made for
each channel. -/
def sunxiDmaIrqHandle (statusL : BitVec 32) (s : DmaSys) :
    Option (List (Option (Addr × Ptr)) × DmaSys) :=
  exec (fun s c => irqTurn c statusL 0 s) (s.halWritel statusL (dmaIrqStat 0))
    (List.finRange nrMaxChan)

/-- What happens to a running channel: a call, or an interrupt of the controller. -/
inductive DmaTick
  | call (call : DmaCall)
  | irq (statusL : BitVec 32)

def dmaTick (s : DmaSys) : DmaTick → Option (List (Option (Addr × Ptr)) × DmaSys)
  | .call k => (dmaCall s k).map fun r => ([], r.2)
  | .irq statusL => sunxiDmaIrqHandle statusL s

/-- The status word has the period bit of the channel. -/
def PeriodBit (c : ChanId) (statusL : BitVec 32) : Prop := irqPkg &&& chanStatus c statusL 0 ≠ 0

instance : Decidable (PeriodBit c statusL) := inferInstanceAs (Decidable (_ ≠ _))

def periodIrqs (c : ChanId) : List DmaTick → Nat
  | [] => 0
  | .irq statusL :: ticks => periodIrqs c ticks + if PeriodBit c statusL then 1 else 0
  | .call _ :: ticks => periodIrqs c ticks

/-- The callbacks made for the channel in a handler call. -/
def callsOf (c : ChanId) (js : List ChanId) (made : List (Option (Addr × Ptr))) :
    List (Addr × Ptr) :=
  (js.zip made).filterMap fun p => if p.1 = c then p.2 else none

def callbacksOf (c : ChanId) (outs : List (List (Option (Addr × Ptr)))) : List (Addr × Ptr) :=
  outs.flatMap (callsOf c (List.finRange nrMaxChan))

/-- A channel that was started on a ring, with a callback. -/
structure Running (c : ChanId) (cb : Addr) (param : Ptr) (s : DmaSys) : Prop where
  used : (s.chans c).used = true
  chanCount : (s.chans c).chanCount = c
  cyclic : (s.chans c).cyclic = true
  irqType : (s.chans c).irqType = irqPkg
  callback : (s.chans c).callback = some cb
  callbackParam : (s.chans c).callbackParam = param
  first : ∃ l, (s.chans c).desc.bind s.heap.lookup = some l

theorem Running.untouched (hr : Running c cb param s) (ho : s.Owns nodes)
    (h : Untouched c nodes s t) : Running c cb param t := by
  obtain ⟨l, hl⟩ := hr.first
  refine ⟨?_, ?_, ?_, ?_, ?_, ?_, l, ?_⟩
  · rw [h.chan, hr.used]
  · rw [h.chan, hr.chanCount]
  · rw [h.chan, hr.cyclic]
  · rw [h.chan, hr.irqType]
  · rw [h.chan, hr.callback]
  · rw [h.chan, hr.callbackParam]
  · rw [h.chan]
    obtain ⟨a, ha, hla⟩ := Option.bind_eq_some_iff.1 hl
    have hmem : a ∈ nodes c := by
      have hc := Lists.chain ho c
      rw [ha] at hc
      cases hn : nodes c with
      | nil =>
        rw [hn] at hc
        cases hc
      | cons b as =>
        rw [hn] at hc
        cases hc.1
        exact List.mem_cons_self
    rw [ha, Option.bind_some, h.mem a hmem, hla]

theorem Running.irqTurn (hr : Running c cb param s) (statusL : BitVec 32) :
    ∃ t, irqTurn c statusL 0 s =
        some (if PeriodBit c statusL then some (cb, param) else none, t) ∧
      Running c cb param t := by
  obtain ⟨l, hl⟩ := hr.first
  have hnot : ¬ (!(s.chans c).used) = true := by
    rw [hr.used]
    exact Bool.false_ne_true
  unfold D1Flash.irqTurn
  dsimp only
  rw [if_neg hnot, hr.irqType, hr.chanCount, hr.callback, hr.callbackParam, if_pos hr.cyclic, hl]
  by_cases hbit : PeriodBit c statusL
  · rw [if_neg hbit, if_pos hbit]
    refine ⟨_, rfl, ?_⟩
    refine ⟨?_, ?_, ?_, ?_, ?_, ?_, l, ?_⟩
    all_goals rw [DmaSys.setChan_self]
    · exact hr.used
    · exact hr.cyclic
    · exact hl
  · rw [if_pos (not_not.1 hbit), if_neg hbit]
    exact ⟨s, rfl, hr⟩

theorem callsOf_cons_self (c : ChanId) (js : List ChanId) (o : Option (Addr × Ptr))
    (made : List (Option (Addr × Ptr))) :
    callsOf c (c :: js) (o :: made) = o.toList ++ callsOf c js made := by
  unfold callsOf
  rw [List.zip_cons_cons, List.filterMap_cons, if_pos rfl]
  cases o with
  | none => rfl
  | some x => rfl

theorem callsOf_cons_ne (hj : j ≠ c) (js : List ChanId) (o : Option (Addr × Ptr))
    (made : List (Option (Addr × Ptr))) : callsOf c (j :: js) (o :: made) = callsOf c js made := by
  unfold callsOf
  rw [List.zip_cons_cons, List.filterMap_cons, if_neg hj]

theorem Running.turns {own : ChanId → Bool} (hi : DmaInv own s) (hr : Running c cb param s)
    (h : exec (fun s c => D1Flash.irqTurn c statusL 0 s) s js = some (made, t)) :
    callsOf c js made =
        List.replicate (if PeriodBit c statusL then js.count c else 0) (cb, param) ∧
      Running c cb param t ∧ DmaInv own t := by
  induction js generalizing s made with
  | nil =>
    cases h
    refine ⟨?_, hr, hi⟩
    split <;> rfl
  | cons j js ih =>
    obtain ⟨o, u, made', hj, hjs, rfl⟩ := exec_cons h
    have hj : D1Flash.irqTurn j statusL 0 s = some (o, u) := hj
    by_cases hc : j = c
    · subst hc
      obtain ⟨u', hu, hru⟩ := hr.irqTurn statusL
      cases hu.symm.trans hj
      obtain ⟨hcalls, hrt, hit⟩ := ih (hi.irqTurn hj) hru hjs
      refine ⟨?_, hrt, hit⟩
      rw [callsOf_cons_self, hcalls, List.count_cons_self]
      split
      · rfl
      · rfl
    · obtain ⟨nodes, ho⟩ := hi.owns
      have hru := hr.untouched ho (irqTurn_frame (Ne.symm hc) hj)
      obtain ⟨hcalls, hrt, hit⟩ := ih (hi.irqTurn hj) hru hjs
      refine ⟨?_, hrt, hit⟩
      rw [callsOf_cons_ne hc, hcalls, List.count_cons_of_ne hc]

theorem Running.handle {own : ChanId → Bool} (hi : DmaInv own s) (hr : Running c cb param s)
    (h : sunxiDmaIrqHandle statusL s = some (made, t)) :
    callsOf c (List.finRange nrMaxChan) made =
        List.replicate (if PeriodBit c statusL then 1 else 0) (cb, param) ∧
      Running c cb param t ∧ DmaInv own t := by
  have hrw : Running c cb param (s.halWritel statusL (dmaIrqStat 0)) :=
    ⟨hr.used, hr.chanCount, hr.cyclic, hr.irqType, hr.callback, hr.callbackParam, hr.first⟩
  have hcount : (List.finRange nrMaxChan).count c = 1 :=
    List.count_eq_one_of_mem (List.nodup_finRange _) (List.mem_finRange c)
  have hturns := hrw.turns (hi.halWritel _ _) h
  rwa [hcount] at hturns

/-- Until a call concerns the channel, every period interrupt makes one callback. -/
theorem Running.run {own : ChanId → Bool} (hi : DmaInv own s) (hr : Running c cb param s)
    (h : exec dmaTick s ticks = some (outs, t)) (hq : ∀ k, .call k ∈ ticks → k.chan ≠ some c) :
    callbacksOf c outs = List.replicate (periodIrqs c ticks) (cb, param) ∧
      ∃ own', DmaInv own' t := by
  induction ticks generalizing s own outs with
  | nil =>
    cases h
    exact ⟨rfl, own, hi⟩
  | cons e ticks ih =>
    obtain ⟨made, u, outs', he, hticks, rfl⟩ := exec_cons h
    have hq' : ∀ k, .call k ∈ ticks → k.chan ≠ some c :=
      fun k hk => hq k (List.mem_cons_of_mem e hk)
    cases e with
    | call k =>
      obtain ⟨r, hk, hru⟩ := Option.map_eq_some_iff.1 he
      cases hru
      obtain ⟨nodes, ho⟩ := hi.owns
      have hchan := hq k List.mem_cons_self
      have hru := hr.untouched ho (dmaCall_untouched ho hchan (fun _ => hr.used) hk)
      have hevent : dmaEvent s (.call k) = some (.ret r.1, r.2) := by
        rw [dmaEvent, hk]
        rfl
      obtain ⟨hcalls, hinv⟩ := ih (dmaEvent_inv (.call k) hi hevent) hru hticks hq'
      refine ⟨?_, hinv⟩
      rw [callbacksOf, List.flatMap_cons, callsOf, List.zip_nil_right]
      exact hcalls
    | irq statusL =>
      obtain ⟨hmade, hru, hiu⟩ := hr.handle hi he
      obtain ⟨hcalls, hinv⟩ := ih hiu hru hticks hq'
      refine ⟨?_, hinv⟩
      rw [callbacksOf, List.flatMap_cons, hmade, ← callbacksOf, hcalls, periodIrqs,
        List.replicate_append_replicate, Nat.add_comm]

theorem DmaSys.Owns.first (ho : s.Owns nodes) (hxs : s.descs c = some xs) (hne : xs ≠ []) :
    ∃ l, (s.chans c).desc.bind s.heap.lookup = some l := by
  obtain ⟨ys, hys, hfst⟩ := ho.descs c
  cases hxs.symm.trans hys
  have hc := Lists.chain ho c
  rw [← hfst] at hc
  cases xs with
  | nil => exact absurd rfl hne
  | cons x xs =>
    obtain ⟨hd, l, hl, -⟩ := hc
    exact ⟨l, by rw [hd, Option.bind_some, hl]⟩

theorem start_running (ho : s.Owns nodes) (hu : (s.chans c).used = true)
    (hn : (s.chans c).chanCount = c) (hy : (s.chans c).cyclic = true) (hxs : s.descs c = some xs)
    (hne : xs ≠ []) (h : halDmaStart (some c) s = some (r, t))
    (hcb : (t.chans c).callback = some cb) :
    Running c cb (t.chans c).callbackParam t := by
  obtain ⟨l, hl⟩ := ho.first hxs hne
  unfold halDmaStart at h
  dsimp only at h
  split at h
  · cases h
  · cases h
    have hchan : (armChan c s).chans c = { s.chans c with irqType := irqPkg } := by
      unfold armChan
      rw [if_pos hy]
      exact DmaSys.setChan_self ..
    have hfield {β : Type} (f : DmaChan → β) :
        f ((armChan c s).chans c) = f { s.chans c with irqType := irqPkg } := congrArg f hchan
    refine ⟨(hfield DmaChan.used).trans hu, (hfield DmaChan.chanCount).trans hn,
      (hfield DmaChan.cyclic).trans hy, hfield DmaChan.irqType, hcb, rfl, l, ?_⟩
    exact (congrArg (fun p : Ptr => p.bind s.heap.lookup) (hfield DmaChan.desc)).trans hl

/-- The count of periods and the callbacks after `k` period interrupts. -/
def PeriodsTracked (c : ChanId) (n k : Nat) (cb : Addr × Ptr) (calls : List (Addr × Ptr))
    (s : DmaSys) : Prop :=
  (s.chans c).periodsPos.toNat = k % n ∧ calls = List.replicate k cb

/-- A channel is handed out, a ring prepared on it and started; then interrupts come, and calls on
other channels. -/
theorem periods_tracked_iff (h : exec dmaEvent (.init regs) evs = some (os, s))
    (hr : (halDmaChanRequest s).1.chan = some c)
    (h₁ : exec dmaEvent (halDmaChanRequest s).2 evs₁ = some (os₁, s₁))
    (hq₁ : ∀ e ∈ evs₁, ¬ DmaEvent.Ends c e)
    (hp : halDmaPrepCyclic (some c) bufAddr bufLen periodLen dir picks s₁ = some (r, s₂))
    (hok : r.ret = halDmaStatusOk)
    (h₂ : exec dmaEvent s₂ evs₂ = some (os₂, s₃)) (hq₂ : ∀ e ∈ evs₂, ¬ DmaEvent.Ends c e)
    (hs : halDmaStart (some c) s₃ = some (r', s₄)) (hcb : (s₄.chans c).callback = some cb)
    (h₃ : exec dmaTick s₄ ticks = some (outs, u))
    (hq₃ : ∀ k, .call k ∈ ticks → k.chan ≠ some c) :
    PeriodsTracked c (cyclicPeriods bufLen periodLen) (periodIrqs c ticks)
        (cb, (s₄.chans c).callbackParam) (callbacksOf c outs) u ↔
      cyclicPeriods bufLen periodLen ∣ periodIrqs c ticks := by
  have hi := (history_inv h).request
  obtain ⟨nodes, ho⟩ := hi.owns
  obtain ⟨xs, hxs, -⟩ := ho.descs c
  have hchan := congrArg (fun s => s.chans c) (request_chan hr)
  dsimp only at hchan
  rw [DmaSys.setChan_self] at hchan
  -- the channel stays in use up to the start
  obtain ⟨-, -, hheld⟩ := exec_kept hi h₁ hq₁ hxs
  have hused := congrArg DmaChan.used hchan
  have hcount := congrArg DmaChan.chanCount hchan
  obtain ⟨hused₁, hcount₁⟩ := hheld hused
  have hi₁ := exec_inv hi h₁
  obtain ⟨nodes₁, ho₁⟩ := hi₁.owns
  obtain ⟨hring, hlen, -⟩ := prepCyclic_ok ho₁ hp hok
  have hi₂ := hi₁.prepCyclic hp
  have hchan₂ := congrFun hring.chans c
  rw [Function.update_self] at hchan₂
  obtain ⟨hxs₃, hcyc₃, hheld₃⟩ := exec_kept hi₂ h₂ hq₂ hring.descs
  have hused₂ := (congrArg DmaChan.used hchan₂).trans hused₁
  have hcount₂ := (congrArg DmaChan.chanCount hchan₂).trans (hcount₁.trans hcount)
  obtain ⟨hused₃, hcount₃⟩ := hheld₃ hused₂
  have hi₃ := exec_inv hi₂ h₂
  obtain ⟨nodes₃, ho₃⟩ := hi₃.owns
  have hne : ringDescs (cyclicItem (s₁.chans c).cfg bufAddr periodLen dir)
      (picks.take (bufLen / periodLen).toNat) ≠ [] := by
    rw [← List.length_pos_iff, ringDescs_length]
    exact List.length_pos_of_ne_nil hring.nonempty
  have hrun := start_running ho₃ hused₃ (hcount₃.trans hcount₂)
    (hcyc₃.trans (congrArg DmaChan.cyclic hchan₂)) hxs₃ hne hs hcb
  obtain ⟨hcalls, own, hiu⟩ := hrun.run (hi₃.start hs) h₃ hq₃
  have hpos : (u.chans c).periodsPos.toNat = 0 := congrArg BitVec.toNat (hiu.tame c).periodsPos
  rw [PeriodsTracked, hpos, hcalls, and_iff_left rfl, Nat.dvd_iff_mod_eq_zero, eq_comm]

/-- Two periods of four bytes on channel 0, with a callback. -/
def startRing : List DmaEvent :=
  [.call (.prepCyclic (some 0) 0x1000 8 4 .memToDev [64, 128]),
    .call (.callbackInstall (some 0) (some 7) (some 9)), .call (.start (some 0))]

/-- After two interrupts for channel 0 and one for channel 1. -/
theorem periods_tracked_two : ∃ s₂ s₄ outs u,
    halDmaPrepCyclic (some 0) 0x1000 8 4 .memToDev [64, 128]
        (halDmaChanRequest (.init fun _ => 0)).2 = some (.status halDmaStatusOk, s₂) ∧
      halDmaStart (some 0) (halDmaCallbackInstall (some 0) (some 7) (some 9) s₂).2 =
        some (.status halDmaStatusOk, s₄) ∧
      exec dmaTick s₄ [.irq 0x02, .irq 0x20, .irq 0x02] = some (outs, u) ∧
      PeriodsTracked 0 2 2 (7, (s₄.chans 0).callbackParam) (callbacksOf 0 outs) u := by
  have hall : ((halDmaPrepCyclic (some 0) 0x1000 8 4 .memToDev [64, 128]
      (halDmaChanRequest (.init fun _ => 0)).2).bind fun p =>
        (halDmaStart (some 0) (halDmaCallbackInstall (some 0) (some 7) (some 9) p.2).2).bind
        fun q =>
          (exec dmaTick q.2 [.irq 0x02, .irq 0x20, .irq 0x02]).map fun _ =>
            (p.1, q.1, (q.2.chans 0).callback)) =
      some (.status halDmaStatusOk, .status halDmaStatusOk, some 7) := by decide
  obtain ⟨⟨r, s₂⟩, hp, hall⟩ := Option.bind_eq_some_iff.1 hall
  obtain ⟨⟨r', s₄⟩, hs, hall⟩ := Option.bind_eq_some_iff.1 hall
  obtain ⟨⟨outs, u⟩, h₃, hret⟩ := Option.map_eq_some_iff.1 hall
  have hret : (r, r', (s₄.chans 0).callback) =
      (.status halDmaStatusOk, .status halDmaStatusOk, some 7) := hret
  obtain ⟨hr, hrest⟩ := Prod.mk.inj hret
  obtain ⟨hr', hcb⟩ := Prod.mk.inj hrest
  subst hr hr'
  have hinit : exec dmaEvent (.init fun _ => 0) [] = some ([], .init fun _ => 0) := rfl
  have hempty : exec dmaEvent (halDmaChanRequest (.init fun _ => 0)).2 [] =
      some ([], (halDmaChanRequest (.init fun _ => 0)).2) := rfl
  have hinstall : exec dmaEvent s₂ [.call (.callbackInstall (some 0) (some 7) (some 9))] =
      some ([.ret (.status halDmaStatusOk)],
        (halDmaCallbackInstall (some 0) (some 7) (some 9) s₂).2) := rfl
  have hq : ∀ e ∈ [DmaEvent.call (.callbackInstall (some 0) (some 7) (some 9))],
      ¬ DmaEvent.Ends 0 e := by
    intro e he hends
    cases List.mem_singleton.1 he
    exact hends
  have hq₃ : ∀ k, DmaTick.call k ∈ [DmaTick.irq 0x02, .irq 0x20, .irq 0x02] →
      k.chan ≠ some 0 := by
    intro k hk
    simp at hk
  have htracked := periods_tracked_iff hinit rfl hempty
    (fun e he => absurd he List.not_mem_nil) hp rfl hinstall hq hs hcb h₃ hq₃
  exact ⟨s₂, s₄, outs, u, hp, hs, h₃, htracked.2 (by decide)⟩

/-- After the first interrupt the count is still 0. -/
theorem periods_not_counted :
    ((exec dmaEvent (.init fun _ => 0) (.call .request :: startRing)).bind fun r =>
        (exec dmaTick r.2 [.irq 0x02]).map fun r =>
          ((r.2.chans 0).periodsPos, callbacksOf 0 r.1)) = some (0, [(7, some 9)]) ∧
      1 % cyclicPeriods 8 4 = 1 := by
  decide

end D1Flash
