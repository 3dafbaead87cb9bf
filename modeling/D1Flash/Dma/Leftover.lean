import D1Flash.Dma.Handover

namespace D1Flash
open LinkedHeap Runs
set_option autoImplicit true

variable {s t : DmaSys} {own own' : ChanId → Bool}

/-! What an owner can find out. -/

theorem DmaChan.eq_but_cfg {x y : DmaChan} (hu : x.used = y.used) (hn : x.chanCount = y.chanCount)
    (hc : x.cyclic = y.cyclic) (hp : x.periodsPos = y.periodsPos) (hb : x.bufLen = y.bufLen)
    (hd : x.desc = y.desc) (hi : x.irqType = y.irqType) (hcb : x.callback = y.callback)
    (hcp : x.callbackParam = y.callbackParam) :
    { x with cfg := .zero } = { y with cfg := .zero } := by
  rw [hu, hn, hc, hp, hb, hd, hi, hcb, hcp]

/-- What is left says all of the channel that an owner can see. -/
theorem sim_of_leftover (hi : DmaInv own s) (hi' : DmaInv own' t)
    (hu : (t.chans c).used = (s.chans c).used)
    (hn : (t.chans c).chanCount = (s.chans c).chanCount) (hl : leftover c s = leftover c t) :
    Alike (fun a => t.heap.lookup a = s.heap.lookup a) c s t := by
  obtain ⟨nodes, ho⟩ := hi.owns
  obtain ⟨xs, hxs, hfst⟩ := ho.descs c
  have hview : view c s = view c t := congrArg Leftover.view hl
  have hds : s.descs c = t.descs c := congrArg ChanView.descs hview
  have hxt : t.descs c = some xs := hds ▸ hxs
  obtain ⟨hhead, hmem⟩ := walk_mem hxs
  obtain ⟨hhead', hmem'⟩ := walk_mem hxt
  refine ⟨nodes, ?_, ?_, fun _ h => h, ho, ?_⟩
  · apply DmaChan.eq_but_cfg hu hn
    · exact (congrArg Leftover.cyclic hl).symm
    · rw [(hi.tame c).periodsPos, (hi'.tame c).periodsPos]
    · rw [(hi.tame c).bufLen, (hi'.tame c).bufLen]
    · rw [hhead, hhead']
    · exact (congrArg ChanView.irqType hview).symm
    · exact (congrArg ChanView.callback hview).symm
    · exact (congrArg ChanView.callbackParam hview).symm
  · exact (congrArg Leftover.config hl).symm
  · intro a ha
    rw [← hfst] at ha
    obtain ⟨y, hy, rfl⟩ := List.mem_map.1 ha
    exact (hmem' y hy).trans (hmem y hy).symm

theorem sameForOwner_of_alike {Q : Addr → Prop} (hs : Alike Q c s t)
    (hq : ∀ a, a ∉ s.heap ∧ a ∉ t.heap → Q a) : SameForOwner c s t := by
  obtain ⟨nodes, hsim⟩ := hs
  refine ⟨hsim.view, fun evs hevs => ?_⟩
  refine exec_lockstep (R := Alike Q c) (G := fun e => e.chan = some c ∧ ∀ a ∈ e.picks, Q a)
    (fun s t e h hg => h.ownerStep e hg) ⟨nodes, hsim⟩ fun e he => ?_
  exact ⟨(hevs e he).1, fun a ha => hq a ((hevs e he).2 a ha)⟩

theorem SameForOwner.view_after (h : SameForOwner c s t) (call : DmaCall) (hc : call.chan = some c)
    (hf : ∀ a ∈ (DmaEvent.call call).picks, a ∉ s.heap ∧ a ∉ t.heap)
    (hs : dmaCall s call = some (r, s')) (ht : dmaCall t call = some (r', t')) :
    view c s' = view c t' := by
  have hout := h.2 [.call call] fun e' he => by
    rw [List.mem_singleton.1 he]
    exact ⟨hc, hf⟩
  rw [exec, exec, ownerStep, ownerStep, dmaEvent, dmaEvent, hs, ht] at hout
  have hpair := List.head_eq_of_cons_eq (Option.some.inj hout)
  exact congrArg Prod.snd hpair

theorem start_irqType (ho : s.Owns nodes) (c : ChanId) :
    ∃ r t, halDmaStart (some c) s = some (r, t) ∧
      (t.chans c).irqType = if (s.chans c).cyclic then irqPkg else irqQueue := by
  have hk := armChan_keeps c s
  obtain ⟨xs, hxs, -⟩ := (ho.congr hk.heap hk.desc).descs c
  unfold halDmaStart
  dsimp only
  rw [hxs]
  refine ⟨_, _, rfl, ?_⟩
  dsimp only [DmaSys.halWritel_chans, armChan]
  rw [DmaSys.setChan_self]

theorem SameForOwner.cyclic (h : SameForOwner c s t) (ho : s.Owns nodes) (ho' : t.Owns nodes') :
    (s.chans c).cyclic = (t.chans c).cyclic := by
  obtain ⟨r, s', hs, hirq⟩ := start_irqType ho c
  obtain ⟨r', t', ht, hirq'⟩ := start_irqType ho' c
  have hv := h.view_after (.start (some c)) rfl (fun a ha => (nomatch ha)) hs ht
  have heq : (s'.chans c).irqType = (t'.chans c).irqType := congrArg ChanView.irqType hv
  rw [hirq, hirq'] at heq
  revert heq
  cases (s.chans c).cyclic <;> cases (t.chans c).cyclic <;> decide

theorem DmaSys.Owns.descs_single (ho : Owns s nodes) (hn : nodes c = [a])
    (hl : s.heap.lookup a = some l) : s.descs c = some [(a, l)] := by
  obtain ⟨xs, hxs, hfst⟩ := ho.descs c
  rw [hn] at hfst
  obtain ⟨⟨b, x⟩, rfl, rfl⟩ := List.map_eq_singleton_iff.1 hfst
  have hx := (walk_mem hxs).2 (b, x) List.mem_cons_self
  rw [hl] at hx
  cases hx
  exact hxs

theorem malloc_of_fresh {h : Heap DmaLli} (ha : a ∉ h) : malloc h (some a) = some a := by
  rw [malloc, Option.filter_some, if_pos (decide_eq_true ha)]

theorem prepOne_descs (ho : s.Owns nodes) (ha : a ∉ s.heap) (item : DmaSlaveConfig → DmaLli) :
    ∃ r t, prepOne (some c) 1 1 item (some a) s = some (r, t) ∧
      t.descs c = some [(a, { item (s.chans c).cfg with pLln := linkEnd, vlln := none })] := by
  have hz : ¬ ((1 : BitVec 32) = 0 ∨ (1 : BitVec 32) = 0) := by decide
  obtain ⟨t, ht, ho', -, -, hh⟩ := ho.lliList_head ha (item (s.chans c).cfg) c
  unfold prepOne
  dsimp only
  rw [if_neg hz, malloc_of_fresh ha]
  dsimp only
  rw [ht]
  refine ⟨_, t, rfl, ho'.descs_single (Function.update_self ..) ?_⟩
  rw [hh]
  exact AList.lookup_insert _

theorem SameForOwner.item (h : SameForOwner c s t) (ho : s.Owns nodes) (ho' : t.Owns nodes')
    (call : Addr → DmaCall) (item : DmaSlaveConfig → DmaLli)
    (hcall : ∀ a u, dmaCall u (call a) = prepOne (some c) 1 1 item (some a) u)
    (hc : ∀ a, (call a).chan = some c) (hp : ∀ a, (DmaEvent.call (call a)).picks = [a]) :
    (item (s.chans c).cfg).cfg = (item (t.chans c).cfg).cfg := by
  obtain ⟨a, ha, ha'⟩ := exists_fresh s.heap t.heap
  obtain ⟨r, s', hs, hd⟩ := prepOne_descs (c := c) ho ha item
  obtain ⟨r', t', ht, hd'⟩ := prepOne_descs (c := c) ho' ha' item
  have hf : ∀ b ∈ (DmaEvent.call (call a)).picks, b ∉ s.heap ∧ b ∉ t.heap := by
    intro b hb
    rw [hp, List.mem_singleton] at hb
    exact hb ▸ ⟨ha, ha'⟩
  have hv := h.view_after (call a) (hc a) hf ((hcall a s).trans hs) ((hcall a t).trans ht)
  have hds : s'.descs c = t'.descs c := congrArg ChanView.descs hv
  rw [hd, hd'] at hds
  have hpair := List.head_eq_of_cons_eq (Option.some.inj hds)
  exact congrArg (fun p => p.2.cfg) hpair

/-! The words of a configuration from the items made of it. -/

/-- The bits an item has beside the words of its configuration. -/
def modeBits : BitVec 32 := 0x01010101

theorem or_cancel {x y k : BitVec 32} (h : x ||| k = y ||| k) (hx : x &&& k = 0#32)
    (hy : y &&& k = 0#32) : x = y := by
  apply BitVec.eq_of_getLsbD_eq
  intro i hi
  have hor := congrArg (BitVec.getLsbD · i) h
  have hxi := congrArg (BitVec.getLsbD · i) hx
  have hyi := congrArg (BitVec.getLsbD · i) hy
  simp only [BitVec.getLsbD_or, BitVec.getLsbD_and, BitVec.getLsbD_zero] at hor hxi hyi
  cases hkb : k.getLsbD i with
  | false =>
    rw [hkb, Bool.or_false, Bool.or_false] at hor
    exact hor
  | true =>
    rw [hkb, Bool.and_true] at hxi hyi
    rw [hxi, hyi]

theorem and_sub {x k : BitVec 32} (hx : x &&& modeBits = 0#32) (hk : modeBits &&& k = k) :
    x &&& k = 0#32 := by
  rw [← hk, ← BitVec.and_assoc, hx]
  exact BitVec.zero_and

theorem small_cases {x : BitVec 32} (h : x < 4) : x = 0 ∨ x = 1 ∨ x = 2 ∨ x = 3 := by
  bv_omega

theorem convertBuswidth_lt (w : DmaSlaveBuswidth) : convertBuswidth w < 4 := by
  cases w <;> decide

theorem field_modeBits {x : BitVec 32} (h : x < 4) : srcBurst x &&& modeBits = 0#32 ∧
    srcWidth x &&& modeBits = 0#32 ∧ dstBurst x &&& modeBits = 0#32 ∧ dstWidth x &&&
    modeBits = 0#32 := by
  obtain rfl | rfl | rfl | rfl := small_cases h <;> decide

theorem DmaChan.Tame.mem_modeBits {chan : DmaChan} (h : chan.Tame) :
    chan.cfg.words.mem &&& modeBits = 0#32 := by
  obtain ⟨hsb, -, -, -⟩ := field_modeBits h.srcMaxburst
  obtain ⟨-, -, hdb, -⟩ := field_modeBits h.dstMaxburst
  obtain ⟨-, hsw, -, -⟩ := field_modeBits (convertBuswidth_lt chan.cfg.srcAddrWidth)
  obtain ⟨-, -, -, hdw⟩ := field_modeBits (convertBuswidth_lt chan.cfg.dstAddrWidth)
  dsimp only [DmaSlaveConfig.words, sunxiCfgLli]
  rw [BitVec.and_or_distrib_right, BitVec.and_or_distrib_right, BitVec.and_or_distrib_right,
    hsb, hsw, hdb, hdw]
  rfl

theorem words_eq {chan chan' : DmaChan} (ht : chan.Tame) (ht' : chan'.Tame)
    (hm : (memcpyItem chan.cfg 1 1 0).cfg = (memcpyItem chan'.cfg 1 1 0).cfg)
    (hd : (deviceItem chan.cfg 1 1 0 .memToDev).cfg = (deviceItem chan'.cfg 1 1 0 .memToDev).cfg)
    (hs : (deviceItem chan.cfg 1 1 0 .devToMem).cfg = (deviceItem chan'.cfg 1 1 0 .devToMem).cfg)
    (hsrc : chan.cfg.srcAddr.setWidth 32 = chan'.cfg.srcAddr.setWidth 32)
    (hdst : chan.cfg.dstAddr.setWidth 32 = chan'.cfg.dstAddr.setWidth 32) :
    chan.cfg.words = chan'.cfg.words := by
  have hmem : chan.cfg.words.mem = chan'.cfg.words.mem :=
    or_cancel hm (and_sub ht.mem_modeBits rfl) (and_sub ht'.mem_modeBits rfl)
  have hdev {x : DmaChan} (hx : x.Tame) (id : BitVec 32) :
      (x.cfg.words.mem ||| getDstDrq id) &&&
      (srcLinearMode ||| (dstIoMode ||| srcDrq drqsrcSdram)) =
        0#32 := by
    rw [BitVec.and_or_distrib_right, and_sub hx.mem_modeBits rfl, getDstDrq, BitVec.and_assoc]
    exact (BitVec.zero_or).trans BitVec.and_zero
  have hdev' {x : DmaChan} (hx : x.Tame) (id : BitVec 32) :
      (x.cfg.words.mem ||| getSrcDrq id) &&&
      (dstLinearMode ||| (srcIoMode ||| dstDrq drqsrcSdram)) =
        0#32 := by
    rw [BitVec.and_or_distrib_right, and_sub hx.mem_modeBits rfl, getSrcDrq, BitVec.and_assoc]
    exact (BitVec.zero_or).trans BitVec.and_zero
  have hg (m y a b z : BitVec 32) : m ||| (y ||| a ||| b ||| z) = (m ||| y) |||
    (a ||| (b ||| z)) := by
    simp only [BitVec.or_assoc]
  have hdstDev : chan.cfg.words.dstDev = chan'.cfg.words.dstDev := by
    apply or_cancel _ (hdev ht _) (hdev ht' _)
    exact (hg _ _ _ _ _).symm.trans (hd.trans (hg _ _ _ _ _))
  have hsrcDev : chan.cfg.words.srcDev = chan'.cfg.words.srcDev := by
    apply or_cancel _ (hdev' ht _) (hdev' ht' _)
    exact (hg _ _ _ _ _).symm.trans (hs.trans (hg _ _ _ _ _))
  cases hw : chan.cfg.words
  cases hw' : chan'.cfg.words
  rw [hw, hw'] at hmem hdstDev hsrcDev
  have hsrc' := (congrArg ConfigWords.srcAddr hw).symm.trans
    (hsrc.trans (congrArg ConfigWords.srcAddr hw'))
  have hdst' := (congrArg ConfigWords.dstAddr hw).symm.trans
    (hdst.trans (congrArg ConfigWords.dstAddr hw'))
  dsimp only at hmem hdstDev hsrcDev hsrc' hdst'
  rw [hmem, hdstDev, hsrcDev, hsrc', hdst']

/-- A ring of one period between two devices holds both addresses of the configuration. -/
theorem prepCyclic_single (ho : s.Owns nodes) (ha : a ∉ s.heap) :
    ∃ r t l, halDmaPrepCyclic (some c) 1 1 1 .devToDev [a] s = some (r, t) ∧
      t.descs c = some [(a, l)] ∧ l.src = (s.chans c).cfg.srcAddr.setWidth 32 ∧
      l.dst = (s.chans c).cfg.dstAddr.setWidth 32 := by
  obtain ⟨s₁, hs₁, ho₁, hch₁, -, hl₁⟩ := ho.freeDescs c
  have ha₁ : a ∉ s₁.heap := by
    intro hm
    obtain ⟨l, hl⟩ := mem_iff_lookup.1 hm
    rw [hl₁] at hl
    split at hl
    · cases hl
    · exact ha (mem_iff_lookup.2 ⟨l, hl⟩)
  have hcfg : (s₁.chans c).cfg = (s.chans c).cfg := by
    rw [hch₁, Function.update_self]
  have hitem := congrFun (congrArg (fun cfg => cyclicItem cfg 1 1 .devToDev) hcfg)
  generalize hcyc : cyclicItem (s₁.chans c).cfg 1 1 .devToDev = item at hitem
  obtain ⟨s₂, hs₂, ho₂, -, -, hh₂⟩ := ho₁.lliList_head ha₁ (item 0) c
  have hmem : a ∈ Function.update (Function.update nodes c []) c [a] c := by
    rw [Function.update_self]
    exact List.mem_cons_self
  have hloop : cyclicLoop c item 1 0 none [a] s₁ = some (true, some a, s₂) := by
    rw [cyclicLoop, List.head?_cons, malloc_of_fresh ha₁]
    dsimp only
    rw [hs₂]
    rfl
  have hl₂ : s₂.heap.lookup a = some { item 0 with pLln := linkEnd, vlln := none } := by
    rw [hh₂, AList.lookup_insert]
  obtain ⟨s₃, hs₃, ho₃, -, -⟩ := ho₂.closeRing hmem
  have hl₃ : ∃ l, s₃.heap.lookup a = some l ∧ l.src = (item 0).src ∧ l.dst = (item 0).dst := by
    have hclose := hs₃
    rw [closeRing, hl₂] at hclose
    cases hclose
    exact ⟨_, AList.lookup_insert _, rfl, rfl⟩
  obtain ⟨l, hl, hsrc, hdst⟩ := hl₃
  have hk : Keeps s₃ (s₃.setChan c { s₃.chans c with cyclic := true }) := Keeps.setChan s₃ c rfl
  have hdescs := (ho₃.congr hk.heap hk.desc).descs_single (Function.update_self ..) hl
  refine ⟨.status halDmaStatusOk, _, l, ?_, hdescs, ?_, ?_⟩
  · have h1 : ((1 : BitVec 32) / 1).toNat = 1 := by decide
    have hz : ¬ (1 : BitVec 32) = 0 := by decide
    unfold halDmaPrepCyclic
    rw [if_neg hz]
    dsimp only
    rw [if_neg hz, hs₁, h1]
    dsimp only
    rw [hcyc, hloop]
    dsimp only
    rw [hs₃]
  · rw [hsrc, hitem]
    rfl
  · rw [hdst, hitem]
    rfl

theorem SameForOwner.leftover (h : SameForOwner c s t) (hi : DmaInv own s) (hi' : DmaInv own' t) :
    leftover c s = leftover c t := by
  obtain ⟨nodes, ho⟩ := hi.owns
  obtain ⟨nodes', ho'⟩ := hi'.owns
  have hm := h.item ho ho' (fun a => .prepMemcpy (some c) 1 1 0 (some a))
    (fun config => memcpyItem config 1 1 0) (fun _ _ => rfl) (fun _ => rfl) fun _ => rfl
  have hd := h.item ho ho' (fun a => .prepDevice (some c) 1 1 0 .memToDev (some a))
    (fun config => deviceItem config 1 1 0 .memToDev) (fun _ _ => rfl) (fun _ => rfl)
    fun _ => rfl
  have hs := h.item ho ho' (fun a => .prepDevice (some c) 1 1 0 .devToMem (some a))
    (fun config => deviceItem config 1 1 0 .devToMem) (fun _ _ => rfl) (fun _ => rfl)
    fun _ => rfl
  obtain ⟨a, ha, ha'⟩ := exists_fresh s.heap t.heap
  obtain ⟨r, s', l, hcs, hds, hsrc, hdst⟩ := prepCyclic_single (c := c) ho ha
  obtain ⟨r', t', l', hct, hdt, hsrc', hdst'⟩ := prepCyclic_single (c := c) ho' ha'
  have hf : ∀ b ∈ [a], b ∉ s.heap ∧ b ∉ t.heap := by
    intro b hb
    rw [List.mem_singleton.1 hb]
    exact ⟨ha, ha'⟩
  have hv := h.view_after (.prepCyclic (some c) 1 1 1 .devToDev [a]) rfl hf hcs hct
  have hl : s'.descs c = t'.descs c := congrArg ChanView.descs hv
  rw [hds, hdt] at hl
  have hll : l = l' := congrArg Prod.snd (List.head_eq_of_cons_eq (Option.some.inj hl))
  have hw := words_eq (hi.tame c) (hi'.tame c) hm hd hs (hsrc.symm.trans (hll ▸ hsrc'))
    (hdst.symm.trans (hll ▸ hdst'))
  unfold D1Flash.leftover
  rw [h.1, h.cyclic ho ho', hw]

/-! The handover. -/

theorem request_chan (hr : (halDmaChanRequest s).1.chan = some c) :
    (halDmaChanRequest s).2 = s.setChan c { s.chans c with used := true, chanCount := c } := by
  unfold halDmaChanRequest at hr ⊢
  split at hr
  · cases hr
    rfl
  · cases hr

theorem leftover_request (hr : (halDmaChanRequest s).1.chan = some c) :
    leftover c (halDmaChanRequest s).2 = leftover c s := by
  rw [request_chan hr]
  unfold leftover view DmaSys.descs
  rw [DmaSys.setChan_self]
  rfl

/-- A channel handed out is nobody's, and after two histories its new owner can tell them apart
exactly by what they left in the record. -/
theorem dma_handover (h₁ : exec dmaEvent (.init regs₁) evs₁ = some (os₁, s₁))
    (h₂ : exec dmaEvent (.init regs₂) evs₂ = some (os₂, s₂))
    (hr₁ : (halDmaChanRequest s₁).1.chan = some c) (hr₂ : (halDmaChanRequest s₂).1.chan = some c) :
    ownedAfter (evs₁.zip os₁) c = false ∧
      (SameForOwner c (halDmaChanRequest s₁).2 (halDmaChanRequest s₂).2 ↔
        leftover c s₁ = leftover c s₂) := by
  have hi₁ := history_inv h₁
  have hi₂ := history_inv h₂
  refine ⟨hi₁.request_free hr₁, ?_⟩
  rw [← leftover_request hr₁, ← leftover_request hr₂]
  constructor
  · intro h
    exact h.leftover hi₁.request hi₂.request
  · intro hl
    have hu : ((halDmaChanRequest s₂).2.chans c).used =
      ((halDmaChanRequest s₁).2.chans c).used := by
      rw [request_chan hr₁, request_chan hr₂, DmaSys.setChan_self, DmaSys.setChan_self]
    have hn : ((halDmaChanRequest s₂).2.chans c).chanCount =
        ((halDmaChanRequest s₁).2.chans c).chanCount := by
      rw [request_chan hr₁, request_chan hr₂, DmaSys.setChan_self, DmaSys.setChan_self]
    apply sameForOwner_of_alike (sim_of_leftover hi₁.request hi₂.request hu hn hl)
    rintro a ⟨ha₁, ha₂⟩
    rw [AList.lookup_eq_none.2 ha₁, AList.lookup_eq_none.2 ha₂]

/-- A copy, and a ring, each by an owner that frees the channel without stopping it. -/
def copyHistory : List DmaEvent :=
  [.call .request, .call (.prepMemcpy (some 0) 0x1000 0x2000 16 (some 64)),
    .call (.chanFree (some 0))]

def ringHistory : List DmaEvent :=
  [.call .request, .call (.prepCyclic (some 0) 0x1000 64 32 .memToDev [64, 128]),
    .call (.chanFree (some 0))]

theorem dma_handover_copy : ∃ os s, exec dmaEvent (.init fun _ => 0) copyHistory = some (os, s) ∧
    SameForOwner 0 (halDmaChanRequest (.init fun _ => 0)).2 (halDmaChanRequest s).2 := by
  refine ⟨_, _, rfl, ?_⟩
  have h₁ : exec dmaEvent (.init fun _ => 0) [] = some ([], .init fun _ => 0) := rfl
  have h₂ : exec dmaEvent (.init fun _ => 0) copyHistory = some (_, _) := rfl
  exact (dma_handover (c := 0) h₁ h₂ rfl rfl).2.2 (by decide)

/-- The ring is left behind: the next owner starts a copy as a ring. -/
theorem dma_handover_ring : ∃ os s, exec dmaEvent (.init fun _ => 0) ringHistory = some (os, s) ∧
    (halDmaChanRequest s).1.chan = some 0 ∧
    ¬ SameForOwner 0 (halDmaChanRequest (.init fun _ => 0)).2 (halDmaChanRequest s).2 := by
  refine ⟨_, _, rfl, rfl, fun h => ?_⟩
  obtain ⟨nodes, ho⟩ := (dmaInv_init fun _ => 0).request.owns
  obtain ⟨nodes', ho'⟩ := (@history_inv _ _ ringHistory _ rfl).request.owns
  have hc := h.cyclic ho ho'
  revert hc
  decide

end D1Flash
