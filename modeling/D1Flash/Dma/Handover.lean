import D1Flash.Dma.Owners

namespace D1Flash
open LinkedHeap Runs
set_option autoImplicit true

/-! What an owner sees of its channel. -/

def DmaCall.chan : DmaCall → Option ChanId
  | .request => none
  | .prepMemcpy chan .. | .prepDevice chan .. | .prepCyclic chan .. | .callbackInstall chan ..
  | .slaveConfig chan _ | .txStatus chan .. | .start chan | .stop chan | .chanFree chan
  | .descFree chan _ => chan

def DmaEvent.chan : DmaEvent → Option ChanId
  | .call k => k.chan
  | .irq c .. => some c

/-- The addresses the allocator may give to an event. -/
def DmaEvent.picks : DmaEvent → List Addr
  | .call (.prepMemcpy _ _ _ _ pick) | .call (.prepDevice _ _ _ _ _ pick) => pick.toList
  | .call (.prepCyclic _ _ _ _ _ picks) => picks
  | _ => []

structure ChanView where
  descs : Option (List (Addr × DmaLli))
  irqType : BitVec 32
  callback : Ptr
  callbackParam : Ptr
  deriving DecidableEq

def view (c : ChanId) (s : DmaSys) : ChanView :=
  { descs := s.descs c, irqType := (s.chans c).irqType, callback := (s.chans c).callback,
    callbackParam := (s.chans c).callbackParam }

/-- An event, what it gives, and what the owner sees of the channel then. -/
def ownerStep (c : ChanId) (s : DmaSys) (e : DmaEvent) : Option ((DmaOut × ChanView) × DmaSys) :=
  (dmaEvent s e).map fun r => ((r.1, view c r.2), r.2)

/-- The owner of the channel cannot tell the two systems apart: the channel looks the same at
first and after the same events, where the allocator answers the same. -/
def SameForOwner (c : ChanId) (s t : DmaSys) : Prop :=
  view c s = view c t ∧
    ∀ evs : List DmaEvent,
      (∀ e ∈ evs, e.chan = some c ∧ ∀ a ∈ e.picks, a ∉ s.heap ∧ a ∉ t.heap) →
        (exec (ownerStep c) s evs).map Prod.fst = (exec (ownerStep c) t evs).map Prod.fst

/-! What a channel keeps from its last owner. -/

/-- What descriptors take from a configuration: their `cfg` without and with each request line,
and the addresses as far as a descriptor holds them. -/
structure ConfigWords where
  mem : BitVec 32
  dstDev : BitVec 32
  srcDev : BitVec 32
  srcAddr : BitVec 32
  dstAddr : BitVec 32
  deriving DecidableEq

def DmaSlaveConfig.words (config : DmaSlaveConfig) : ConfigWords :=
  let mem := (sunxiCfgLli 0 0 0 config).cfg
  { mem, dstDev := mem ||| getDstDrq config.slaveId, srcDev := mem ||| getSrcDrq config.slaveId,
    srcAddr := config.srcAddr.setWidth 32, dstAddr := config.dstAddr.setWidth 32 }

structure Leftover where
  view : ChanView
  cyclic : Bool
  config : ConfigWords
  deriving DecidableEq

def leftover (c : ChanId) (s : DmaSys) : Leftover :=
  { view := view c s, cyclic := (s.chans c).cyclic, config := (s.chans c).cfg.words }

theorem sunxiCfgLli_congr {config config' : DmaSlaveConfig} (h : config.words = config'.words)
    (src dst len : BitVec 32) : sunxiCfgLli src dst len config =
    sunxiCfgLli src dst len config' := by
  have hm := congrArg ConfigWords.mem h
  dsimp only [DmaSlaveConfig.words, sunxiCfgLli] at hm
  rw [sunxiCfgLli, sunxiCfgLli, hm]

theorem memcpyItem_congr {config config' : DmaSlaveConfig} (h : config.words = config'.words)
    (dest src len : BitVec 32) : memcpyItem config dest src len =
    memcpyItem config' dest src len := by
  rw [memcpyItem, memcpyItem, sunxiCfgLli_congr h]

theorem or_regroup (x y a b z : BitVec 32) :
    x ||| (y ||| a ||| b ||| z) = (x ||| y) ||| (a ||| b) ||| (x ||| z) := by
  apply BitVec.eq_of_getLsbD_eq
  intro i _
  simp only [BitVec.getLsbD_or]
  cases x.getLsbD i <;> simp [Bool.or_assoc]

theorem deviceItem_congr {config config' : DmaSlaveConfig} (h : config.words = config'.words)
    (dest src len : BitVec 32) (dir : DmaTransferDirection) :
    deviceItem config dest src len dir = deviceItem config' dest src len dir := by
  have hd : (sunxiCfgLli src dest len config).cfg ||| getDstDrq config.slaveId =
      (sunxiCfgLli src dest len config').cfg ||| getDstDrq config'.slaveId :=
    congrArg ConfigWords.dstDev h
  have hs : (sunxiCfgLli src dest len config).cfg ||| getSrcDrq config.slaveId =
      (sunxiCfgLli src dest len config').cfg ||| getSrcDrq config'.slaveId :=
    congrArg ConfigWords.srcDev h
  have hm : (sunxiCfgLli src dest len config).cfg = (sunxiCfgLli src dest len config').cfg :=
    congrArg DmaLli.cfg (sunxiCfgLli_congr h src dest len)
  cases dir with
  | memToMem => rfl
  | transNone => rfl
  | memToDev =>
    dsimp only [deviceItem, DmaLli.orCfg]
    rw [or_regroup, hd, hm, ← or_regroup, sunxiCfgLli_congr h]
  | devToMem =>
    dsimp only [deviceItem, DmaLli.orCfg]
    rw [or_regroup, hs, hm, ← or_regroup, sunxiCfgLli_congr h]
  | devToDev =>
    dsimp only [deviceItem, DmaLli.orCfg]
    rw [or_regroup, hs, hd, ← or_regroup, sunxiCfgLli_congr h]

theorem cyclicItem_congr {config config' : DmaSlaveConfig} (h : config.words = config'.words)
    (bufAddr periodLen : BitVec 32) (dir : DmaTransferDirection) :
    cyclicItem config bufAddr periodLen dir = cyclicItem config' bufAddr periodLen dir := by
  have hs : config.srcAddr.setWidth 32 = config'.srcAddr.setWidth 32 :=
    congrArg ConfigWords.srcAddr h
  have hd : config.dstAddr.setWidth 32 = config'.dstAddr.setWidth 32 :=
    congrArg ConfigWords.dstAddr h
  funext i
  cases dir <;> dsimp only [cyclicItem] <;> first | rfl | rw [deviceItem_congr h]
  all_goals first | rw [hs, hd] | rw [hs] | rw [hd]

/-! Two systems in step. -/

variable {s t : DmaSys} {nodes : ChanId → List Addr} {Q : Addr → Prop}

/-- The channel is the same in both systems up to what no descriptor takes from its
configuration, and so is the memory at `Q`, where the descriptors of the channel lie. -/
structure Sim (Q : Addr → Prop) (c : ChanId) (nodes : ChanId → List Addr) (s t : DmaSys) :
    Prop where
  chan : { t.chans c with cfg := .zero } = { s.chans c with cfg := .zero }
  words : (t.chans c).cfg.words = (s.chans c).cfg.words
  mem : ∀ a, Q a → t.heap.lookup a = s.heap.lookup a
  owns : s.Owns nodes
  list : ∀ a ∈ nodes c, Q a

theorem Sim.field (hs : Sim Q c nodes s t) (f : DmaChan → β)
    (hf : ∀ chan : DmaChan, f { chan with cfg := .zero } = f chan) :
    f (t.chans c) = f (s.chans c) := by
  rw [← hf (t.chans c), ← hf (s.chans c), hs.chan]

theorem Sim.used (hs : Sim Q c nodes s t) : (t.chans c).used = (s.chans c).used :=
  hs.field DmaChan.used fun _ => rfl

theorem Sim.chanCount (hs : Sim Q c nodes s t) : (t.chans c).chanCount = (s.chans c).chanCount :=
  hs.field DmaChan.chanCount fun _ => rfl

theorem Sim.cyclic (hs : Sim Q c nodes s t) : (t.chans c).cyclic = (s.chans c).cyclic :=
  hs.field DmaChan.cyclic fun _ => rfl

theorem Sim.desc (hs : Sim Q c nodes s t) : (t.chans c).desc = (s.chans c).desc :=
  hs.field DmaChan.desc fun _ => rfl

theorem Sim.chain (hs : Sim Q c nodes s t) :
    Chain t.heap DmaLli.vlln (t.chans c).desc (nodes c) := by
  rw [hs.desc]
  exact Seg.congr (Lists.chain hs.owns c) fun a ha => hs.mem a (hs.list a ha)

theorem Sim.descs (hs : Sim Q c nodes s t) : t.descs c = s.descs c := by
  have hc := Lists.chain hs.owns c
  rw [DmaSys.descs, DmaSys.descs, hs.desc]
  exact walk_congr hc (fun a ha => hs.mem a (hs.list a ha)) hc.length_le hs.chain.length_le

theorem Sim.view (hs : Sim Q c nodes s t) : view c s = view c t := by
  unfold D1Flash.view
  rw [hs.descs, hs.field DmaChan.irqType fun _ => rfl, hs.field DmaChan.callback fun _ => rfl,
    hs.field DmaChan.callbackParam fun _ => rfl]

theorem Sim.first (hs : Sim Q c nodes s t) :
    (s.chans c).desc.bind t.heap.lookup = (s.chans c).desc.bind s.heap.lookup := by
  have hc := Lists.chain hs.owns c
  cases hn : nodes c with
  | nil =>
    rw [hn] at hc
    rw [show (s.chans c).desc = none from hc]
    rfl
  | cons a as =>
    rw [hn] at hc
    rw [hc.1, Option.bind_some, Option.bind_some]
    exact hs.mem a (hs.list a (hn ▸ List.mem_cons_self))

theorem Sim.setChan (hs : Sim Q c nodes s t) {chan chan' : DmaChan}
    (hchan : { chan' with cfg := .zero } = { chan with cfg := .zero })
    (hwords : chan'.cfg.words = chan.cfg.words) (hdesc : chan.desc = (s.chans c).desc) :
    Sim Q c nodes (s.setChan c chan) (t.setChan c chan') := by
  have hk := Keeps.setChan s c hdesc
  refine ⟨?_, ?_, hs.mem, hs.owns.congr hk.heap hk.desc, hs.list⟩
  · rw [DmaSys.setChan_self, DmaSys.setChan_self]
    exact hchan
  · rw [DmaSys.setChan_self, DmaSys.setChan_self]
    exact hwords

theorem Sim.halWritel (hs : Sim Q c nodes s t) (v v' : BitVec 32) (off off' : Nat) :
    Sim Q c nodes (s.halWritel v off) (t.halWritel v' off') :=
  ⟨hs.chan, hs.words, hs.mem, hs.owns, hs.list⟩

theorem Sim.freeDescs (hs : Sim Q c nodes s t) :
    ∃ s' t', s.freeDescs c = some s' ∧ t.freeDescs c = some t' ∧
      Sim Q c (Function.update nodes c []) s' t' ∧ s'.chans c =
      { s.chans c with desc := none } := by
  obtain ⟨s', hs', ho', hch, -, hl⟩ := hs.owns.freeDescs c
  obtain ⟨heap, hr, hl'⟩ := release_chain hs.chain hs.chain.length_le
  refine ⟨s', { t with heap }.setChan c { t.chans c with desc := none }, hs', ?_, ?_, ?_⟩
  · rw [DmaSys.freeDescs, hr]
  · refine ⟨?_, ?_, ?_, ho', ?_⟩
    · rw [hch, Function.update_self, DmaSys.setChan_self]
      exact congrArg (fun chan => { chan with desc := none }) hs.chan
    · rw [hch, Function.update_self, DmaSys.setChan_self]
      exact hs.words
    · intro a ha
      rw [hl a, DmaSys.setChan_heap, hl' a, hs.mem a ha]
    · intro a ha
      rw [Function.update_self] at ha
      cases ha
  · rw [hch, Function.update_self]

theorem Sim.malloc (hs : Sim Q c nodes s t) (pick : Ptr) (hq : ∀ a, pick = some a → Q a) :
    malloc t.heap pick = malloc s.heap pick := by
  cases pick with
  | none => rfl
  | some a =>
    have hmem : a ∈ t.heap ↔ a ∈ s.heap := by
      rw [mem_iff_lookup, mem_iff_lookup, hs.mem a (hq a rfl)]
    simp only [LinkedHeap.malloc, Option.filter_some, hmem]

theorem malloc_pick {h : Heap DmaLli} (hm : malloc h pick = some a) : pick = some a :=
  (Option.filter_eq_some_iff.1 hm).1

theorem Sim.lliList_head (hs : Sim Q c nodes s t) (ha : a ∉ s.heap) (hq : Q a) (item : DmaLli) :
    ∃ s' t', s.lliList none a item c = some s' ∧ t.lliList none a item c = some t' ∧
      Sim Q c (Function.update nodes c [a]) s' t' := by
  obtain ⟨s', hs', ho', hch, -, hh⟩ := hs.owns.lliList_head ha item c
  refine ⟨s', _, hs', rfl, ?_, ?_, ?_, ho', ?_⟩
  · rw [hch, Function.update_self, DmaSys.setChan_self]
    exact congrArg (fun chan => { chan with desc := some a }) hs.chan
  · rw [hch, Function.update_self, DmaSys.setChan_self]
    exact hs.words
  · intro b hb
    rw [hh]
    by_cases hba : b = a
    · rw [hba, AList.lookup_insert]
      exact AList.lookup_insert _
    · rw [AList.lookup_insert_ne hba, ← hs.mem b hb]
      exact AList.lookup_insert_ne hba
  · intro b hb
    rw [Function.update_self] at hb
    exact List.mem_singleton.1 hb ▸ hq

theorem Sim.lliList_append (hs : Sim Q c nodes s t) (ha : a ∉ s.heap) (hq : Q a) (item : DmaLli)
    (hprev : prev = (nodes c).getLast?) :
    ∃ s' t', s.lliList prev a item c = some s' ∧ t.lliList prev a item c = some t' ∧
      Sim Q c (Function.update nodes c (nodes c ++ [a])) s' t' := by
  cases prev with
  | none =>
    rw [List.getLast?_eq_none_iff.1 hprev.symm]
    exact hs.lliList_head ha hq item
  | some p =>
    obtain ⟨bs, hc⟩ := List.getLast?_eq_some_iff.1 hprev.symm
    obtain ⟨s', l, hs', ho', hch, -, hl, hh⟩ := hs.owns.lliList_tail ha item hc
    have hp : p ∈ nodes c := List.mem_of_getLast? hprev.symm
    have hl' : t.heap.lookup p = some l := (hs.mem p (hs.list p hp)).trans hl
    have ht' : t.lliList (some p) a item c = some { t with
        heap := (t.heap.insert p { l with pLln := vaToPa (some a), vlln := some a }).insert a
          { item with pLln := linkEnd, vlln := none } } := by
      rw [DmaSys.lliList, hl']
    refine ⟨s', _, hs', ht', ?_, ?_, ?_, ho', ?_⟩
    · rw [hch]
      exact hs.chan
    · rw [hch]
      exact hs.words
    · intro b hb
      rw [hh]
      by_cases hba : b = a
      · rw [hba, AList.lookup_insert, AList.lookup_insert]
      · rw [AList.lookup_insert_ne hba, AList.lookup_insert_ne hba]
        by_cases hbp : b = p
        · rw [hbp, AList.lookup_insert, AList.lookup_insert]
        · rw [AList.lookup_insert_ne hbp, AList.lookup_insert_ne hbp, hs.mem b hb]
    · intro b hb
      rw [Function.update_self] at hb
      cases List.mem_append.1 hb with
      | inl hb => exact hs.list b hb
      | inr hb => exact List.mem_singleton.1 hb ▸ hq

theorem Sim.closeRing (hs : Sim Q c nodes s t) (hp : p ∈ nodes c) :
    ∃ s' t', closeRing c (some p) s = some s' ∧ closeRing c (some p) t = some t' ∧
      Sim Q c nodes s' t' := by
  obtain ⟨s', hs', ho', hch, -⟩ := hs.owns.closeRing hp
  obtain ⟨l, hl⟩ := mem_iff_lookup.1 (Seg.mem (Lists.chain hs.owns c) hp)
  have hl' : t.heap.lookup p = some l := (hs.mem p (hs.list p hp)).trans hl
  have hs'' := hs'
  rw [D1Flash.closeRing, hl] at hs''
  cases hs''
  have ht' : D1Flash.closeRing c (some p) t = some
      { t with heap := t.heap.insert p { l with pLln := vaToPa (t.chans c).desc } } := by
    rw [D1Flash.closeRing, hl']
  refine ⟨_, _, hs', ht', hs.chan, hs.words, ?_, ho', hs.list⟩
  intro b hb
  by_cases hbp : b = p
  · dsimp only
    rw [hbp, AList.lookup_insert, AList.lookup_insert, hs.desc]
  · exact (AList.lookup_insert_ne hbp).trans
      ((hs.mem b hb).trans (AList.lookup_insert_ne hbp).symm)

/-! The calls in step. -/

def Alike (Q : Addr → Prop) (c : ChanId) (s t : DmaSys) : Prop := ∃ nodes, Sim Q c nodes s t

theorem Sim.alike (hs : Sim Q c nodes s t) : Alike Q c s t := ⟨nodes, hs⟩

theorem Sim.cyclicLoop (hs : Sim Q c nodes s t) (item : Nat → DmaLli) (turns i : Nat)
    (picks : List Addr) (hq : ∀ a ∈ picks, Q a) (hprev : prev = (nodes c).getLast?) :
    ∃ ok prev' s' t' nodes', cyclicLoop c item turns i prev picks s = some (ok, prev', s') ∧
      cyclicLoop c item turns i prev picks t = some (ok, prev', t') ∧ Sim Q c nodes' s' t' ∧
      prev' = (nodes' c).getLast? := by
  induction turns generalizing i prev picks s t nodes with
  | zero => exact ⟨true, prev, s, t, nodes, rfl, rfl, hs, hprev⟩
  | succ turns ih =>
    have hhead : ∀ a, picks.head? = some a → Q a := fun a ha => hq a (List.mem_of_head? ha)
    rw [D1Flash.cyclicLoop, D1Flash.cyclicLoop, hs.malloc picks.head? hhead]
    cases hm : LinkedHeap.malloc s.heap picks.head? with
    | none => exact ⟨false, prev, s, t, nodes, rfl, rfl, hs, hprev⟩
    | some a =>
      obtain ⟨s', t', hs', ht', hst⟩ :=
        hs.lliList_append (malloc_fresh hm) (hhead a (malloc_pick hm)) (item i) hprev
      have hlast : some a = (Function.update nodes c (nodes c ++ [a]) c).getLast? := by
        rw [Function.update_self, List.getLast?_append_of_ne_nil _ (by simp)]
        rfl
      dsimp only
      rw [hs', ht']
      exact ih hst (i + 1) picks.tail (fun b hb => hq b (List.mem_of_mem_tail hb)) hlast

theorem Sim.prepOne (hs : Sim Q c nodes s t) (dest src : BitVec 32)
    {item : DmaSlaveConfig → DmaLli}
    (hitem : ∀ config config', config.words = config'.words → item config = item config')
    (hq : ∀ a, pick = some a → Q a) :
    Lockstep (Alike Q c) (prepOne (some c) dest src item pick s)
      (prepOne (some c) dest src item pick t) := by
  unfold D1Flash.prepOne
  dsimp only
  split
  · exact .some _ hs.alike
  · rw [hs.malloc pick hq, hitem _ _ hs.words]
    cases hm : LinkedHeap.malloc s.heap pick with
    | none => exact .some _ hs.alike
    | some a =>
      obtain ⟨s', t', hs', ht', hst⟩ := hs.lliList_head (malloc_fresh hm)
        (hq a (malloc_pick hm)) (item (s.chans c).cfg)
      dsimp only
      rw [hs', ht']
      exact .some _ hst.alike

theorem Sim.prepCyclic (hs : Sim Q c nodes s t) (bufAddr bufLen periodLen : BitVec 32)
    (dir : DmaTransferDirection) (hq : ∀ a ∈ picks, Q a) :
    Lockstep (Alike Q c) (halDmaPrepCyclic (some c) bufAddr bufLen periodLen dir picks s)
      (halDmaPrepCyclic (some c) bufAddr bufLen periodLen dir picks t) := by
  unfold halDmaPrepCyclic
  split
  · exact .inl ⟨rfl, rfl⟩
  · dsimp only
    split
    · exact .some _ hs.alike
    · obtain ⟨s₁, t₁, hs₁, ht₁, h₁, -⟩ := hs.freeDescs
      have hnil : none = (Function.update nodes c [] c).getLast? := by
        rw [Function.update_self]
        rfl
      obtain ⟨ok, prev, s₂, t₂, nodes', hs₂, ht₂, h₂, hprev⟩ := h₁.cyclicLoop
        (cyclicItem (s₁.chans c).cfg bufAddr periodLen dir) (bufLen / periodLen).toNat
        0 picks hq hnil
      rw [hs₁, ht₁]
      dsimp only
      rw [cyclicItem_congr h₁.words, hs₂, ht₂]
      cases ok with
      | false => exact .some _ h₂.alike
      | true =>
        dsimp only
        cases prev with
        | none => exact .inl ⟨rfl, rfl⟩
        | some p =>
          obtain ⟨s₃, t₃, hs₃, ht₃, h₃⟩ := h₂.closeRing (List.mem_of_getLast? hprev.symm)
          rw [hs₃, ht₃]
          refine .some _ (Sim.alike (h₃.setChan ?_ h₃.words rfl))
          exact congrArg (fun chan => { chan with cyclic := true }) h₃.chan

theorem Sim.freeIll (hs : Sim Q c nodes s t) :
    ∃ s' t' nodes', sunxiDmaFreeIll c s = some s' ∧ sunxiDmaFreeIll c t = some t' ∧
      Sim Q c nodes' s' t' := by
  obtain ⟨s₁, t₁, hs₁, ht₁, h₁, -⟩ := hs.freeDescs
  rw [sunxiDmaFreeIll, sunxiDmaFreeIll, hs₁, ht₁]
  refine ⟨_, _, _, rfl, rfl, h₁.setChan ?_ h₁.words rfl⟩
  exact congrArg (fun chan => { chan with callback := none, callbackParam := none }) h₁.chan

theorem Sim.txStatus (hs : Sim Q c nodes s t) (leftSize : Bool) (pos cnt : BitVec 32) :
    Lockstep (Alike Q c) (halDmaTxStatus (some c) leftSize pos cnt s)
      (halDmaTxStatus (some c) leftSize pos cnt t) := by
  unfold halDmaTxStatus
  cases leftSize with
  | false => exact .some _ hs.alike
  | true =>
    dsimp only
    rw [hs.cyclic, hs.descs, hs.field DmaChan.periodsPos fun _ => rfl]
    split
    · obtain ⟨xs, hxs, -⟩ := hs.owns.descs c
      rw [hxs]
      dsimp only
      split
      · exact .some _ hs.alike
      · split <;> exact .some _ hs.alike
    · split <;> exact .some _ hs.alike

theorem Sim.armChan (hs : Sim Q c nodes s t) : Sim Q c nodes (armChan c s) (armChan c t) := by
  unfold D1Flash.armChan
  rw [hs.cyclic]
  generalize (if (s.chans c).cyclic then irqPkg else irqQueue) = irqType
  have hset : Sim Q c nodes (s.setChan c { s.chans c with irqType })
      (t.setChan c { t.chans c with irqType }) :=
    hs.setChan (congrArg (fun chan => { chan with irqType }) hs.chan) hs.words rfl
  exact (hset.halWritel _ _ _ _).halWritel _ _ _ _

theorem Sim.start (hs : Sim Q c nodes s t) :
    Lockstep (Alike Q c) (halDmaStart (some c) s) (halDmaStart (some c) t) := by
  have harm := hs.armChan
  obtain ⟨xs, hxs, -⟩ := harm.owns.descs c
  unfold halDmaStart
  dsimp only
  rw [harm.descs, hxs]
  exact .some _ ((harm.halWritel _ _ _ _).halWritel _ _ _ _).alike

theorem Sim.stop (hs : Sim Q c nodes s t) :
    Alike Q c (halDmaStop (some c) s).2 (halDmaStop (some c) t).2 := by
  have h₁ := ((hs.halWritel chanPause chanPause (dmaPause (s.chans c).chanCount)
    (dmaPause (t.chans c).chanCount)).halWritel chanStop chanStop (dmaEnable (s.chans c).chanCount)
    (dmaEnable (t.chans c).chanCount)).halWritel chanResume chanResume
    (dmaPause (s.chans c).chanCount) (dmaPause (t.chans c).chanCount)
  refine ⟨nodes, h₁.setChan ?_ h₁.words rfl⟩
  exact congrArg (fun chan => { chan with cyclic := false }) h₁.chan

theorem Sim.chanFree (hs : Sim Q c nodes s t) :
    Lockstep (Alike Q c) (halDmaChanFree (some c) s) (halDmaChanFree (some c) t) := by
  unfold halDmaChanFree
  dsimp only
  rw [hs.used]
  split
  · exact .some _ hs.alike
  · obtain ⟨s₁, t₁, nodes', hs₁, ht₁, h₁⟩ := (hs.halWritel _ _ _ _).freeIll
    rw [hs₁, ht₁]
    refine .some _ (Sim.alike (h₁.setChan ?_ h₁.words rfl))
    exact congrArg (fun chan => { chan with used := false }) h₁.chan

theorem Sim.descFree (hs : Sim Q c nodes s t) (nest : Int) :
    Lockstep (Alike Q c) (halDmaChanDescFree (some c) nest s)
      (halDmaChanDescFree (some c) nest t) := by
  unfold halDmaChanDescFree
  split
  · obtain ⟨s₁, t₁, nodes', hs₁, ht₁, h₁⟩ := hs.freeIll
    dsimp only
    rw [hs₁, ht₁]
    exact .some _ h₁.alike
  · exact .some _ hs.alike

theorem Sim.callbackInstall (hs : Sim Q c nodes s t) (callback callbackParam : Ptr) :
    Lockstep (Alike Q c) (some (halDmaCallbackInstall (some c) callback callbackParam s))
      (some (halDmaCallbackInstall (some c) callback callbackParam t)) := by
  unfold halDmaCallbackInstall
  dsimp only
  split
  · exact .some _ hs.alike
  · split
    · exact .some _ hs.alike
    · refine .some _ (Sim.alike (hs.setChan ?_ hs.words rfl))
      exact congrArg (fun chan => { chan with callback, callbackParam }) hs.chan

theorem Sim.slaveConfig (hs : Sim Q c nodes s t) (config : Option DmaSlaveConfig) :
    Lockstep (Alike Q c) (some (halDmaSlaveConfig (some c) config s))
      (some (halDmaSlaveConfig (some c) config t)) := by
  unfold halDmaSlaveConfig
  cases config with
  | none => exact .some _ hs.alike
  | some config => exact .some _ (Sim.alike (hs.setChan hs.chan rfl rfl))

theorem Sim.irqTurn (hs : Sim Q c nodes s t) (statusL statusH : BitVec 32) :
    Lockstep (Alike Q c) (irqTurn c statusL statusH s) (irqTurn c statusL statusH t) := by
  have hirq := hs.field DmaChan.irqType fun _ => rfl
  have hcb := hs.field DmaChan.callback fun _ => rfl
  have hparam := hs.field DmaChan.callbackParam fun _ => rfl
  have hpos := hs.field DmaChan.periodsPos fun _ => rfl
  have hlen := hs.field DmaChan.bufLen fun _ => rfl
  unfold D1Flash.irqTurn
  dsimp only
  rw [hs.used, hs.chanCount, hirq, hcb, hparam, hs.cyclic, hs.desc, hpos, hlen]
  split
  · exact .some _ hs.alike
  · split
    · exact .some _ hs.alike
    · split
      · rw [hs.first]
        split
        · exact .inl ⟨rfl, rfl⟩
        · exact .some _ (Sim.alike (hs.setChan rfl hs.words rfl))
      · exact .some _ hs.alike

theorem Sim.dmaCall (hs : Sim Q c nodes s t) (call : DmaCall) (hc : call.chan = some c)
    (hq : ∀ a ∈ (DmaEvent.call call).picks, Q a) :
    Lockstep (Alike Q c) (dmaCall s call) (dmaCall t call) := by
  cases call with
  | request => cases hc
  | prepMemcpy chan dest src len pick =>
    cases hc
    exact hs.prepOne dest src (fun _ _ h => memcpyItem_congr h dest src len)
      fun a ha => hq a (Option.mem_toList.2 ha)
  | prepDevice chan dest src len dir pick =>
    cases hc
    exact hs.prepOne dest src (fun _ _ h => deviceItem_congr h dest src len dir)
      fun a ha => hq a (Option.mem_toList.2 ha)
  | prepCyclic chan bufAddr bufLen periodLen dir picks =>
    cases hc
    exact hs.prepCyclic bufAddr bufLen periodLen dir hq
  | callbackInstall chan callback callbackParam =>
    cases hc
    exact hs.callbackInstall callback callbackParam
  | slaveConfig chan config =>
    cases hc
    exact hs.slaveConfig config
  | txStatus chan leftSize pos cnt =>
    cases hc
    exact hs.txStatus leftSize pos cnt
  | start chan =>
    cases hc
    exact hs.start
  | stop chan =>
    cases hc
    exact .some _ hs.stop
  | chanFree chan =>
    cases hc
    exact hs.chanFree
  | descFree chan nest =>
    cases hc
    exact hs.descFree nest

theorem Sim.dmaEvent (hs : Sim Q c nodes s t) (e : DmaEvent) (hc : e.chan = some c)
    (hq : ∀ a ∈ e.picks, Q a) : Lockstep (Alike Q c) (dmaEvent s e) (dmaEvent t e) := by
  cases e with
  | call call => exact Lockstep.map DmaOut.ret (hs.dmaCall call hc hq)
  | irq chan statusL statusH =>
    cases hc
    exact Lockstep.map DmaOut.callback (hs.irqTurn statusL statusH)

/-- Systems that are alike stay so, and look the same to the owner. -/
theorem Alike.ownerStep (hs : Alike Q c s t) (e : DmaEvent)
    (he : e.chan = some c ∧ ∀ a ∈ e.picks, Q a) :
    Lockstep (Alike Q c) (ownerStep c s e) (ownerStep c t e) := by
  obtain ⟨nodes, hs⟩ := hs
  unfold D1Flash.ownerStep
  cases hs.dmaEvent e he.1 he.2 with
  | inl h =>
    rw [h.1, h.2]
    exact .inl ⟨rfl, rfl⟩
  | inr h =>
    obtain ⟨o, s', t', hs', ht', hst⟩ := h
    rw [hs', ht', Option.map_some, Option.map_some, ← hst.choose_spec.view]
    exact .some _ hst

end D1Flash
