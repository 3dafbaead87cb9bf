import D1Flash.Dma.Descriptors

namespace D1Flash
open LinkedHeap Runs
set_option autoImplicit true

variable {s t : DmaSys} {own : ChanId → Bool}

/-- The owned channels, by the requests and the frees that succeeded. -/
def ownNext (own : ChanId → Bool) : DmaEvent → DmaOut → ChanId → Bool
  | .call .request, .ret r =>
    match r.chan with
    | some c => Function.update own c true
    | none => own
  | .call (.chanFree (some c)), .ret r =>
    if r.ret = halDmaStatusOk then Function.update own c false else own
  | _, _ => own

def ownedAfter (trace : List (DmaEvent × DmaOut)) : ChanId → Bool :=
  trace.foldl (fun own p => ownNext own p.1 p.2) fun _ => false

/-- What no call changes of a channel: no period is ever counted against a buffer length, and a
configuration holds the encodings of its bursts. -/
structure DmaChan.Tame (chan : DmaChan) : Prop where
  periodsPos : chan.periodsPos = 0
  bufLen : chan.bufLen = 0
  srcMaxburst : chan.cfg.srcMaxburst < 4
  dstMaxburst : chan.cfg.dstMaxburst < 4

/-- The states a history can reach. -/
structure DmaInv (own : ChanId → Bool) (s : DmaSys) : Prop where
  owns : ∃ nodes, s.Owns nodes
  tame : ∀ j, (s.chans j).Tame
  used : ∀ j, (s.chans j).used = own j

theorem dmaInv_init (regs : Nat → BitVec 32) : DmaInv (fun _ => false) (.init regs) := by
  obtain ⟨t, nodes, he, ha⟩ := accounted_init regs
  cases he
  have hz : (0 : BitVec 32) < 4 := by decide
  exact ⟨⟨nodes, ha.owns⟩, fun _ => ⟨rfl, rfl, hz, hz⟩, fun _ => rfl⟩

theorem DmaInv.halWritel (hi : DmaInv own s) (v : BitVec 32) (off : Nat) :
    DmaInv own (s.halWritel v off) :=
  ⟨hi.owns, hi.tame, hi.used⟩

theorem DmaInv.setChan (hi : DmaInv own s) (c : ChanId) (chan : DmaChan)
    (hd : chan.desc = (s.chans c).desc) (ht : chan.Tame) :
    DmaInv (Function.update own c chan.used) (s.setChan c chan) := by
  obtain ⟨nodes, ho⟩ := hi.owns
  have hk := Keeps.setChan s c hd
  refine ⟨⟨nodes, ho.congr hk.heap hk.desc⟩, fun j => ?_, fun j => ?_⟩
  · by_cases hj : j = c
    · rw [hj, DmaSys.setChan_self]
      exact ht
    · rw [DmaSys.setChan_of_ne s chan hj]
      exact hi.tame j
  · by_cases hj : j = c
    · rw [hj, DmaSys.setChan_self, Function.update_self]
    · rw [DmaSys.setChan_of_ne s chan hj, Function.update_of_ne hj]
      exact hi.used j

theorem DmaInv.setChan_used (hi : DmaInv own s) (c : ChanId) (chan : DmaChan)
    (hd : chan.desc = (s.chans c).desc) (ht : chan.Tame) (hu : chan.used = (s.chans c).used) :
    DmaInv own (s.setChan c chan) := by
  have h := hi.setChan c chan hd ht
  rw [hu, hi.used c, Function.update_eq_self] at h
  exact h

theorem DmaInv.descOnly (hi : DmaInv own s) (ho : t.Owns nodes) (hd : DescOnly s t) :
    DmaInv own t := by
  refine ⟨⟨nodes, ho⟩, fun j => ?_, fun j => ?_⟩
  · have h := hi.tame j
    exact ⟨(congrArg DmaChan.periodsPos (hd j)).trans h.periodsPos,
      (congrArg DmaChan.bufLen (hd j)).trans h.bufLen,
      (congrArg (fun chan => chan.cfg.srcMaxburst) (hd j)).symm ▸ h.srcMaxburst,
      (congrArg (fun chan => chan.cfg.dstMaxburst) (hd j)).symm ▸ h.dstMaxburst⟩
  · exact (congrArg DmaChan.used (hd j)).trans (hi.used j)

theorem DmaInv.freeDescs (hi : DmaInv own s) (h : s.freeDescs c = some t) : DmaInv own t := by
  obtain ⟨nodes, ho⟩ := hi.owns
  obtain ⟨u, hu, hou, hch, -, -⟩ := ho.freeDescs c
  rw [hu] at h
  cases h
  exact hi.descOnly hou (.of_update hch)

theorem DmaInv.freeIll (hi : DmaInv own s) (h : sunxiDmaFreeIll c s = some t) : DmaInv own t := by
  unfold sunxiDmaFreeIll at h
  split at h
  · cases h
  · next u hu =>
    cases h
    have hiu := hi.freeDescs hu
    have ht := hiu.tame c
    exact hiu.setChan_used c _ rfl ⟨ht.periodsPos, ht.bufLen, ht.srcMaxburst, ht.dstMaxburst⟩ rfl

theorem convertBurst_lt (maxburst : BitVec 32) : convertBurst maxburst < 4 := by
  unfold convertBurst
  split
  · decide
  · split
    · decide
    · split
      · decide
      · split <;> decide

/-! What each call does to the owners. -/

theorem DmaInv.request (hi : DmaInv own s) :
    DmaInv (ownNext own (.call .request) (.ret (halDmaChanRequest s).1))
    (halDmaChanRequest s).2 := by
  unfold halDmaChanRequest
  split
  · next i _ =>
    have ht := hi.tame i
    exact hi.setChan i { s.chans i with used := true, chanCount := i } rfl
      ⟨ht.periodsPos, ht.bufLen, ht.srcMaxburst, ht.dstMaxburst⟩
  · exact hi

theorem DmaInv.prepOne (hi : DmaInv own s) (item : DmaSlaveConfig → DmaLli)
    (h : prepOne chan dest src item pick s = some (r, t)) :
    DmaInv own t := by
  unfold D1Flash.prepOne at h
  cases chan with
  | none =>
    cases h
    exact hi
  | some c =>
    dsimp only at h
    split at h
    · cases h
      exact hi
    · cases hm : malloc s.heap pick with
      | none =>
        rw [hm] at h
        cases h
        exact hi
      | some a =>
        obtain ⟨nodes, ho⟩ := hi.owns
        obtain ⟨u, hu, hou, hch, -, -⟩ := ho.lliList_head (malloc_fresh hm) (item (s.chans c).cfg) c
        rw [hm] at h
        dsimp only at h
        rw [hu] at h
        cases h
        exact hi.descOnly hou (.of_update hch)

theorem DmaInv.prepCyclic (hi : DmaInv own s)
    (h : halDmaPrepCyclic chan bufAddr bufLen periodLen dir picks s = some (r, t)) :
    DmaInv own t := by
  unfold halDmaPrepCyclic at h
  split at h
  · cases h
  · cases chan with
    | none => cases h
    | some c =>
      dsimp only at h
      split at h
      · cases h
        exact hi
      · obtain ⟨nodes, ho⟩ := hi.owns
        obtain ⟨u, hu, hou, hch, -, -⟩ := ho.freeDescs c
        have hiu := hi.freeDescs hu
        have hnil : none = (Function.update nodes c [] c).getLast? := by
          rw [Function.update_self]
          rfl
        obtain ⟨ok, prev, v, as, hv, hov, hdv, -, hprev, -⟩ := hou.cyclicLoop c
          (cyclicItem (u.chans c).cfg bufAddr periodLen dir) (bufLen / periodLen).toNat 0 picks hnil
        have hiv := hiu.descOnly hov hdv
        rw [hu] at h
        dsimp only at h
        rw [hv] at h
        cases ok with
        | false =>
          cases h
          exact hiv
        | true =>
          dsimp only at h
          cases prev with
          | none => cases h
          | some p =>
            have hp : p ∈ Function.update (Function.update nodes c []) c
                (Function.update nodes c [] c ++ as) c := by
              rw [Function.update_self]
              exact List.mem_of_getLast? hprev.symm
            obtain ⟨w, hw, how, hchw, -⟩ := hov.closeRing hp
            rw [hw] at h
            cases h
            have hiw := hiv.descOnly how fun j => by rw [hchw]
            have ht := hiw.tame c
            exact hiw.setChan_used c _ rfl
              ⟨ht.periodsPos, ht.bufLen, ht.srcMaxburst, ht.dstMaxburst⟩ rfl

theorem DmaInv.callbackInstall (hi : DmaInv own s) (chan : Option ChanId)
    (callback callbackParam : Ptr) :
    DmaInv own (halDmaCallbackInstall chan callback callbackParam s).2 := by
  unfold halDmaCallbackInstall
  cases chan with
  | none => exact hi
  | some c =>
    dsimp only
    split
    · exact hi
    · split
      · exact hi
      · have ht := hi.tame c
        exact hi.setChan_used c _ rfl ⟨ht.periodsPos, ht.bufLen, ht.srcMaxburst, ht.dstMaxburst⟩ rfl

theorem DmaInv.slaveConfig (hi : DmaInv own s) (chan : Option ChanId)
    (config : Option DmaSlaveConfig) : DmaInv own (halDmaSlaveConfig chan config s).2 := by
  unfold halDmaSlaveConfig
  split
  · next config c =>
    have ht := hi.tame c
    exact hi.setChan_used c _ rfl
      ⟨ht.periodsPos, ht.bufLen, convertBurst_lt _, convertBurst_lt _⟩ rfl
  · exact hi

theorem DmaInv.start (hi : DmaInv own s) (h : halDmaStart chan s = some (r, t)) : DmaInv own t := by
  unfold halDmaStart at h
  cases chan with
  | none =>
    cases h
    exact hi
  | some c =>
    have ht := hi.tame c
    have hset {irqType : BitVec 32} : DmaInv own (s.setChan c { s.chans c with irqType }) :=
      hi.setChan_used c _ rfl ⟨ht.periodsPos, ht.bufLen, ht.srcMaxburst, ht.dstMaxburst⟩ rfl
    have harm : DmaInv own (armChan c s) := (hset.halWritel _ _).halWritel _ _
    dsimp only at h
    split at h
    · cases h
    · cases h
      exact (harm.halWritel _ _).halWritel _ _

theorem DmaInv.stop (hi : DmaInv own s) (chan : Option ChanId) :
    DmaInv own (halDmaStop chan s).2 := by
  cases chan with
  | none => exact hi
  | some c =>
    have ht := hi.tame c
    have hw := ((hi.halWritel chanPause (dmaPause (s.chans c).chanCount)).halWritel
      chanStop (dmaEnable (s.chans c).chanCount)).halWritel chanResume
      (dmaPause (s.chans c).chanCount)
    exact hw.setChan_used c _ rfl ⟨ht.periodsPos, ht.bufLen, ht.srcMaxburst, ht.dstMaxburst⟩ rfl

theorem DmaInv.chanFree (hi : DmaInv own s) (h : halDmaChanFree chan s = some (r, t)) :
    DmaInv (ownNext own (.call (.chanFree chan)) (.ret r)) t := by
  unfold halDmaChanFree at h
  cases chan with
  | none =>
    cases h
    exact hi
  | some c =>
    dsimp only at h
    split at h
    · cases h
      exact hi
    · split at h
      · cases h
      · next u hu =>
        cases h
        have hiu := (hi.halWritel _ _).freeIll hu
        have ht := hiu.tame c
        exact hiu.setChan c { u.chans c with used := false } rfl
          ⟨ht.periodsPos, ht.bufLen, ht.srcMaxburst, ht.dstMaxburst⟩

theorem DmaInv.descFree (hi : DmaInv own s) (h : halDmaChanDescFree chan nest s = some (r, t)) :
    DmaInv own t := by
  unfold halDmaChanDescFree at h
  split at h
  · cases chan with
    | none =>
      cases h
      exact hi
    | some c =>
      obtain ⟨u, hu, he⟩ := Option.map_eq_some_iff.1 h
      cases he
      exact hi.freeIll hu
  · cases h
    exact hi

/-- The count of periods goes back to 0 at once, the buffer length being 0. -/
theorem DmaInv.irqTurn (hi : DmaInv own s) (h : irqTurn c statusL statusH s = some (r, t)) :
    DmaInv own t := by
  unfold D1Flash.irqTurn at h
  dsimp only at h
  split at h
  · cases h
    exact hi
  · split at h
    · cases h
      exact hi
    · split at h
      · split at h
        · cases h
        · next l hl =>
          cases h
          have ht := hi.tame c
          refine hi.setChan_used c _ rfl ⟨?_, ht.bufLen, ht.srcMaxburst, ht.dstMaxburst⟩ rfl
          dsimp only
          rw [ht.bufLen, if_pos (BitVec.le_def.2 (Nat.zero_le _))]
      · cases h
        exact hi

theorem dmaEvent_inv (e : DmaEvent) (hi : DmaInv own s) (h : dmaEvent s e = some (o, t)) :
    DmaInv (ownNext own e o) t := by
  cases e with
  | irq c statusL statusH =>
    obtain ⟨r, hr, he⟩ := Option.map_eq_some_iff.1 h
    cases he
    exact hi.irqTurn hr
  | call call =>
    obtain ⟨r, hr, he⟩ := Option.map_eq_some_iff.1 h
    cases he
    cases call with
    | request =>
      cases hr
      exact hi.request
    | prepMemcpy chan dest src len pick =>
      exact hi.prepOne (fun config => memcpyItem config dest src len) hr
    | prepDevice chan dest src len dir pick =>
      exact hi.prepOne (fun config => deviceItem config dest src len dir) hr
    | prepCyclic => exact hi.prepCyclic hr
    | callbackInstall chan callback callbackParam =>
      cases hr
      exact hi.callbackInstall chan callback callbackParam
    | slaveConfig chan config =>
      cases hr
      exact hi.slaveConfig chan config
    | txStatus chan leftSize pos cnt =>
      obtain ⟨nodes, ho⟩ := hi.owns
      obtain ⟨r', hr'⟩ := txStatus_keeps ho chan leftSize pos cnt
      rw [dmaCall, hr'] at hr
      cases hr
      exact hi
    | start => exact hi.start hr
    | stop chan =>
      cases hr
      exact hi.stop chan
    | chanFree => exact hi.chanFree hr
    | descFree => exact hi.descFree hr

theorem exec_inv (hi : DmaInv own s) (h : exec dmaEvent s evs = some (os, t)) :
    DmaInv ((evs.zip os).foldl (fun own p => ownNext own p.1 p.2) own) t :=
  exec_observed (R := fun s own => DmaInv own s) (fun _ _ e _ _ hi he => dmaEvent_inv e hi he) hi h

theorem history_inv (h : exec dmaEvent (.init regs) evs = some (os, s)) :
    DmaInv (ownedAfter (evs.zip os)) s :=
  exec_inv (dmaInv_init regs) h

theorem DmaInv.request_free (hi : DmaInv own s) (hr : (halDmaChanRequest s).1.chan = some c) :
    own c = false := by
  unfold halDmaChanRequest at hr
  split at hr
  · next i hf =>
    cases hr
    have hused := List.find?_some hf
    rw [hi.used c, Bool.not_eq_true'] at hused
    exact hused
  · cases hr

end D1Flash
