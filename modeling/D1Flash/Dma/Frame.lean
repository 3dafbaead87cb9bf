import D1Flash.Dma.Handover

namespace D1Flash
open LinkedHeap Runs
set_option autoImplicit true

variable {s t u : DmaSys} {nodes : ChanId → List Addr}

/-- The nodes of a channel's list are in memory as they were, and so is the channel. -/
structure Untouched (c : ChanId) (nodes : ChanId → List Addr) (s t : DmaSys) : Prop where
  mem : ∀ a ∈ nodes c, t.heap.lookup a = s.heap.lookup a
  chan : t.chans c = s.chans c

theorem Untouched.refl (s : DmaSys) : Untouched c nodes s s := ⟨fun _ _ => rfl, rfl⟩

theorem Untouched.trans (h : Untouched c nodes s t) (h' : Untouched c nodes t u) :
    Untouched c nodes s u :=
  ⟨fun a ha => (h'.mem a ha).trans (h.mem a ha), h'.chan.trans h.chan⟩

theorem Untouched.halWritel (h : Untouched c nodes s t) (v : BitVec 32) (off : Nat) :
    Untouched c nodes s (t.halWritel v off) :=
  ⟨h.mem, h.chan⟩

theorem Untouched.setChan (h : Untouched c nodes s t) (hj : c ≠ j) (chan : DmaChan) :
    Untouched c nodes s (t.setChan j chan) :=
  ⟨h.mem, (DmaSys.setChan_of_ne t chan hj).trans h.chan⟩

/-- The nodes of a channel's list are in memory as they were, and it runs the list as it did. -/
structure ListKept (c : ChanId) (nodes : ChanId → List Addr) (s t : DmaSys) : Prop where
  mem : ∀ a ∈ nodes c, t.heap.lookup a = s.heap.lookup a
  desc : (t.chans c).desc = (s.chans c).desc
  cyclic : (t.chans c).cyclic = (s.chans c).cyclic
  held : (s.chans c).used = true →
    (t.chans c).used = true ∧ (t.chans c).chanCount = (s.chans c).chanCount

theorem Untouched.listKept (h : Untouched c nodes s t) : ListKept c nodes s t :=
  ⟨h.mem, by rw [h.chan], by rw [h.chan], fun hu => by rw [h.chan]; exact ⟨hu, rfl⟩⟩

theorem ListKept.of_setChan (hm : t.heap = s.heap) (hc : t.chans c = chan)
    (hd : chan.desc = (s.chans c).desc) (hy : chan.cyclic = (s.chans c).cyclic)
    (hu : chan.used = (s.chans c).used) (hn : chan.chanCount = (s.chans c).chanCount) :
    ListKept c nodes s t := by
  subst hc
  exact ⟨fun a _ => by rw [hm], hd, hy, fun h => ⟨hu.trans h, hn⟩⟩

theorem DmaSys.Owns.descs_kept (ho : s.Owns nodes) (h : ListKept c nodes s t) :
    t.descs c = s.descs c := by
  have hs := Lists.chain ho c
  have ht : Chain t.heap DmaLli.vlln (t.chans c).desc (nodes c) := by
    rw [h.desc]
    exact Seg.congr hs h.mem
  rw [DmaSys.descs, DmaSys.descs, h.desc]
  exact walk_congr hs h.mem hs.length_le ht.length_le

theorem lliList_frame (h : s.lliList prev a item j = some t) :
    (∀ b, b ≠ a → prev ≠ some b → t.heap.lookup b = s.heap.lookup b) ∧
      ∀ i, i ≠ j → t.chans i = s.chans i := by
  cases prev with
  | none =>
    cases h
    exact ⟨fun b hb _ => AList.lookup_insert_ne hb, fun i hi => Function.update_of_ne hi _ _⟩
  | some p =>
    rw [DmaSys.lliList] at h
    cases hp : s.heap.lookup p with
    | none =>
      rw [hp] at h
      cases h
    | some l =>
      rw [hp] at h
      cases h
      refine ⟨fun b hb hpb => ?_, fun i _ => rfl⟩
      have hbp : b ≠ p := fun he => hpb (congrArg some he.symm)
      exact (AList.lookup_insert_ne hb).trans (AList.lookup_insert_ne hbp)

/-- The loop over the periods writes its own items only, and the one it is to follow. -/
theorem cyclicLoop_frame (h : cyclicLoop j item turns i prev picks s = some (ok, prev', t)) :
    (∀ b ∈ s.heap, prev ≠ some b → t.heap.lookup b = s.heap.lookup b ∧ prev' ≠ some b) ∧
      ∀ k, k ≠ j → t.chans k = s.chans k := by
  induction turns generalizing i prev picks s with
  | zero =>
    cases h
    exact ⟨fun b _ hb => ⟨rfl, hb⟩, fun k _ => rfl⟩
  | succ turns ih =>
    rw [cyclicLoop] at h
    cases hm : malloc s.heap picks.head? with
    | none =>
      rw [hm] at h
      cases h
      exact ⟨fun b _ hb => ⟨rfl, hb⟩, fun k _ => rfl⟩
    | some a =>
      rw [hm] at h
      dsimp only at h
      cases hl : s.lliList prev a (item i) j with
      | none =>
        rw [hl] at h
        cases h
      | some s' =>
        rw [hl] at h
        obtain ⟨hmem, hch⟩ := lliList_frame hl
        obtain ⟨hmem', hch'⟩ := ih h
        refine ⟨fun b hb hpb => ?_, fun k hk => (hch' k hk).trans (hch k hk)⟩
        have hba : b ≠ a := by
          rintro rfl
          exact malloc_fresh hm hb
        have hold := hmem b hba hpb
        have hb' : b ∈ s'.heap := by
          rw [← AList.lookup_isSome, hold, AList.lookup_isSome]
          exact hb
        obtain ⟨hnew, hprev⟩ := hmem' b hb' fun he => hba (Option.some.inj he).symm
        exact ⟨hnew.trans hold, hprev⟩

theorem closeRing_frame (h : closeRing j prev s = some t) :
    (∀ b, prev ≠ some b → t.heap.lookup b = s.heap.lookup b) ∧ t.chans = s.chans := by
  cases prev with
  | none => cases h
  | some p =>
    rw [closeRing] at h
    cases hp : s.heap.lookup p with
    | none =>
      rw [hp] at h
      cases h
    | some l =>
      rw [hp] at h
      cases h
      exact ⟨fun b hb => AList.lookup_insert_ne fun he => hb (congrArg some he.symm), rfl⟩

theorem DmaSys.Owns.freeDescs_frame (ho : s.Owns nodes) (hj : c ≠ j) (h : s.freeDescs j = some t) :
    Untouched c nodes s t := by
  obtain ⟨u, hu, -, hch, -, hl⟩ := ho.freeDescs j
  cases hu.symm.trans h
  refine ⟨fun a ha => ?_, ?_⟩
  · exact (hl a).trans (if_neg (Lists.disjoint ho c j hj a ha))
  · rw [hch, Function.update_of_ne hj]

theorem DmaSys.Owns.freeIll_frame (ho : s.Owns nodes) (hj : c ≠ j)
    (h : sunxiDmaFreeIll j s = some t) : Untouched c nodes s t := by
  unfold sunxiDmaFreeIll at h
  split at h
  · cases h
  · next u hu =>
    cases h
    exact (ho.freeDescs_frame hj hu).setChan hj _

theorem DmaSys.Owns.prepOne_frame (ho : s.Owns nodes) (hj : chan ≠ some c)
    (item : DmaSlaveConfig → DmaLli) (h : prepOne chan dest src item pick s = some (r, t)) :
    Untouched c nodes s t := by
  unfold prepOne at h
  cases chan with
  | none =>
    cases h
    exact .refl s
  | some j =>
    have hjc : c ≠ j := fun he => hj (congrArg some he.symm)
    dsimp only at h
    split at h
    · cases h
      exact .refl s
    · cases hm : malloc s.heap pick with
      | none =>
        rw [hm] at h
        cases h
        exact .refl s
      | some a =>
        rw [hm] at h
        obtain ⟨u, hu, he⟩ := Option.map_eq_some_iff.1 h
        cases he
        obtain ⟨hmem, hch⟩ := lliList_frame hu
        refine ⟨fun b hb => hmem b ?_ fun he => (nomatch he), hch c hjc⟩
        rintro rfl
        exact malloc_fresh hm (Seg.mem (Lists.chain ho c) hb)

theorem Untouched.cyclicLoop (ho : s.Owns nodes) (hk : Untouched c nodes s t) (hj : c ≠ j)
    (h : cyclicLoop j item turns i none picks t = some (ok, prev, u)) :
    Untouched c nodes s u ∧ ∀ a ∈ nodes c, prev ≠ some a := by
  obtain ⟨hmem, hch⟩ := cyclicLoop_frame h
  have hin : ∀ a ∈ nodes c, a ∈ t.heap := by
    intro a ha
    rw [← AList.lookup_isSome, hk.mem a ha, AList.lookup_isSome]
    exact Seg.mem (Lists.chain ho c) ha
  refine ⟨hk.trans ⟨fun a ha => ?_, hch c hj⟩, fun a ha => ?_⟩
  · exact (hmem a (hin a ha) fun he => (nomatch he)).1
  · exact (hmem a (hin a ha) fun he => (nomatch he)).2

theorem DmaSys.Owns.prepCyclic_frame (ho : s.Owns nodes) (hj : chan ≠ some c)
    (h : halDmaPrepCyclic chan bufAddr bufLen periodLen dir picks s = some (r, t)) :
    Untouched c nodes s t := by
  unfold halDmaPrepCyclic at h
  split at h
  · cases h
  · cases chan with
    | none => cases h
    | some j =>
      have hjc : c ≠ j := fun he => hj (congrArg some he.symm)
      dsimp only at h
      split at h
      · cases h
        exact .refl s
      · split at h
        · cases h
        · next u hu =>
          have hku := ho.freeDescs_frame hjc hu
          split at h
          · cases h
          · next v hv =>
            cases h
            exact (hku.cyclicLoop ho hjc hv).1
          · next prev v hv =>
            obtain ⟨hkv, hprev⟩ := hku.cyclicLoop ho hjc hv
            split at h
            · cases h
            · next w hw =>
              cases h
              obtain ⟨hmem, hch⟩ := closeRing_frame hw
              have hkw : Untouched c nodes v w := ⟨fun a ha => hmem a (hprev a ha), congrFun hch c⟩
              exact (hkv.trans hkw).setChan hjc _

theorem callbackInstall_frame (hj : chan ≠ some c) (callback callbackParam : Ptr) (s : DmaSys) :
    Untouched c nodes s (halDmaCallbackInstall chan callback callbackParam s).2 := by
  unfold halDmaCallbackInstall
  cases chan with
  | none => exact .refl s
  | some j =>
    dsimp only
    split
    · exact .refl s
    · split
      · exact .refl s
      · exact (Untouched.refl s).setChan (fun he => hj (congrArg some he.symm)) _

theorem slaveConfig_frame (hj : chan ≠ some c) (config : Option DmaSlaveConfig) (s : DmaSys) :
    Untouched c nodes s (halDmaSlaveConfig chan config s).2 := by
  unfold halDmaSlaveConfig
  split
  · next j =>
    exact (Untouched.refl s).setChan (fun he => hj (congrArg some he.symm)) _
  · exact .refl s

theorem start_frame (hj : chan ≠ some c) (h : halDmaStart chan s = some (r, t)) :
    Untouched c nodes s t := by
  unfold halDmaStart at h
  cases chan with
  | none =>
    cases h
    exact .refl s
  | some j =>
    have hjc : c ≠ j := fun he => hj (congrArg some he.symm)
    have harm : Untouched c nodes s (armChan j s) :=
      (((Untouched.refl s).setChan hjc _).halWritel _ _).halWritel _ _
    dsimp only at h
    split at h
    · cases h
    · cases h
      exact (harm.halWritel _ _).halWritel _ _

theorem stop_frame (hj : chan ≠ some c) (s : DmaSys) :
    Untouched c nodes s (halDmaStop chan s).2 := by
  cases chan with
  | none => exact .refl s
  | some j =>
    exact ((((Untouched.refl s).halWritel _ _).halWritel _ _).halWritel _ _).setChan
      (fun he => hj (congrArg some he.symm)) _

theorem DmaSys.Owns.chanFree_frame (ho : s.Owns nodes) (hj : chan ≠ some c)
    (h : halDmaChanFree chan s = some (r, t)) : Untouched c nodes s t := by
  unfold halDmaChanFree at h
  cases chan with
  | none =>
    cases h
    exact .refl s
  | some j =>
    have hjc : c ≠ j := fun he => hj (congrArg some he.symm)
    dsimp only at h
    split at h
    · cases h
      exact .refl s
    · generalize s.halReadl _ &&& _ = v at h
      split at h
      · cases h
      · next u hu =>
        cases h
        have hs : Untouched c nodes s s := .refl s
        have hw := hs.halWritel v
          (dmaIrqEn (if (s.chans j).chanCount + startChanOffset ≥ highChan then 1 else 0))
        have hou : (s.halWritel v (dmaIrqEn
            (if (s.chans j).chanCount + startChanOffset ≥ highChan then 1 else 0))).Owns nodes :=
          ho.congr rfl fun _ => rfl
        exact (hw.trans (hou.freeIll_frame hjc hu)).setChan hjc _

theorem DmaSys.Owns.descFree_frame (ho : s.Owns nodes) (hj : chan ≠ some c)
    (h : halDmaChanDescFree chan nest s = some (r, t)) : Untouched c nodes s t := by
  unfold halDmaChanDescFree at h
  split at h
  · cases chan with
    | none =>
      cases h
      exact .refl s
    | some j =>
      obtain ⟨u, hu, he⟩ := Option.map_eq_some_iff.1 h
      cases he
      exact ho.freeIll_frame (fun he => hj (congrArg some he.symm)) hu
  · cases h
    exact .refl s

theorem request_frame (hu : (s.chans c).used = true) :
    Untouched c nodes s (halDmaChanRequest s).2 := by
  unfold halDmaChanRequest
  split
  · next i hf =>
    have hi := List.find?_some hf
    refine (Untouched.refl s).setChan ?_ _
    rintro rfl
    rw [hu] at hi
    cases hi
  · exact .refl s

theorem dmaCall_untouched {p : DmaRet × DmaSys} (ho : s.Owns nodes) (hq : call.chan ≠ some c)
    (hu : call = .request → (s.chans c).used = true) (h : dmaCall s call = some p) :
    Untouched c nodes s p.2 := by
  cases call with
  | request =>
    cases h
    exact request_frame (hu rfl)
  | prepMemcpy chan dest src len pick =>
    exact ho.prepOne_frame hq (fun config => memcpyItem config dest src len) h
  | prepDevice chan dest src len dir pick =>
    exact ho.prepOne_frame hq (fun config => deviceItem config dest src len dir) h
  | prepCyclic => exact ho.prepCyclic_frame hq h
  | callbackInstall chan callback callbackParam =>
    cases h
    exact callbackInstall_frame hq callback callbackParam s
  | slaveConfig chan config =>
    cases h
    exact slaveConfig_frame hq config s
  | txStatus chan leftSize pos cnt =>
    obtain ⟨r', hr'⟩ := txStatus_keeps ho chan leftSize pos cnt
    rw [dmaCall, hr'] at h
    cases h
    exact .refl s
  | start => exact start_frame hq h
  | stop chan =>
    cases h
    exact stop_frame hq s
  | chanFree => exact ho.chanFree_frame hq h
  | descFree => exact ho.descFree_frame hq h

/-- The call replaces the list of the channel, or stops or frees it. -/
def DmaCall.Ends (c : ChanId) : DmaCall → Prop
  | .prepMemcpy chan _ _ _ _ | .prepDevice chan _ _ _ _ _ | .prepCyclic chan _ _ _ _ _
  | .stop chan | .chanFree chan | .descFree chan _ => chan = some c
  | _ => False

def DmaEvent.Ends (c : ChanId) : DmaEvent → Prop
  | .call k => k.Ends c
  | .irq _ _ _ => False

theorem request_kept (c : ChanId) (s : DmaSys) :
    ListKept c nodes s (halDmaChanRequest s).2 := by
  by_cases hu : (s.chans c).used = true
  · exact (request_frame hu).listKept
  · unfold halDmaChanRequest
    split
    · next i _ =>
      by_cases hi : c = i
      · subst hi
        have hc := DmaSys.setChan_self s c { s.chans c with used := true, chanCount := c }
        have hd := congrArg DmaChan.desc hc
        have hy := congrArg DmaChan.cyclic hc
        exact ⟨fun _ _ => rfl, hd, hy, fun h => absurd h hu⟩
      · exact ((Untouched.refl s).setChan hi _).listKept
    · exact (Untouched.refl s).listKept

theorem dmaCall_own {p : DmaRet × DmaSys} (ho : s.Owns nodes) (hc : call.chan = some c)
    (hq : ¬ DmaCall.Ends c call) (h : dmaCall s call = some p) : ListKept c nodes s p.2 := by
  cases call with
  | request => cases hc
  | prepMemcpy | prepDevice | prepCyclic | stop | chanFree | descFree => exact absurd hc hq
  | callbackInstall chan callback callbackParam =>
    cases h
    cases hc
    unfold halDmaCallbackInstall
    dsimp only
    split
    · exact (Untouched.refl s).listKept
    · split
      · exact (Untouched.refl s).listKept
      · exact .of_setChan rfl (DmaSys.setChan_self ..) rfl rfl rfl rfl
  | slaveConfig chan config =>
    cases h
    cases hc
    unfold halDmaSlaveConfig
    split
    · next hsome =>
      cases hsome
      exact .of_setChan rfl (DmaSys.setChan_self ..) rfl rfl rfl rfl
    · exact (Untouched.refl s).listKept
  | txStatus chan leftSize pos cnt =>
    obtain ⟨r', hr'⟩ := txStatus_keeps ho chan leftSize pos cnt
    rw [dmaCall, hr'] at h
    cases h
    exact (Untouched.refl s).listKept
  | start chan =>
    cases hc
    unfold dmaCall halDmaStart at h
    dsimp only at h
    split at h
    · cases h
    · cases h
      exact .of_setChan rfl (DmaSys.setChan_self ..) rfl rfl rfl rfl

theorem dmaCall_kept {p : DmaRet × DmaSys} (ho : s.Owns nodes) (hq : ¬ DmaCall.Ends c call)
    (h : dmaCall s call = some p) : ListKept c nodes s p.2 := by
  by_cases hc : call.chan = some c
  · exact dmaCall_own ho hc hq h
  · by_cases hr : call = .request
    · subst hr
      cases h
      exact request_kept c s
    · exact (dmaCall_untouched ho hc (fun he => absurd he hr) h).listKept

theorem irqTurn_frame (hj : c ≠ j) (h : irqTurn j statusL statusH s = some (r, t)) :
    Untouched c nodes s t := by
  unfold irqTurn at h
  dsimp only at h
  split at h
  · cases h
    exact .refl s
  · split at h
    · cases h
      exact .refl s
    · split at h
      · split at h
        · cases h
        · cases h
          exact (Untouched.refl s).setChan hj _
      · cases h
        exact .refl s

theorem irqTurn_kept (h : irqTurn j statusL statusH s = some (r, t)) : ListKept c nodes s t := by
  by_cases hj : c = j
  · subst hj
    unfold irqTurn at h
    dsimp only at h
    split at h
    · cases h
      exact (Untouched.refl s).listKept
    · split at h
      · cases h
        exact (Untouched.refl s).listKept
      · split at h
        · split at h
          · cases h
          · cases h
            exact .of_setChan rfl (DmaSys.setChan_self ..) rfl rfl rfl rfl
        · cases h
          exact (Untouched.refl s).listKept
  · exact (irqTurn_frame hj h).listKept

theorem dmaEvent_kept (ho : s.Owns nodes) (hq : ¬ DmaEvent.Ends c e)
    (h : dmaEvent s e = some (o, t)) : ListKept c nodes s t := by
  cases e with
  | call call =>
    obtain ⟨r, hr, he⟩ := Option.map_eq_some_iff.1 h
    cases he
    exact dmaCall_kept ho hq hr
  | irq j statusL statusH =>
    obtain ⟨r, hr, he⟩ := Option.map_eq_some_iff.1 h
    cases he
    exact irqTurn_kept hr

/-- Until a call replaces, stops or frees it, a channel runs the list it has. -/
theorem exec_kept (hi : DmaInv own s) (h : exec dmaEvent s evs = some (os, t))
    (hq : ∀ e ∈ evs, ¬ DmaEvent.Ends c e) (hxs : s.descs c = some xs) :
    t.descs c = some xs ∧ (t.chans c).cyclic = (s.chans c).cyclic ∧
      ((s.chans c).used = true →
        (t.chans c).used = true ∧ (t.chans c).chanCount = (s.chans c).chanCount) := by
  induction evs generalizing s own os with
  | nil =>
    cases h
    exact ⟨hxs, rfl, fun hu => ⟨hu, rfl⟩⟩
  | cons e evs ih =>
    obtain ⟨o, u, os', he, hevs, rfl⟩ := exec_cons h
    obtain ⟨nodes, ho⟩ := hi.owns
    have hk := dmaEvent_kept ho (hq e List.mem_cons_self) he
    have hu : u.descs c = some xs := (ho.descs_kept hk).trans hxs
    obtain ⟨hd, hy, hn⟩ := ih (dmaEvent_inv e hi he) hevs
      (fun e' he' => hq e' (List.mem_cons_of_mem e he')) hu
    refine ⟨hd, hy.trans hk.cyclic, fun hused => ?_⟩
    obtain ⟨hused', hcount⟩ := hk.held hused
    obtain ⟨ht, hcount'⟩ := hn hused'
    exact ⟨ht, hcount'.trans hcount⟩

end D1Flash
