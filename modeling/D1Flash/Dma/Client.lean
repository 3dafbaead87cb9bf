import D1Flash.Dma.Frame

namespace D1Flash
open LinkedHeap Runs
set_option autoImplicit true

/-! What a client does with a channel, from its request to the free. -/

variable {s t u : DmaSys} {own own' : ChanId → Bool} {cb cb' : Ptr × Ptr}

def DmaSys.hook (s : DmaSys) (c : ChanId) : Ptr × Ptr :=
  ((s.chans c).callback, (s.chans c).callbackParam)

/-- Every other channel and its list is left as it was. -/
def Aside (c : ChanId) (s t : DmaSys) : Prop :=
  ∀ j, j ≠ c → ∀ nodes, s.Owns nodes → Untouched j nodes s t

theorem Aside.refl (c : ChanId) (s : DmaSys) : Aside c s s := fun _ _ _ _ => .refl s

theorem Untouched.nodes_eq (ho : s.Owns nodes) (ho' : t.Owns nodes') (h : Untouched j nodes s t) :
    nodes' j = nodes j := by
  have hs := Lists.chain ho j
  have ht := Lists.chain ho' j
  rw [h.chan] at ht
  exact Chain.unique ht (Seg.congr hs h.mem)

theorem Aside.trans (h : Aside c s t) (ho : ∃ nodes, t.Owns nodes) (h' : Aside c t u) :
    Aside c s u := by
  intro j hj nodes hs
  obtain ⟨nodes', ht⟩ := ho
  have hst := h j hj nodes hs
  have htu := h' j hj nodes' ht
  have hn := hst.nodes_eq hs ht
  exact hst.trans ⟨fun a ha => htu.mem a (hn ▸ ha), htu.chan⟩

/-- A client of channel `c` came from `s` to `t`, where the owned channels and the callback of `c`
are as given. -/
structure Worked (c : ChanId) (own : ChanId → Bool) (cb : Ptr × Ptr) (s t : DmaSys) : Prop where
  inv : DmaInv own t
  aside : Aside c s t
  hook : t.hook c = cb

theorem Worked.refl (hi : DmaInv own s) (c : ChanId) : Worked c own (s.hook c) s s :=
  ⟨hi, .refl c s, rfl⟩

theorem Worked.trans (h : Worked c own cb s t) (h' : Worked c own' cb' t u) :
    Worked c own' cb' s u :=
  ⟨h'.inv, h.aside.trans h.inv.owns h'.aside, h'.hook⟩

theorem Worked.hook_of_ne (h : Worked c own cb s t) (hs : ∃ nodes, s.Owns nodes) (hj : j ≠ c) :
    t.hook j = s.hook j := by
  obtain ⟨nodes, ho⟩ := hs
  rw [DmaSys.hook, DmaSys.hook, (h.aside j hj nodes ho).chan]

theorem request_cases (hi : DmaInv own s) :
    (∃ c t, own c = false ∧
      halDmaChanRequest s = ({ ret := halDmaChanStatusFree, chan := some c }, t) ∧
      t.heap = s.heap ∧ Worked c (Function.update own c true) (s.hook c) s t) ∨
    ((∀ c, own c = true) ∧ halDmaChanRequest s = (.status halDmaChanStatusBusy, s)) := by
  have hinv := hi.request
  rw [halDmaChanRequest] at hinv ⊢
  cases hf : (List.finRange nrMaxChan).find? fun i => !(s.chans i).used with
  | some c =>
    rw [hf] at hinv
    have hused := List.find?_some hf
    rw [hi.used c, Bool.not_eq_true'] at hused
    refine .inl ⟨c, _, hused, rfl, rfl, hinv, ?_, ?_⟩
    · intro j hj nodes _
      exact (Untouched.refl s).setChan hj _
    · rw [DmaSys.hook, DmaSys.setChan_self]
      rfl
  | none =>
    refine .inr ⟨fun c => ?_, rfl⟩
    have hused := List.find?_eq_none.1 hf c (List.mem_finRange c)
    rw [hi.used c, Bool.not_eq_true, Bool.not_eq_false'] at hused
    exact hused

theorem Worked.slaveConfig (hi : DmaInv own s) (c : ChanId) (config : DmaSlaveConfig) :
    ∃ t, halDmaSlaveConfig (some c) (some config) s = (.status halDmaStatusOk, t) ∧
      t.heap = s.heap ∧ Worked c own (s.hook c) s t := by
  refine ⟨_, rfl, rfl, hi.slaveConfig (some c) (some config), ?_, ?_⟩
  · intro j hj nodes _
    exact slaveConfig_frame (fun he => hj (Option.some.inj he).symm) (some config) s
  · rw [DmaSys.hook, DmaSys.setChan_self]
    rfl

theorem Worked.prepDevice (hi : DmaInv own s) (c : ChanId) (dest src len : BitVec 32)
    (dir : DmaTransferDirection) (pick : Ptr) :
    if dest ≠ 0 ∧ src ≠ 0 ∧ malloc s.heap pick ≠ none then
      ∃ t a, halDmaPrepDevice (some c) dest src len dir pick s = some (.status halDmaStatusOk, t) ∧
        (t.chans c).desc = some a ∧
        t.heap.lookup a = some { deviceItem (s.chans c).cfg dest src len dir with
          pLln := linkEnd, vlln := none } ∧
        Worked c own (s.hook c) s t
    else
      ∃ ret, ret ≠ 0 ∧ halDmaPrepDevice (some c) dest src len dir pick s =
      some (.status ret, s) := by
  rw [halDmaPrepDevice, prepOne]
  dsimp only
  by_cases h0 : dest = 0 ∨ src = 0
  · rw [if_pos h0, if_neg fun h => h0.elim h.1 h.2.1]
    exact ⟨_, by decide, rfl⟩
  · rw [if_neg h0]
    obtain ⟨hd, hs⟩ := not_or.1 h0
    cases hm : malloc s.heap pick with
    | none =>
      rw [if_neg fun h => h.2.2 rfl]
      exact ⟨_, by decide, rfl⟩
    | some a =>
      rw [if_pos ⟨hd, hs, Option.some_ne_none a⟩]
      obtain ⟨nodes, ho⟩ := hi.owns
      obtain ⟨t, ht, hot, hch, -, hh⟩ :=
        ho.lliList_head (malloc_fresh hm) (deviceItem (s.chans c).cfg dest src len dir) c
      dsimp only
      rw [ht]
      refine ⟨t, a, rfl, ?_, ?_, hi.descOnly hot (.of_update hch), ?_, ?_⟩
      · rw [hch, Function.update_self]
      · rw [hh, AList.lookup_insert]
      · intro j hj nodes' ho'
        obtain ⟨hmem, hchans⟩ := lliList_frame ht
        refine ⟨fun b hb => hmem b ?_ (by simp), hchans j hj⟩
        rintro rfl
        exact malloc_fresh hm (Seg.mem (Lists.chain ho' j) hb)
      · rw [DmaSys.hook, hch, Function.update_self]
        rfl

theorem Worked.install (hi : DmaInv own s) (c : ChanId) (callback callbackParam : Ptr) :
    Worked c own (callback, callbackParam) s
      (s.setChan c { s.chans c with callback, callbackParam }) := by
  have ht := hi.tame c
  refine ⟨hi.setChan_used c _ rfl ⟨ht.periodsPos, ht.bufLen, ht.srcMaxburst, ht.dstMaxburst⟩ rfl,
    ?_, ?_⟩
  · intro j hj nodes _
    exact (Untouched.refl s).setChan hj _
  · rw [DmaSys.hook, DmaSys.setChan_self]

theorem Worked.start (hi : DmaInv own s) (c : ChanId) :
    ∃ t, halDmaStart (some c) s = some (.status halDmaStatusOk, t) ∧ t.heap = s.heap ∧
      (t.chans c).desc = (s.chans c).desc ∧
      t.regs (dmaLliAddr (t.chans c).chanCount) = vaToPa (s.chans c).desc ∧
      Worked c own (s.hook c) s t := by
  obtain ⟨nodes, ho⟩ := hi.owns
  obtain ⟨r, t, ht, hk⟩ := start_keeps ho (some c)
  have hframe : ∀ j, j ≠ c → ∀ nodes, s.Owns nodes → Untouched j nodes s t := fun j hj nodes _ =>
    start_frame (fun he => hj (Option.some.inj he).symm) ht
  have hinv := hi.start ht
  have hret := ht
  rw [halDmaStart] at hret
  dsimp only at hret
  split at hret
  · cases hret
  · cases hret
    refine ⟨_, ht, hk.heap, hk.desc c, ?_, hinv, hframe, ?_⟩
    · have hne : dmaLliAddr (s.chans c).chanCount ≠ dmaEnable (s.chans c).chanCount := by
        rw [dmaLliAddr, dmaEnable]
        omega
      simp only [armChan, DmaSys.halWritel, DmaSys.setChan_self, Function.update_of_ne hne,
        Function.update_self]
    · simp only [DmaSys.hook, armChan, DmaSys.halWritel_chans, DmaSys.setChan_self]

theorem Worked.giveBack (hi : DmaInv own s) (hc : own c = true) :
    ∃ t u, halDmaStop (some c) s = (.status halDmaStatusOk, t) ∧
      halDmaChanFree (some c) t = some (.status halDmaStatusOk, u) ∧
      Worked c (Function.update own c false) (none, none) s u := by
  have hstop := hi.stop (some c)
  have hframe : Aside c s (halDmaStop (some c) s).2 := fun j hj _ _ =>
    stop_frame (fun he => hj (Option.some.inj he).symm) s
  obtain ⟨t, ht⟩ : ∃ t, halDmaStop (some c) s = (.status halDmaStatusOk, t) := ⟨_, rfl⟩
  rw [ht] at hstop hframe
  have hused : (t.chans c).used = true := (hstop.used c).trans hc
  obtain ⟨nodes, ho⟩ := hstop.owns
  obtain ⟨r, u, hfree, hret, hcb⟩ : ∃ r u, halDmaChanFree (some c) t = some (r, u) ∧
      r = .status halDmaStatusOk ∧ u.hook c = (none, none) := by
    rw [halDmaChanFree]
    dsimp only
    rw [hused, Bool.not_true, if_neg Bool.false_ne_true]
    generalize t.halReadl _ &&& _ = w
    have how : (t.halWritel w (dmaIrqEn
        (if (t.chans c).chanCount + startChanOffset ≥ highChan then 1 else 0))).Owns nodes :=
      ho.congr rfl fun _ => rfl
    obtain ⟨v, hv, -⟩ := how.freeDescs c
    rw [sunxiDmaFreeIll, hv]
    refine ⟨_, _, rfl, rfl, ?_⟩
    rw [DmaSys.hook, DmaSys.setChan_self, DmaSys.setChan_self]
  subst hret
  have hinv := hstop.chanFree hfree
  rw [ownNext, if_pos (show (DmaRet.status halDmaStatusOk).ret = halDmaStatusOk from rfl)] at hinv
  refine ⟨t, u, ht, hfree, hinv, hframe.trans ⟨nodes, ho⟩ ?_, hcb⟩
  intro j hj nodes' ho'
  exact ho'.chanFree_frame (fun he => hj (Option.some.inj he).symm) hfree

end D1Flash
