import D1Flash.Dma.Client

namespace D1Flash
open LinkedHeap Runs
set_option autoImplicit true

variable {s t u : DmaSys}

/-- No channel gets a callback; one may lose its own. -/
def HooksKept (s t : DmaSys) : Prop := ∀ c, t.hook c = s.hook c ∨ t.hook c = (none, none)

theorem HooksKept.refl (s : DmaSys) : HooksKept s s := fun _ => .inl rfl

theorem HooksKept.trans (h : HooksKept s t) (h' : HooksKept t u) : HooksKept s u := by
  intro c
  rcases h' c with hu | hu
  · rw [hu]
    exact h c
  · exact .inr hu

theorem HooksKept.of_chans (h : t.chans = s.chans) : HooksKept s t := by
  intro c
  rw [DmaSys.hook, h]
  exact .inl rfl

theorem HooksKept.setChan (h : HooksKept s t) (c : ChanId) (chan : DmaChan)
    (hc : (chan.callback, chan.callbackParam) = t.hook c ∨
      (chan.callback, chan.callbackParam) = (none, none)) : HooksKept s (t.setChan c chan) := by
  refine h.trans fun j => ?_
  by_cases hj : j = c
  · rw [hj, DmaSys.hook, DmaSys.setChan_self]
    exact hc
  · rw [DmaSys.hook, DmaSys.setChan_of_ne t chan hj]
    exact .inl rfl

theorem lliList_hooks (h : s.lliList prev a item c = some t) : HooksKept s t := by
  unfold DmaSys.lliList at h
  cases prev with
  | none =>
    cases h
    exact .setChan (.of_chans rfl) c _ (.inl rfl)
  | some p =>
    dsimp only at h
    split at h
    · cases h
    · cases h
      exact .of_chans rfl

theorem cyclicLoop_hooks (h : cyclicLoop c item turns i prev picks s = some (ok, prev', t)) :
    HooksKept s t := by
  induction turns generalizing i prev picks s with
  | zero =>
    cases h
    exact .refl _
  | succ turns ih =>
    rw [cyclicLoop] at h
    split at h
    · cases h
      exact .refl _
    · split at h
      · cases h
      · next hl => exact (lliList_hooks hl).trans (ih h)

theorem closeRing_hooks (h : closeRing c prev s = some t) : HooksKept s t := by
  unfold closeRing at h
  split at h
  · cases h
  · split at h
    · cases h
    · cases h
      exact .of_chans rfl

theorem freeDescs_hooks (h : s.freeDescs c = some t) : HooksKept s t := by
  rw [DmaSys.freeDescs] at h
  split at h
  · cases h
  · cases h
    exact .setChan (.of_chans rfl) c _ (.inl rfl)

theorem freeIll_hooks (h : sunxiDmaFreeIll c s = some t) : HooksKept s t := by
  rw [sunxiDmaFreeIll] at h
  split at h
  · cases h
  · next hf =>
    cases h
    exact (freeDescs_hooks hf).setChan c _ (.inr rfl)

theorem prepOne_hooks (item : DmaSlaveConfig → DmaLli)
    (h : prepOne chan dest src item pick s = some (r, t)) : HooksKept s t := by
  unfold prepOne at h
  split at h
  · cases h
    exact .refl s
  · split at h
    · cases h
      exact .refl s
    · split at h
      · cases h
        exact .refl s
      · obtain ⟨u, hu, he⟩ := Option.map_eq_some_iff.1 h
        cases he
        exact lliList_hooks hu

theorem prepCyclic_hooks
    (h : halDmaPrepCyclic chan bufAddr bufLen periodLen dir picks s = some (r, t)) :
    HooksKept s t := by
  unfold halDmaPrepCyclic at h
  split at h
  · cases h
  · dsimp only at h
    split at h
    · cases h
    · split at h
      · cases h
        exact .refl s
      · split at h
        · cases h
        · next hf =>
          have hfree := freeDescs_hooks hf
          split at h
          · cases h
          · next hl =>
            cases h
            exact hfree.trans (cyclicLoop_hooks hl)
          · next hl =>
            split at h
            · cases h
            · next hr =>
              cases h
              exact ((hfree.trans (cyclicLoop_hooks hl)).trans (closeRing_hooks hr)).setChan _ _
                (.inl rfl)

theorem start_hooks (h : halDmaStart chan s = some (r, t)) : HooksKept s t := by
  unfold halDmaStart at h
  split at h
  · cases h
    exact .refl s
  · next c =>
    dsimp only at h
    split at h
    · cases h
    · cases h
      have harm : HooksKept s (armChan c s) :=
        ((HooksKept.refl s).setChan c
          { s.chans c with irqType := if (s.chans c).cyclic then irqPkg else irqQueue }
          (.inl rfl)).trans (.of_chans rfl)
      exact harm.trans (.of_chans rfl)

theorem chanFree_hooks (h : halDmaChanFree chan s = some (r, t)) : HooksKept s t := by
  unfold halDmaChanFree at h
  split at h
  · cases h
    exact .refl s
  · dsimp only at h
    split at h
    · cases h
      exact .refl s
    · split at h
      · cases h
      · next hf =>
        cases h
        exact ((HooksKept.of_chans rfl).trans (freeIll_hooks hf)).setChan _ _ (.inl rfl)

theorem descFree_hooks (h : halDmaChanDescFree chan nest s = some (r, t)) : HooksKept s t := by
  unfold halDmaChanDescFree at h
  split at h
  · split at h
    · cases h
      exact .refl s
    · obtain ⟨u, hu, he⟩ := Option.map_eq_some_iff.1 h
      cases he
      exact freeIll_hooks hu
  · cases h
    exact .refl s

theorem irqTurn_hooks (h : irqTurn c statusL statusH s = some (r, t)) : HooksKept s t := by
  unfold irqTurn at h
  dsimp only at h
  split at h
  · cases h
    exact .refl s
  · split at h
    · cases h
      exact .refl s
    · split at h
      · split at h
        · cases h
        · cases h
          exact (HooksKept.refl s).setChan c _ (.inl rfl)
      · cases h
        exact .refl s

theorem txStatus_same (h : halDmaTxStatus chan leftSize pos cnt s = some (r, t)) : t = s := by
  unfold halDmaTxStatus at h
  split at h
  · split at h
    · split at h
      · cases h
      · dsimp only at h
        split at h
        · cases h
          rfl
        · split at h
          · cases h
            rfl
          · cases h
            rfl
    · split at h
      · cases h
        rfl
      · cases h
        rfl
  · cases h
    rfl

theorem dmaEvent_hooks (h : dmaEvent s e = some (o, t))
    (he : ∀ c callback callbackParam,
    e ≠ .call (.callbackInstall (some c) callback callbackParam)) :
    HooksKept s t := by
  cases e with
  | irq c statusL statusH =>
    obtain ⟨r, hr, he⟩ := Option.map_eq_some_iff.1 h
    cases he
    exact irqTurn_hooks hr
  | call call =>
    obtain ⟨r, hr, hp⟩ := Option.map_eq_some_iff.1 h
    cases hp
    cases call with
    | request =>
      cases hr
      dsimp only [halDmaChanRequest]
      split
      · exact (HooksKept.refl s).setChan _ _ (.inl rfl)
      · exact .refl s
    | prepMemcpy => exact prepOne_hooks (fun config => memcpyItem config _ _ _) hr
    | prepDevice => exact prepOne_hooks (fun config => deviceItem config _ _ _ _) hr
    | prepCyclic => exact prepCyclic_hooks hr
    | callbackInstall chan callback callbackParam =>
      cases chan with
      | none =>
        cases hr
        exact .refl s
      | some c => exact (he c callback callbackParam rfl).elim
    | slaveConfig chan config =>
      cases hr
      cases config with
      | none => exact .refl s
      | some config =>
        cases chan with
        | none => exact .refl s
        | some c => exact (HooksKept.refl s).setChan c _ (.inl rfl)
    | txStatus =>
      rw [txStatus_same hr]
      exact .refl s
    | start => exact start_hooks hr
    | stop chan =>
      cases hr
      cases chan with
      | none => exact .refl s
      | some c => exact (HooksKept.of_chans rfl).setChan c _ (.inl rfl)
    | chanFree => exact chanFree_hooks hr
    | descFree => exact descFree_hooks hr

/-- No channel is made to call `cb` by the calls. -/
def NotInstalled (cb : Ptr × Ptr) (evs : List DmaEvent) : Prop :=
  ∀ c, .call (.callbackInstall (some c) cb.1 cb.2) ∉ evs

theorem exec_not_hooked (hs : ∀ c, s.hook c ≠ cb) (hcb : cb ≠ (none, none))
    (hevs : NotInstalled cb evs) (h : exec dmaEvent s evs = some (os, t)) (c : ChanId) :
    t.hook c ≠ cb := by
  induction evs generalizing s os with
  | nil =>
    cases h
    exact hs c
  | cons e evs ih =>
    obtain ⟨o, u, os', hu, he, -⟩ := exec_cons h
    refine ih ?_ (fun c hc => hevs c (List.mem_cons_of_mem e hc)) he
    intro j
    by_cases hinst : ∃ c callback callbackParam,
        e = .call (.callbackInstall (some c) callback callbackParam)
    · obtain ⟨c, callback, callbackParam, rfl⟩ := hinst
      have hne : (callback, callbackParam) ≠ cb := by
        rintro rfl
        exact hevs c List.mem_cons_self
      cases hu
      dsimp only [halDmaCallbackInstall]
      split
      · exact hs j
      · split
        · exact hs j
        · by_cases hj : j = c
          · rw [hj, DmaSys.hook, DmaSys.setChan_self]
            exact hne
          · rw [DmaSys.hook, DmaSys.setChan_of_ne s _ hj]
            exact hs j
    · simp only [not_exists] at hinst
      rcases dmaEvent_hooks hu hinst j with hj | hj
      · rw [hj]
        exact hs j
      · rw [hj]
        exact hcb.symm

end D1Flash
