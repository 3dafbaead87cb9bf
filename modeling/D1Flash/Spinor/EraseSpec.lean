import D1Flash.Spinor.WrLockSpec

namespace D1Flash
open NorArray (erase program slice)
set_option autoImplicit true

theorem norEraseDo_bus {nor : Nor SpiBus} (hd : nor.toNorFlash.Drives b.chip)
    (hop : chipOp cmd = .erase blk nor.addrWidth)
    (h : norEraseDo busPort nor cmd addr b = (ret, b')) :
    b.Kept b' ∧
      (ret ≠ 0 ∧ b'.chip.mem = b.chip.mem ∨ b'.chip.mem =
        erase b.chip.mem (b.chip.decode nor.addrWidth addr / blk * blk) blk) ∧
      (b.Reliable → b.chip.busy = 0 → ret = 0) := by
  unfold norEraseDo at h
  rcases h₁ : norWriteEnable busPort b with ⟨ret₁, b₁⟩
  obtain ⟨hk₁, hm₁, -, hz₁, hr₁⟩ := norWriteEnable_bus h₁
  simp only [h₁] at h
  by_cases h0 : ret₁ = 0
  · obtain ⟨hb₁, hw₁⟩ := hz₁ h0
    obtain ⟨bs, hcmd, ht⟩ := takeAddr_cmdAddr hd.width cmd addr []
    rw [List.append_nil] at hcmd
    simp only [h0, ne_eq, not_true_eq_false, if_false, hcmd] at h
    obtain ⟨hk₂, ⟨h02, hs⟩ | ⟨h02, hn, cut, hs⟩⟩ := norSend_bus h
    · refine ⟨hk₁.trans hk₂, .inr ?_, fun _ _ => h02⟩
      rw [hs, b₁.chip.exec_erase_whole hop ht hb₁ hw₁, hm₁, hk₁.size]
      rfl
    · refine ⟨hk₁.trans hk₂, ?_, fun hrel _ => (hn (hk₁.reliable hrel)).elim⟩
      rcases b₁.chip.exec_erase (n := 0) hop ht hb₁ hw₁ cut with hm | hm
      · exact .inl ⟨h02, by rw [hs, hm, hm₁]⟩
      · exact .inr (by rw [hs, hm, hm₁, hk₁.size]; rfl)
  · simp only [ne_eq, h0, not_false_eq_true, if_true, Prod.mk.injEq] at h
    obtain ⟨rfl, rfl⟩ := h
    exact ⟨hk₁, .inl ⟨h0, hm₁⟩, fun hrel hb => (h0 (hr₁ hrel hb)).elim⟩

theorem norEraseBlk_bus {nor : Nor SpiBus} (hu : nor.Unlocks cfg)
    (hd : nor.toNorFlash.Drives b.chip) (hop : chipOp cmd = .erase blk nor.addrWidth)
    (h : norEraseBlk cfg busPort nor cmd size ms addr b = (ret, b')) :
    b.Kept b' ∧
      (ret ≠ 0 ∧ b'.chip.mem = b.chip.mem ∨ b'.chip.mem =
        erase b.chip.mem (b.chip.decode nor.addrWidth addr / blk * blk) blk) ∧
      (ret = 0 → b'.chip.busy = 0) ∧ (b.Reliable → b.chip.busy = 0 → ret = 0) := by
  rw [norEraseBlk] at h
  rcases h₀ : (if cfg.writeLock then norWrUnlock nor addr size b else (0, b)) with ⟨ret₀, b₀⟩
  have hq₀ := norWrUnlock_quiet hu h₀
  rw [h₀] at h
  dsimp only at h
  by_cases h00 : ret₀ = 0
  swap
  · rw [if_pos h00] at h
    obtain ⟨rfl, rfl⟩ := Prod.mk.inj h
    exact ⟨hq₀.toKept, .inl ⟨by decide, hq₀.mem⟩, fun h => absurd h (by decide),
      fun hrel hb => (h00 (hq₀.succeeds hrel hb)).elim⟩
  rw [if_neg (not_not.2 h00)] at h
  rcases h₁ : norEraseDo busPort nor cmd addr b₀ with ⟨ret₁, b₁⟩
  obtain ⟨hk₁, hm₁, hr₁⟩ := norEraseDo_bus (hq₀.drives hd) hop h₁
  rw [hq₀.mem, NorChip.decode, hq₀.size, ← NorChip.decode] at hm₁
  simp only [h₁] at h
  by_cases h0 : ret₁ = 0
  · rw [if_neg (not_not.2 h0)] at h
    rcases h₂ : norWaitReady busPort ms maxWaitLoop b₁ with ⟨ret₂, b₂⟩
    obtain ⟨hp₂, hz₂, hr₂⟩ := norWaitReady_bus h₂
    have hs := norRelock_still cfg b₂ (fun _ _ => norWrLockAll_quiet)
    simp only [h₂] at h
    obtain ⟨rfl, rfl⟩ := Prod.mk.inj h
    refine ⟨((hq₀.toKept.trans hk₁).trans hp₂.toKept).trans hs.toKept, ?_,
      fun hr => hs.ready (hz₂ hr),
      fun hrel _ => hr₂ (hk₁.reliable (hq₀.reliable hrel)) (polls_maxWaitLoop ms)⟩
    rcases hm₁ with ⟨hn, -⟩ | hm₁
    · exact (hn h0).elim
    · exact .inr ((hs.mem.trans hp₂.mem).trans hm₁)
  · rw [if_pos h0] at h
    have hs := norRelock_still cfg b₁ (fun _ _ => norWrLockAll_quiet)
    obtain ⟨rfl, rfl⟩ := Prod.mk.inj h
    exact ⟨(hq₀.toKept.trans hk₁).trans hs.toKept,
      hm₁.imp (fun hm => ⟨hm.1, hs.mem.trans hm.2⟩) hs.mem.trans, fun h => (h0 h).elim,
      fun hrel hb => hr₁ (hq₀.reliable hrel) (hq₀.ready hb)⟩

theorem norEraseBy_bus {nor : Nor SpiBus} (hu : nor.Unlocks cfg)
    (hd : nor.toNorFlash.Drives b.chip)
    (h : norEraseBy cfg busPort nor blk addr b = (ret, b')) :
    b.Kept b' ∧
      (ret ≠ 0 ∧ b'.chip.mem = b.chip.mem ∨ b'.chip.mem = erase b.chip.mem
        (b.chip.decode nor.addrWidth addr / blk.bytes * blk.bytes) blk.bytes) ∧
      (ret = 0 → b'.chip.busy = 0) ∧ (b.Reliable → b.chip.busy = 0 → ret = 0) := by
  have hop : ∀ cmd cmd4B : Byte, chipOp cmd = .erase blk.bytes 3 →
      chipOp cmd4B = .erase blk.bytes 4 →
      chipOp (cmd4Bytes nor.toNorFlash cmd cmd4B) = .erase blk.bytes nor.addrWidth := by
    intro cmd cmd4B h3 h4
    unfold cmd4Bytes
    rcases hd.width with hw | hw
    · rw [if_neg (by rw [hw]; decide), h3, hw]
    · rw [if_pos hw, h4, hw]
  cases blk <;> exact norEraseBlk_bus hu hd (hop _ _ (by decide) (by decide)) h

theorem eraseCmdFor_some (h : eraseCmdFor info addr size = some blk) :
    blk.bytes ≤ size ∧ addr % blk.bytes = 0 := by
  unfold eraseCmdFor at h
  split at h
  case isTrue hg =>
    cases h
    exact ⟨hg.1, hg.2.1⟩
  case isFalse =>
    split at h
    case isTrue hg =>
      cases h
      exact ⟨hg.1, hg.2.1⟩
    case isFalse =>
      split at h
      case isTrue hg =>
        cases h
        exact ⟨hg.1, hg.2.1⟩
      case isFalse => cases h

theorem EraseSize.bytes_pos (blk : EraseSize) : 0 < blk.bytes := by
  cases blk <;> decide

theorem erase_block (h : addr % blk = 0) : addr / blk * blk = addr := by
  have := Nat.div_add_mod' addr blk
  omega

/-- The erase loop inside the chip: a front part of the range is erased, and all of it when the
loop returns 0. -/
theorem norEraseLoop_bus {nor : Nor SpiBus} (hu : nor.Unlocks cfg)
    (hd : nor.toNorFlash.Drives b.chip) (hf : size ≤ fuel) (hle : addr + size ≤ b.chip.size)
    (h : norEraseLoop cfg busPort nor info fuel addr size b = (ret, b')) :
    b.Kept b' ∧
      (∃ k ≤ size, (ret = 0 → k = size) ∧ b'.chip.mem = erase b.chip.mem addr k) ∧
      (ret = 0 → 0 < size ∨ b.chip.busy = 0 → b'.chip.busy = 0) := by
  induction fuel generalizing addr size b with
  | zero =>
    have hz : size = 0 := Nat.le_zero.1 hf
    subst hz
    obtain ⟨rfl, rfl⟩ := Prod.mk.inj h
    exact ⟨.refl b, ⟨0, Nat.le_refl _, fun _ => rfl, (NorArray.erase_zero _).symm⟩,
      fun _ h => h.resolve_left (Nat.lt_irrefl 0)⟩
  | succ fuel ih =>
    rw [norEraseLoop] at h
    by_cases hz : size = 0
    · subst hz
      rw [if_pos rfl] at h
      obtain ⟨rfl, rfl⟩ := Prod.mk.inj h
      exact ⟨.refl b, ⟨0, Nat.le_refl _, fun _ => rfl, (NorArray.erase_zero _).symm⟩,
        fun _ h => h.resolve_left (Nat.lt_irrefl 0)⟩
    rw [if_neg hz] at h
    cases hcmd : eraseCmdFor info addr size with
    | none =>
      simp only [hcmd, Prod.mk.injEq] at h
      obtain ⟨rfl, rfl⟩ := h
      exact ⟨.refl b, ⟨0, Nat.zero_le _, fun h => absurd h (by decide),
        (NorArray.erase_zero _).symm⟩, fun h => absurd h (by decide)⟩
    | some blk =>
      obtain ⟨hblk, hal⟩ := eraseCmdFor_some hcmd
      have hpos := blk.bytes_pos
      have hlt : addr < b.chip.size := by omega
      have hnext : u32 (addr + blk.bytes) = addr + blk.bytes :=
        u32_of_lt (Nat.lt_of_le_of_lt (by omega) hd.size_lt)
      have hleft : size - blk.bytes ≤ fuel := by omega
      have hle' : addr + blk.bytes + (size - blk.bytes) ≤ b.chip.size := by omega
      rcases h₁ : norEraseBy cfg busPort nor blk addr b with ⟨ret₁, b₁⟩
      obtain ⟨hk₁, hm₁, hz₁, -⟩ := norEraseBy_bus hu hd h₁
      rw [b.chip.decode_of_lt hlt hd.fits, erase_block hal] at hm₁
      simp only [hcmd, h₁, hnext] at h
      by_cases h0 : ret₁ = 0
      · simp only [h0, ne_eq, not_true_eq_false, if_false] at h
        obtain ⟨hk₂, ⟨k, hk, hkr, hm₂⟩, hz₂⟩ := ih (hk₁.drives hd) hleft (hk₁.size ▸ hle') h
        refine ⟨hk₁.trans hk₂, ⟨blk.bytes + k, ?_, fun hr => ?_, ?_⟩,
          fun hr _ => hz₂ hr (.inr (hz₁ h0))⟩
        · exact Nat.add_sub_cancel' hblk ▸ Nat.add_le_add_left hk _
        · exact (hkr hr).symm ▸ Nat.add_sub_cancel' hblk
        · rcases hm₁ with ⟨hn, -⟩ | hm₁
          · exact (hn h0).elim
          · rw [hm₂, hm₁, NorArray.erase_append]
      · simp only [h0, ne_eq, not_false_eq_true, if_true, Prod.mk.injEq] at h
        obtain ⟨rfl, rfl⟩ := h
        refine ⟨hk₁, ?_, fun h => (h0 h).elim⟩
        rcases hm₁ with ⟨-, hm₁⟩ | hm₁
        · exact ⟨0, Nat.zero_le _, fun h => (h0 h).elim, by rw [hm₁, NorArray.erase_zero]⟩
        · exact ⟨blk.bytes, hblk, fun h => (h0 h).elim, hm₁⟩

/-- The erase commands the flags give the driver. -/
def NorInfo.erasesBy (info : NorInfo) : EraseSize → Bool
  | .blk64K => info.has support64KEraseBlk && !info.has use4KErase
  | .blk32K => info.has support32KEraseBlk && !info.has use4KErase
  | .blk4K => info.has support4KEraseBlk

theorem eraseCmdFor_erasesBy (h : eraseCmdFor info addr size = some blk) :
    info.erasesBy blk = true := by
  unfold eraseCmdFor at h
  split at h
  case isTrue hg =>
    cases h
    simp only [NorInfo.erasesBy, hg.2.2.1, hg.2.2.2, Bool.true_and, Bool.not_false]
  case isFalse =>
    split at h
    case isTrue hg =>
      cases h
      simp only [NorInfo.erasesBy, hg.2.2.1, hg.2.2.2, Bool.true_and, Bool.not_false]
    case isFalse =>
      split at h
      case isTrue hg =>
        cases h
        exact hg.2.2
      case isFalse => cases h

/-- An aligned range that holds a block of a supported size always matches a command, and what
is left is again aligned. -/
theorem eraseCmdFor_of_erasesBy (hg : NorInfo.erasesBy info g) (ha : addr % g.bytes = 0)
    (hs : g.bytes ≤ size) :
    ∃ blk, eraseCmdFor info addr size = some blk ∧ blk.bytes % g.bytes = 0 := by
  unfold eraseCmdFor
  cases g with
  | blk64K =>
    simp only [NorInfo.erasesBy, Bool.and_eq_true, Bool.not_eq_true'] at hg
    rw [if_pos ⟨hs, ha, hg.1, by rw [hg.2]; decide⟩]
    exact ⟨_, rfl, rfl⟩
  | blk32K =>
    simp only [NorInfo.erasesBy, Bool.and_eq_true, Bool.not_eq_true'] at hg
    split
    · exact ⟨_, rfl, rfl⟩
    · rw [if_pos ⟨hs, ha, hg.1, by rw [hg.2]; decide⟩]
      exact ⟨_, rfl, rfl⟩
  | blk4K =>
    split
    · exact ⟨_, rfl, rfl⟩
    · split
      · exact ⟨_, rfl, rfl⟩
      · rw [if_pos ⟨hs, ha, hg⟩]
        exact ⟨_, rfl, rfl⟩

theorem EraseSize.mod_next (g : EraseSize) (ha : addr % g.bytes = 0)
    (hb : blk % g.bytes = 0) : u32 (addr + blk) % g.bytes = 0 := by
  cases g <;> simp only [EraseSize.bytes, sz64K, sz32K, sz4K, u32] at * <;> omega

theorem EraseSize.mod_left (g : EraseSize) (hs : size % g.bytes = 0) (hb : blk % g.bytes = 0) :
    (size - blk) % g.bytes = 0 := by
  cases g <;> simp only [EraseSize.bytes, sz64K, sz32K, sz4K] at * <;> omega

theorem norEraseLoop_ok {nor : Nor SpiBus} (hu : nor.Unlocks cfg)
    (hd : nor.toNorFlash.Drives b.chip) (hrel : b.Reliable) (hb : b.chip.busy = 0)
    (hg : NorInfo.erasesBy info g) (ha : addr % g.bytes = 0) (hs : size % g.bytes = 0)
    (hf : size ≤ fuel) (h : norEraseLoop cfg busPort nor info fuel addr size b = (ret, b')) :
    ret = 0 := by
  induction fuel generalizing addr size b with
  | zero =>
    have hz : size = 0 := Nat.le_zero.1 hf
    subst hz
    exact (Prod.mk.inj h).1.symm
  | succ fuel ih =>
    rw [norEraseLoop] at h
    by_cases hz : size = 0
    · rw [if_pos hz] at h
      exact (Prod.mk.inj h).1.symm
    rw [if_neg hz] at h
    have hfit : g.bytes ≤ size :=
      Nat.le_of_dvd (Nat.pos_of_ne_zero hz) (Nat.dvd_of_mod_eq_zero hs)
    obtain ⟨blk, hcmd, hmod⟩ := eraseCmdFor_of_erasesBy hg ha hfit
    have hleft : size - blk.bytes ≤ fuel := by
      have := blk.bytes_pos
      omega
    rcases h₁ : norEraseBy cfg busPort nor blk addr b with ⟨ret₁, b₁⟩
    obtain ⟨hk₁, -, hz₁, hr₁⟩ := norEraseBy_bus hu hd h₁
    have h0 := hr₁ hrel hb
    simp only [hcmd, h₁, h0, ne_eq, not_true_eq_false, if_false] at h
    exact ih (hk₁.drives hd) (hk₁.reliable hrel) (hz₁ h0) (g.mod_next ha hmod)
      (g.mod_left hs hmod) hleft h

theorem norEraseAll_bus {nor : Nor SpiBus} (hd : nor.toNorFlash.Drives b.chip)
    (h : norEraseAll cfg busPort nor b = (ret, b')) :
    b.Kept b' ∧
      (ret ≠ 0 ∧ b'.chip.mem = b.chip.mem ∨ b'.chip.mem = erase b.chip.mem 0 b.chip.size) ∧
      (ret = 0 → b'.chip.busy = 0) ∧ (b.Reliable → b.chip.busy = 0 → ret = 0) := by
  obtain ⟨info, hi⟩ := Option.isSome_iff_exists.1 hd.info
  rw [norEraseAll] at h
  have hs₀ := norRelock_still cfg b (fun _ _ => norWrUnlockAll_quiet)
  simp only [hi] at h
  generalize (if cfg.writeLock then (norWrUnlockAll busPort b).2 else b) = b₀ at h hs₀
  rcases h₁ : norWriteEnable busPort b₀ with ⟨ret₁, b₁⟩
  obtain ⟨hk₁, hm₁, -, hz₁, hr₁⟩ := norWriteEnable_bus h₁
  have hk := hs₀.toKept.trans hk₁
  rw [hs₀.mem] at hm₁
  simp only [h₁] at h
  by_cases h0 : ret₁ = 0
  · obtain ⟨hb₁, hw₁⟩ := hz₁ h0
    rcases h₂ : norSendCmd busPort norCmdEraseChip b₁ with ⟨ret₂, b₂⟩
    obtain ⟨hk₂, ⟨c, hcs, hm₂, -, -, hc₂⟩, hz₂, hr₂⟩ := norSendCmd_bus h₂
    have hm : b₂.chip.mem = b.chip.mem ∨ b₂.chip.mem = erase b.chip.mem 0 b.chip.size := by
      rcases hcs with rfl | rfl
      · exact .inl (hm₂.trans hm₁)
      · exact .inr (by rw [hm₂, b₁.chip.exec_eraseChip hb₁ hw₁, hm₁, hk.size])
    rw [if_neg (not_not.2 h0)] at h
    simp only [h₂] at h
    by_cases h02 : ret₂ = 0
    · rw [if_neg (not_not.2 h02)] at h
      rcases h₃ : norWaitReady busPort (26 * 1000) maxWaitLoop b₂ with ⟨ret₃, b₃⟩
      obtain ⟨hp₃, hz₃, hr₃⟩ := norWaitReady_bus h₃
      have hs := norRelock_still cfg b₃ (fun _ _ => norWrLockAll_quiet)
      simp only [h₃] at h
      obtain ⟨rfl, rfl⟩ := Prod.mk.inj h
      refine ⟨((hk.trans hk₂).trans hp₃.toKept).trans hs.toKept, .inr ?_,
        fun hr => hs.ready (hz₃ hr),
        fun hrel _ => hr₃ (hk₂.reliable (hk.reliable hrel)) (polls_maxWaitLoop _)⟩
      rw [hs.mem, hp₃.mem, hm₂, hc₂ h02, b₁.chip.exec_eraseChip hb₁ hw₁, hm₁, hk.size]
    · rw [if_pos h02] at h
      have hs := norRelock_still cfg b₂ (fun _ _ => norWrLockAll_quiet)
      obtain ⟨rfl, rfl⟩ := Prod.mk.inj h
      exact ⟨(hk.trans hk₂).trans hs.toKept,
        hm.imp (fun hm => ⟨h02, hs.mem.trans hm⟩) hs.mem.trans, fun h => (h02 h).elim,
        fun hrel _ => (h02 (hr₂ (hk.reliable hrel))).elim⟩
  · rw [if_pos h0] at h
    have hs := norRelock_still cfg b₁ (fun _ _ => norWrLockAll_quiet)
    simp only [if_pos h0] at h
    obtain ⟨rfl, rfl⟩ := Prod.mk.inj h
    exact ⟨hk.trans hs.toKept, .inl ⟨h0, hs.mem.trans hm₁⟩, fun h => (h0 h).elim,
      fun hrel hb => (h0 (hr₁ (hs₀.reliable hrel) (hs₀.ready hb))).elim⟩

theorem norErase_bus {nor : Nor SpiBus} (hu : nor.Unlocks cfg)
    (hd : nor.toNorFlash.Drives b.chip) (hle : addr + size ≤ b.chip.size)
    (h : norErase cfg busPort nor addr size b = (ret, b')) :
    b.Kept b' ∧
      (∃ k ≤ size, (ret = 0 → k = size) ∧ b'.chip.mem = erase b.chip.mem addr k) ∧
      (ret = 0 → 0 < size ∨ b.chip.busy = 0 → b'.chip.busy = 0) := by
  obtain ⟨info, hi⟩ := Option.isSome_iff_exists.1 hd.info
  have hsame : ret ≠ 0 → b' = b →
      b.Kept b' ∧
        (∃ k ≤ size, (ret = 0 → k = size) ∧ b'.chip.mem = erase b.chip.mem addr k) ∧
        (ret = 0 → 0 < size ∨ b.chip.busy = 0 → b'.chip.busy = 0) := by
    rintro hr rfl
    exact ⟨.refl b', ⟨0, Nat.zero_le _, fun h => (hr h).elim, (NorArray.erase_zero _).symm⟩,
      fun h => (hr h).elim⟩
  unfold norErase at h
  simp only [hi] at h
  by_cases h4K : size % sz4K ≠ 0
  · rw [if_pos h4K] at h
    obtain ⟨rfl, rfl⟩ := Prod.mk.inj h
    exact hsame (by decide) rfl
  rw [if_neg h4K] at h
  by_cases ht : u32 (addr + size) > nor.totalSize
  · rw [if_pos ht] at h
    obtain ⟨rfl, rfl⟩ := Prod.mk.inj h
    exact hsame (by decide) rfl
  rw [if_neg ht] at h
  by_cases hall : addr = 0 ∧ size = nor.totalSize
  · rw [if_pos hall] at h
    obtain ⟨hk, hm, hz, -⟩ := norEraseAll_bus hd h
    obtain ⟨rfl, rfl⟩ := hall
    refine ⟨hk, ?_, fun hr _ => hz hr⟩
    rcases hm with ⟨hr, hm⟩ | hm
    · exact ⟨0, Nat.zero_le _, fun h => (hr h).elim, by rw [hm, NorArray.erase_zero]⟩
    · exact ⟨_, Nat.le_refl _, fun _ => rfl, by rw [hm, hd.totalSize]⟩
  · rw [if_neg hall] at h
    exact norEraseLoop_bus hu hd (Nat.le_refl _) hle h

theorem norErase_ok {nor : Nor SpiBus} (hu : nor.Unlocks cfg)
    (hd : nor.toNorFlash.Drives b.chip) (hrel : b.Reliable) (hb : b.chip.busy = 0)
    (hi : nor.info = some info) (hg : info.erasesBy g) (ha : addr % g.bytes = 0)
    (hs : size % g.bytes = 0) (hle : addr + size ≤ b.chip.size)
    (h : norErase cfg busPort nor addr size b = (ret, b')) : ret = 0 := by
  have h4K : ¬ size % sz4K ≠ 0 := by
    cases g <;> simp only [EraseSize.bytes, sz64K, sz32K, sz4K] at * <;> omega
  have hsz := hd.size_lt
  have ht : ¬ u32 (addr + size) > nor.totalSize := by
    rw [u32_of_lt (Nat.lt_of_le_of_lt hle hsz), hd.totalSize]
    omega
  unfold norErase at h
  simp only [hi] at h
  rw [if_neg h4K, if_neg ht] at h
  by_cases hall : addr = 0 ∧ size = nor.totalSize
  · rw [if_pos hall] at h
    exact (norEraseAll_bus hd h).2.2.2 hrel hb
  · rw [if_neg hall] at h
    exact norEraseLoop_ok hu hd hrel hb hg ha hs (Nat.le_refl _) h

end D1Flash
