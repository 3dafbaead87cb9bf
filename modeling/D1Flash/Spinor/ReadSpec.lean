import D1Flash.Spinor.CommandSpec

namespace D1Flash
open NorArray (erase program slice)
set_option autoImplicit true

theorem norReadDo_bus {nor : Nor SpiBus} (hd : nor.toNorFlash.Drives b.chip)
    (h : norReadDo busPort nor addr len b = ((ret, rx), b')) :
    b.Kept b' ∧ b'.chip = b.chip ∧
      (ret = 0 → b.chip.busy = 0 → addr + len ≤ b.chip.size → rx = slice b.chip.mem addr len) ∧
      (b.Reliable → len ≤ norPageSize → ret = 0) := by
  unfold norReadDo at h
  by_cases hl : len > norPageSize
  · rw [if_pos hl] at h
    obtain ⟨hr, rfl⟩ := Prod.mk.inj h
    obtain ⟨rfl, rfl⟩ := Prod.mk.inj hr
    exact ⟨.refl b, rfl, fun h => absurd h (by decide), fun _ h => by omega⟩
  rw [if_neg hl] at h
  obtain ⟨bs, hcmd, ht⟩ := takeAddr_cmdAddr hd.width nor.cmdRead addr []
  rw [List.append_nil] at hcmd
  rw [hcmd] at h
  obtain ⟨hk, ⟨h0, hs⟩ | ⟨h0, hn, cut, hs⟩⟩ := norTransfer_bus h
  · have hread := b.chip.exec_read hd.cmdRead bs (bs.length + 1) len
    rw [← List.length_cons, List.take_length, hs] at hread
    refine ⟨hk, hread, fun _ hb hle => ?_, fun _ _ => h0⟩
    have hne : chipOp nor.cmdRead ≠ .status := by rw [hd.cmdRead]; nofun
    rw [b.chip.exec_idle hne hb, hd.cmdRead, b.chip.execIdle_read ht, Prod.mk.injEq] at hs
    rw [← hs.1, slice]
    apply List.map_congr_left
    intro j hj
    have hj := List.mem_range.1 hj
    have hlt : addr + j < b.chip.size := by omega
    have haddr : addr < 256 ^ nor.addrWidth :=
      Nat.lt_of_le_of_lt (Nat.le_add_right _ _) (Nat.lt_of_lt_of_le hlt hd.fits)
    rw [Nat.mod_eq_of_lt haddr, Nat.mod_eq_of_lt hlt]
  · exact ⟨hk, by rw [hs, b.chip.exec_read hd.cmdRead], fun h => (h0 h).elim,
      fun hrel _ => (hn hrel).elim⟩

theorem norReadLoop_bus {nor : Nor SpiBus} (hd : nor.toNorFlash.Drives b.chip)
    (ha : addr < 0x100000000) (hf : len ≤ fuel)
    (h : norReadLoop busPort nor fuel addr len ret₀ buf b = ((ret, d), b')) :
    b.Kept b' ∧ b'.chip = b.chip ∧
      (ret = 0 → b.chip.busy = 0 → addr + len ≤ b.chip.size →
        d = buf ++ slice b.chip.mem addr len) ∧
      (b.Reliable → (len = 0 → ret₀ = 0) → ret = 0) := by
  induction fuel generalizing addr len ret₀ buf b with
  | zero =>
    have hz : len = 0 := Nat.le_zero.1 hf
    subst hz
    obtain ⟨hr, rfl⟩ := Prod.mk.inj h
    obtain ⟨rfl, rfl⟩ := Prod.mk.inj hr
    exact ⟨.refl b, rfl, fun _ _ _ => (List.append_nil _).symm, fun _ h => h rfl⟩
  | succ fuel ih =>
    rw [norReadLoop] at h
    by_cases hz : len = 0
    · subst hz
      rw [if_pos rfl] at h
      obtain ⟨hr, rfl⟩ := Prod.mk.inj h
      obtain ⟨rfl, rfl⟩ := Prod.mk.inj hr
      exact ⟨.refl b, rfl, fun _ _ _ => (List.append_nil _).symm, fun _ h => h rfl⟩
    rw [if_neg hz, inPage_eq ha] at h
    have hmod : addr % norPageSize < norPageSize := Nat.mod_lt _ (by decide)
    generalize hw : min (norPageSize - addr % norPageSize) len = rlen at h
    have hrl : rlen ≤ len := by omega
    have hfit : rlen ≤ norPageSize := by omega
    have hleft : len - rlen ≤ fuel := by omega
    rcases h₁ : norReadDo busPort nor addr rlen b with ⟨⟨ret₁, rx⟩, b₁⟩
    obtain ⟨hk₁, hc₁, hs₁, hr₁⟩ := norReadDo_bus hd h₁
    simp only [h₁] at h
    by_cases h0 : ret₁ = 0
    · simp only [h0, ne_eq, not_true_eq_false, if_false] at h
      obtain ⟨hk₂, hc₂, hs₂, hr₂⟩ := ih (hk₁.drives hd) (u32_lt _) hleft h
      refine ⟨hk₁.trans hk₂, hc₂.trans hc₁, fun hr hb hle => ?_,
        fun hrel _ => hr₂ (hk₁.reliable hrel) fun _ => rfl⟩
      have hle₁ : addr + rlen ≤ b.chip.size := Nat.le_trans (Nat.add_le_add_left hrl _) hle
      have hnext : u32 (addr + rlen) = addr + rlen :=
        u32_of_lt (Nat.lt_of_le_of_lt hle₁ hd.size_lt)
      have hsum : rlen + (len - rlen) = len := Nat.add_sub_cancel' hrl
      rw [hc₁, hnext, Nat.add_assoc, hsum] at hs₂
      rw [hs₂ hr hb hle, hs₁ h0 hb hle₁, List.append_assoc, NorArray.slice_append, hsum]
    · simp only [h0, ne_eq, not_false_eq_true, if_true, Prod.mk.injEq] at h
      obtain ⟨⟨rfl, rfl⟩, rfl⟩ := h
      exact ⟨hk₁, hc₁, fun h => (h0 h).elim, fun hrel _ => (h0 (hr₁ hrel hfit)).elim⟩

theorem norRead_bus {nor : Nor SpiBus} (hd : nor.toNorFlash.Drives b.chip)
    (ha : addr < 0x100000000) (h : norRead busPort nor addr len b = ((ret, d), b')) :
    b.Polled b' ∧
      (ret = 0 → addr + len ≤ b.chip.size → d = slice b.chip.mem addr len) ∧
      (ret = 0 → b'.chip.busy = 0) ∧ (b.Reliable → 0 < len → ret = 0) := by
  obtain ⟨info, hi⟩ := Option.isSome_iff_exists.1 hd.info
  unfold norRead at h
  rcases h₁ : norWaitReady busPort 0 500 b with ⟨ret₁, b₁⟩
  obtain ⟨hp₁, hz₁, hr₁⟩ := norWaitReady_bus h₁
  simp only [hi, h₁] at h
  by_cases h0 : ret₁ = 0
  · simp only [h0, ne_eq, not_true_eq_false, if_false] at h
    obtain ⟨hk₂, hc₂, hs₂, hr₂⟩ := norReadLoop_bus (hp₁.drives hd) ha (Nat.le_refl _) h
    rw [hp₁.size, hp₁.mem, List.nil_append] at hs₂
    refine ⟨hp₁.trans ⟨hk₂, by rw [hc₂], by rw [hc₂], hc₂ ▸ Nat.le_refl _⟩, fun hr hle =>
      hs₂ hr (hz₁ h0) hle,
      fun _ => hc₂ ▸ hz₁ h0, fun hrel hpos => hr₂ (hp₁.reliable hrel) fun hz => ?_⟩
    exact (Nat.ne_of_gt hpos hz).elim
  · simp only [h0, ne_eq, not_false_eq_true, if_true, Prod.mk.injEq] at h
    obtain ⟨⟨rfl, rfl⟩, rfl⟩ := h
    exact ⟨hp₁, fun h => absurd h (by decide), fun h => absurd h (by decide),
      fun hrel _ => (h0 (hr₁ hrel (polls_zero _))).elim⟩

end D1Flash
