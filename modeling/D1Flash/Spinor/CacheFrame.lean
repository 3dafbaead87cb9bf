import D1Flash.Spinor.CacheStep

namespace D1Flash
open NorArray (Overlay erased meet)
open NorArray.Overlay (Frame)
set_option autoImplicit true

variable {ops : NorOps σ} {nor : NorFlash} {c : NorCache} {mem : σ → Nat → Byte} {I : σ → Prop}

theorem NorCache.Kept.frame {m m' : Nat → Byte} (h : NorCache.Kept nor size c c' m m') (i : Nat) :
    Frame (c.overlay nor) (c'.overlay nor) m m' i :=
  ⟨congrFun h.flushed i, h.blank i⟩

/-- The data of a program meets a cell the same way with or without what is held there. -/
def OnlyClears (o : Overlay Byte) (m : Nat → Byte) (i : Nat) (x : Byte) : Prop :=
  o.dirty i = true → meet (o.flushed m i) x = meet (o.base m i) x

/-- What a cached write of any range leaves alone, and what a flush then leaves of its range. -/
theorem norCacheWrite_frame (hs : ops.Sound size mem I) (hg : nor.Geometry)
    (hv : c.Valid nor size) (hI : I s) (hle : addr + buf.length ≤ size)
    (h : norCacheWrite ops nor addr buf c s = (ret, c', s')) :
    I s' ∧ c'.Valid nor size ∧
      (∀ i, ¬ (addr ≤ i ∧ i < addr + buf.length) →
        Frame (c.overlay nor) (c'.overlay nor) (mem s) (mem s') i) ∧
      (ret = 0 → ∀ i, addr ≤ i → i < addr + buf.length →
        OnlyClears (c.overlay nor) (mem s) i (buf.getD (i - addr) erased) →
        (c'.overlay nor).flushed (mem s') i =
          meet ((c.overlay nor).flushed (mem s) i) (buf.getD (i - addr) erased)) := by
  have hsame : ret ≠ 0 → c' = c → s' = s → I s' ∧ c'.Valid nor size ∧
      (∀ i, ¬ (addr ≤ i ∧ i < addr + buf.length) →
        Frame (c.overlay nor) (c'.overlay nor) (mem s) (mem s') i) ∧
      (ret = 0 → ∀ i, addr ≤ i → i < addr + buf.length →
        OnlyClears (c.overlay nor) (mem s) i (buf.getD (i - addr) erased) →
        (c'.overlay nor).flushed (mem s') i =
          meet ((c.overlay nor).flushed (mem s) i) (buf.getD (i - addr) erased)) := by
    rintro hr rfl rfl
    exact ⟨hI, hv, fun i _ => (NorCache.Kept.refl hv _).frame i, fun h => (hr h).elim⟩
  by_cases ha : addr % norPageSize = 0
  swap
  · rw [norCacheWrite, hg.page, if_pos ha] at h
    simp only [Prod.mk.injEq] at h
    obtain ⟨rfl, rfl, rfl⟩ := h
    exact hsame (by decide) rfl rfl
  by_cases hlen : buf.length % norPageSize = 0
  swap
  · rw [norCacheWrite, hg.page, if_neg (not_not.2 ha), if_pos hlen] at h
    simp only [Prod.mk.injEq] at h
    obtain ⟨rfl, rfl, rfl⟩ := h
    exact hsame (by decide) rfl rfl
  obtain ⟨hI', hv', hr⟩ := norCacheWrite_spec hs hg hv hI ha hlen hle h
  refine ⟨hI', hv', ?_⟩
  rcases hr with ⟨hclean, k, hk, hkr, hm⟩ | ⟨c₁, hkept, ⟨h0, rfl⟩ | ⟨rfl, hc₁, ho⟩⟩
  · constructor
    · intro i hi
      apply hclean.frame
      rw [hm, NorArray.program_outside _ (by rw [List.length_take]; omega)]
    · intro h0 i hi hi' _
      rw [hclean.flushed, hm, hkr h0, List.take_length, NorArray.program_inside _ hi]
  · exact ⟨fun i _ => hkept.frame i, fun h => (h0 h).elim⟩
  · rw [ho]
    constructor
    · intro i hi
      exact (hkept.frame i).trans (Overlay.write_frame _ _ hi)
    · intro _ i hi hi' hclears
      rw [Overlay.flushed_write_inside _ _ hi hi']
      rcases hc₁ with ⟨rfl, hm⟩ | hclean
      · rw [hm]
        cases hd : (c₁.overlay nor).dirty i with
        | true => exact (hclears hd).symm
        | false => rw [Overlay.flushed_of_not_dirty _ _ hd]
      · rw [Overlay.base_of_not_pending _ _ (hclean i).2, ← hkept.flushed, hclean.flushed]

/-- What a cached erase of any range leaves alone, and what a flush then leaves of its range. -/
theorem norCacheErase_frame (hs : ops.Sound size mem I) (hg : nor.Geometry)
    (hv : c.Valid nor size) (hI : I s) (hle : addr + len ≤ size)
    (h : norCacheErase ops nor addr len c s = (ret, c', s')) :
    I s' ∧ c'.Valid nor size ∧
      (∀ i, ¬ (addr ≤ i ∧ i < addr + len) →
        Frame (c.overlay nor) (c'.overlay nor) (mem s) (mem s') i) ∧
      (∀ i, (c.overlay nor).Blank (mem s) i → (c'.overlay nor).Blank (mem s') i) ∧
      (ret = 0 → ∀ i, addr ≤ i → i < addr + len →
        ((c.overlay nor).dirty i = true → (c.overlay nor).buf i = erased) →
        (c'.overlay nor).flushed (mem s') i = erased) := by
  have hsame : ret ≠ 0 → c' = c → s' = s → I s' ∧ c'.Valid nor size ∧
      (∀ i, ¬ (addr ≤ i ∧ i < addr + len) →
        Frame (c.overlay nor) (c'.overlay nor) (mem s) (mem s') i) ∧
      (∀ i, (c.overlay nor).Blank (mem s) i → (c'.overlay nor).Blank (mem s') i) ∧
      (ret = 0 → ∀ i, addr ≤ i → i < addr + len →
        ((c.overlay nor).dirty i = true → (c.overlay nor).buf i = erased) →
        (c'.overlay nor).flushed (mem s') i = erased) := by
    rintro hr rfl rfl
    exact ⟨hI, hv, fun i _ => (NorCache.Kept.refl hv _).frame i, fun _ => id,
      fun h => (hr h).elim⟩
  by_cases ha : addr % nor.blkSize = 0
  swap
  · rw [norCacheErase, if_pos ha] at h
    simp only [Prod.mk.injEq] at h
    obtain ⟨rfl, rfl, rfl⟩ := h
    exact hsame (by decide) rfl rfl
  by_cases hlen : len % nor.blkSize = 0
  swap
  · rw [norCacheErase, if_neg (not_not.2 ha), if_pos hlen] at h
    simp only [Prod.mk.injEq] at h
    obtain ⟨rfl, rfl, rfl⟩ := h
    exact hsame (by decide) rfl rfl
  obtain ⟨hI', hv', hr⟩ := norCacheErase_spec hs hg hv hI ha hlen hle h
  refine ⟨hI', hv', ?_⟩
  rcases hr with ⟨m₁, hkept, hnone, hd, hb, k, hk, hkr, hm⟩ |
    ⟨c₁, hkept, ⟨h0, rfl⟩ | ⟨rfl, hc₁, ho⟩⟩
  · rw [hm]
    refine ⟨?_, fun i hbl => Overlay.erase_below_blank (hkept.blank i hbl), ?_⟩
    · intro i hi
      exact (hkept.frame i).trans (Overlay.erase_below_frame _ _ (by omega))
    · intro h0 i hi hi' hdirty
      rw [← hd, ← hb] at hdirty
      exact (Overlay.blank_of_erase_below m₁ hi (hkr h0 ▸ hi') hdirty).flushed
  · exact ⟨fun i _ => hkept.frame i, hkept.blank, fun h => (h0 h).elim⟩
  · rw [ho]
    refine ⟨?_, fun i hbl => Overlay.erase_blank (hkept.blank i hbl), ?_⟩
    · intro i hi
      exact (hkept.frame i).trans (Overlay.erase_frame _ _ hi)
    · intro _ i hi hi' hdirty
      apply Overlay.flushed_erase_inside _ hi hi'
      intro hd
      rcases hc₁ with ⟨rfl, -⟩ | hclean
      · exact hdirty hd
      · rw [(hclean i).1] at hd
        cases hd

theorem norCacheRead_blank (hs : ops.Sound size mem I) (hg : nor.Geometry)
    (hv : c.Valid nor size) (hI : I s) (hle : addr + len ≤ size)
    (h : norCacheRead ops nor addr len c s = ((ret, d), c', s')) :
    I s' ∧ NorCache.Kept nor size c c' (mem s) (mem s') ∧
      (ret = 0 → d.length = len ∧ ∀ j (hj : j < d.length),
        (c.overlay nor).Blank (mem s) (addr + j) → d[j] = erased) := by
  by_cases ha : addr % norPageSize = 0
  swap
  · rw [norCacheRead, hg.page, if_pos ha] at h
    simp only [Prod.mk.injEq] at h
    obtain ⟨⟨rfl, -⟩, rfl, rfl⟩ := h
    exact ⟨hI, .refl hv _, fun h => absurd h (by decide)⟩
  by_cases hlen : len % norPageSize = 0
  swap
  · rw [norCacheRead, hg.page, if_neg (not_not.2 ha), if_pos hlen] at h
    simp only [Prod.mk.injEq] at h
    obtain ⟨⟨rfl, -⟩, rfl, rfl⟩ := h
    exact ⟨hI, .refl hv _, fun h => absurd h (by decide)⟩
  obtain ⟨hI', hk, hd⟩ := norCacheRead_spec hs hg hv hI ha hlen hle h
  refine ⟨hI', hk, ?_⟩
  intro h0
  obtain ⟨hl, hmatch⟩ := hd h0
  refine ⟨hl, ?_⟩
  intro j hj hb
  rw [hmatch j hj (.inr fun _ => .inr hb.1)]
  exact (hk.blank _ hb).view

theorem norCacheSync_spec (hs : ops.Sound size mem I) (hg : nor.Geometry)
    (hv : c.Valid nor size) (hI : I s) (h : norCacheSync ops nor c s = (ret, c', s')) :
    I s' ∧ NorCache.Kept nor size c c' (mem s) (mem s') ∧
      (ret = 0 → (c'.overlay nor).Clean ∧ mem s' = (c.overlay nor).flushed (mem s)) := by
  rw [norCacheSync] at h
  rcases h₁ : norFlushCache ops nor c s with ⟨ret₁, c₁, s₁⟩
  obtain ⟨hI₁, hk, hd⟩ := norFlushCache_spec hs hg hv hI h₁
  simp only [h₁, Prod.mk.injEq] at h
  obtain ⟨rfl, rfl, rfl⟩ := h
  refine ⟨hI₁, hk, ?_⟩
  intro h0
  by_cases hr : ret₁ = 0
  · exact (hd hr).2
  · rw [if_pos hr] at h0
    exact absurd h0 (by decide)

end D1Flash
