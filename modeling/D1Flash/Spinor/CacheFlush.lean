import D1Flash.Lib.Overlay
import D1Flash.Spinor.EraseRuns
import D1Flash.Spinor.FlashOps

namespace D1Flash
open BitRuns (IsRun exists_run mem_runs runs)
open NorArray (Overlay erase erased meet program slice)
set_option autoImplicit true

/-- The page and sector sizes of a chip that is used through the cache. -/
structure NorFlash.Geometry (nor : NorFlash) : Prop where
  page : nor.pageSize = norPageSize
  blk : nor.blkSize = sz4K ∨ nor.blkSize = sz32K ∨ nor.blkSize = sz64K

theorem NorFlash.Geometry.blk_pos {nor : NorFlash} (hg : nor.Geometry) : 0 < nor.blkSize := by
  rcases hg.blk with h | h | h <;> rw [h] <;> decide

namespace NorCache

/-- The cache as an overlay of the flash. -/
def overlay (c : NorCache) (nor : NorFlash) : Overlay Byte where
  buf i := if c.addr ≤ i then c.buf (i - c.addr) else 0xFF
  dirty i := decide (c.addr ≤ i) && c.bitmapPage ((i - c.addr) / norPageSize)
  pending i := decide (c.addr ≤ i) && c.bitmapBlk ((i - c.addr) / nor.blkSize)

/-- The window is a 64K block or there is none, and what is marked lies in it and in the flash. -/
structure Valid (c : NorCache) (nor : NorFlash) (size : Nat) : Prop where
  pageCnt : c.pageCnt = cacheSize / norPageSize
  blkCnt : c.blkCnt = cacheSize / nor.blkSize
  window : c.addr % cacheSize = 0 ∨
    c.addr = invalidCacheAddr ∧ (∀ p, c.bitmapPage p = false) ∧ ∀ b, c.bitmapBlk b = false
  page : ∀ p, c.bitmapPage p = true →
    p < c.pageCnt ∧ c.addr + (p + 1) * norPageSize ≤ size
  blk : ∀ b, c.bitmapBlk b = true → b < c.blkCnt ∧ c.addr + (b + 1) * nor.blkSize ≤ size

variable {c : NorCache} {nor : NorFlash}

theorem dirty_iff : (c.overlay nor).dirty i = true ↔
    c.addr ≤ i ∧ c.bitmapPage ((i - c.addr) / norPageSize) = true := by
  simp only [overlay, Bool.and_eq_true, decide_eq_true_eq]

theorem pending_iff : (c.overlay nor).pending i = true ↔
    c.addr ≤ i ∧ c.bitmapBlk ((i - c.addr) / nor.blkSize) = true := by
  simp only [overlay, Bool.and_eq_true, decide_eq_true_eq]

theorem Valid.dirty_lt (hv : c.Valid nor size) (h : (c.overlay nor).dirty i = true) :
    i < c.addr + cacheSize ∧ i < size := by
  obtain ⟨ha, hb⟩ := dirty_iff.1 h
  obtain ⟨hp, hs⟩ := hv.page _ hb
  rw [hv.pageCnt] at hp
  simp only [cacheSize, norPageSize, sz64K] at *
  omega

theorem Valid.pending_lt (hg : nor.Geometry) (hv : c.Valid nor size)
    (h : (c.overlay nor).pending i = true) : i < c.addr + cacheSize ∧ i < size := by
  obtain ⟨ha, hb⟩ := pending_iff.1 h
  obtain ⟨hp, hs⟩ := hv.blk _ hb
  rw [hv.blkCnt] at hp
  rcases hg.blk with h | h | h <;> rw [h] at hp hs <;>
    simp only [cacheSize, sz4K, sz32K, sz64K] at * <;> omega

theorem blk_mem (hpos : 0 < blk) :
    a + start * blk ≤ i ∧ i < a + start * blk + (stop - start) * blk ↔
      a ≤ i ∧ start ≤ (i - a) / blk ∧ (i - a) / blk < stop ∧ start ≤ stop := by
  rw [Nat.le_div_iff_mul_le hpos, Nat.div_lt_iff_lt_mul hpos, Nat.sub_mul]
  by_cases hss : start ≤ stop
  · have := Nat.mul_le_mul_right blk hss
    omega
  · have := Nat.mul_le_mul_right blk (Nat.le_of_not_le hss)
    omega

theorem page_mem : a + page * norPageSize ≤ i ∧ i < a + page * norPageSize + norPageSize ↔
    a ≤ i ∧ (i - a) / norPageSize = page := by
  simp only [norPageSize]
  omega

/-- A flush does not change what it is to leave, wherever it stops. -/
structure Kept (nor : NorFlash) (size : Nat) (c c' : NorCache) (m m' : Nat → Byte) : Prop where
  valid : c'.Valid nor size
  flushed : (c'.overlay nor).flushed m' = (c.overlay nor).flushed m
  programmable : (c.overlay nor).Programmable m → (c'.overlay nor).Programmable m'
  blank : ∀ i, (c.overlay nor).Blank m i → (c'.overlay nor).Blank m' i

theorem Kept.refl (hv : c.Valid nor size) (m : Nat → Byte) : Kept nor size c c m m :=
  ⟨hv, rfl, id, fun _ => id⟩

theorem Kept.trans (h : Kept nor size c c' m m') (h' : Kept nor size c' c'' m' m'') :
    Kept nor size c c'' m m'' :=
  ⟨h'.valid, h'.flushed.trans h.flushed, h'.programmable ∘ h.programmable,
    fun i hb => h'.blank i (h.blank i hb)⟩

end NorCache

variable {ops : NorOps σ} {nor : NorFlash} {c : NorCache} {mem : σ → Nat → Byte} {I : σ → Prop}

theorem norEraseRun_spec (hs : ops.Sound size mem I) (hg : nor.Geometry)
    (hv : c.Valid nor size) (hI : I s) (hrun : ∀ b, start ≤ b → b < stop → c.bitmapBlk b = true)
    (hlt : start < stop)
    (h : ops.norErase (c.getAddrByBlk nor start) (u32 ((stop - start) * nor.blkSize)) s =
      (ret, s')) :
    I s' ∧ (c.overlay nor).Erasing (mem s) (mem s') ∧
      (ret = 0 → ∀ i, (c.overlay nor).pending i = true → start ≤ (i - c.addr) / nor.blkSize →
        (i - c.addr) / nor.blkSize < stop → mem s' i = erased) := by
  have hpos := hg.blk_pos
  obtain ⟨-, hend⟩ := hv.blk (stop - 1) (hrun _ (by omega) (by omega))
  have hsum : start * nor.blkSize + (stop - start) * nor.blkSize = stop * nor.blkSize := by
    rw [← Nat.add_mul, Nat.add_sub_cancel' (Nat.le_of_lt hlt)]
  rw [Nat.sub_add_cancel (by omega)] at hend
  have hle : c.addr + start * nor.blkSize + (stop - start) * nor.blkSize ≤ size := by omega
  have hlim := hs.size_lt
  have haddr : c.getAddrByBlk nor start = c.addr + start * nor.blkSize := u32_of_lt (by omega)
  have hlen : u32 ((stop - start) * nor.blkSize) = (stop - start) * nor.blkSize :=
    u32_of_lt (by omega)
  rw [haddr, hlen] at h
  obtain ⟨hI', k, hk, hkr, hm⟩ := hs.erase hI hle h
  refine ⟨hI', ?_, ?_⟩
  · rw [hm]
    apply Overlay.erasing_erase
    intro i hi hi'
    have hlt : i < c.addr + start * nor.blkSize + (stop - start) * nor.blkSize :=
      Nat.lt_of_lt_of_le hi' (Nat.add_le_add_left hk _)
    obtain ⟨ha, hb, hb', -⟩ := (NorCache.blk_mem hpos).1 ⟨hi, hlt⟩
    exact NorCache.pending_iff.2 ⟨ha, hrun _ hb hb'⟩
  · intro h0 i hi hb hb'
    obtain ⟨hlo, hhi⟩ := (NorCache.blk_mem hpos).2
      ⟨(NorCache.pending_iff.1 hi).1, hb, hb', Nat.le_of_lt hlt⟩
    rw [hm, hkr h0]
    exact NorArray.erase_inside _ hlo hhi

theorem eraseEach_spec (hs : ops.Sound size mem I) (hg : nor.Geometry) (hv : c.Valid nor size)
    (hI : I s) (hrs : ∀ r ∈ rs, IsRun c.bitmapBlk c.blkCnt r)
    (h : eraseEach ops nor c rs s = (ret, s')) :
    I s' ∧ (c.overlay nor).Erasing (mem s) (mem s') ∧
      (ret = 0 → ∀ r ∈ rs, ∀ i, (c.overlay nor).pending i = true →
        r.1 ≤ (i - c.addr) / nor.blkSize → (i - c.addr) / nor.blkSize < r.2 →
          mem s' i = erased) := by
  induction rs generalizing s with
  | nil =>
    cases h
    exact ⟨hI, .refl _ _, fun _ _ hr => (List.not_mem_nil hr).elim⟩
  | cons r rs ih =>
    rw [eraseEach] at h
    have hr := hrs r List.mem_cons_self
    rcases h₁ : ops.norErase (c.getAddrByBlk nor r.1) (u32 ((r.2 - r.1) * nor.blkSize)) s
      with ⟨ret₁, s₁⟩
    obtain ⟨hI₁, he₁, hd₁⟩ := norEraseRun_spec hs hg hv hI hr.set hr.nonempty h₁
    simp only [h₁] at h
    by_cases h0 : ret₁ = 0
    · rw [if_neg (not_not.2 h0)] at h
      obtain ⟨hI', he, hd⟩ := ih hI₁ (fun q hq => hrs q (List.mem_cons_of_mem r hq)) h
      refine ⟨hI', he₁.trans he, fun hret q hq i hi hlo hhi => ?_⟩
      rcases List.mem_cons.1 hq with rfl | hq
      · exact he.erased (hd₁ h0 i hi hlo hhi)
      · exact hd hret q hq i hi hlo hhi
    · rw [if_pos h0] at h
      cases h
      exact ⟨hI₁, he₁, fun hret => (h0 hret).elim⟩

theorem NorCache.overlay_erasesDone (c : NorCache) (nor : NorFlash) :
    { c with bitmapBlk := fun _ => false }.overlay nor = (c.overlay nor).erasesDone := by
  simp only [NorCache.overlay, Overlay.erasesDone, Bool.and_false]

theorem NorCache.Valid.erasesDone (hv : c.Valid nor size) :
    { c with bitmapBlk := fun _ => false }.Valid nor size where
  pageCnt := hv.pageCnt
  blkCnt := hv.blkCnt
  window := hv.window.imp id fun h => ⟨h.1, h.2.1, fun _ => rfl⟩
  page := hv.page
  blk _ h := by cases h

/-- `nor_flush_erase` does all pending erases, or some and keeps them marked. -/
theorem norFlushErase_spec (hs : ops.Sound size mem I) (hg : nor.Geometry)
    (hv : c.Valid nor size) (hI : I s) (h : norFlushErase ops nor c s = (ret, c', s')) :
    I s' ∧ NorCache.Kept nor size c c' (mem s) (mem s') ∧
      (ret ≠ 0 ∧ c' = c ∨ ret = 0 ∧ c' = { c with bitmapBlk := fun _ => false } ∧
        mem s' = (c.overlay nor).base (mem s)) := by
  rw [norFlushErase] at h
  rcases h₁ : norFlushEraseLoop ops nor c c.blkCnt 0 0 s with ⟨ret₁, s₁⟩
  have hruns : eraseEach ops nor c (runs c.bitmapBlk c.blkCnt) s = (ret₁, s₁) :=
    (norFlushEraseLoop_eq_eraseEach ops nor c).symm.trans h₁
  obtain ⟨hI₁, he, hd⟩ := eraseEach_spec hs hg hv hI (fun _ hr => mem_runs.1 hr) hruns
  simp only [h₁] at h
  by_cases h0 : ret₁ = 0
  · rw [if_neg (not_not.2 h0)] at h
    simp only [Prod.mk.injEq] at h
    obtain ⟨rfl, rfl, rfl⟩ := h
    have hdone : ∀ i, (c.overlay nor).pending i = true → mem s₁ i = erased := by
      intro i hi
      have hbit := (NorCache.pending_iff.1 hi).2
      obtain ⟨r, hr, hlo, hhi⟩ := exists_run hbit (hv.blk _ hbit).1
      exact hd h0 r hr i hi hlo hhi
    obtain ⟨hm, hf⟩ := he.done hdone
    rw [← NorCache.overlay_erasesDone] at hf
    refine ⟨hI₁, ⟨hv.erasesDone, hf, ?_, fun _ => he.blank⟩, .inr ⟨rfl, rfl, hm⟩⟩
    intro hp
    exact hp.of_flushed hf rfl rfl
  · rw [if_pos h0] at h
    simp only [Prod.mk.injEq] at h
    obtain ⟨rfl, rfl, rfl⟩ := h
    refine ⟨hI₁, ⟨hv, he.flushed, ?_, fun _ => he.blank⟩, .inl ⟨h0, rfl⟩⟩
    intro hp
    exact hp.of_flushed he.flushed rfl rfl

theorem NorCache.slice_overlay (c : NorCache) (nor : NorFlash) :
    slice (c.overlay nor).buf (c.addr + off) n = slice c.buf off n := by
  apply List.map_congr_left
  intro j _
  have hj : c.addr + off + j - c.addr = off + j := by omega
  exact (if_pos (by omega)).trans (congrArg c.buf hj)

theorem norWritePage_spec (hs : ops.Sound size mem I) (hg : nor.Geometry)
    (hv : c.Valid nor size) (hI : I s) (hbit : c.bitmapPage page = true)
    (h : ops.norWrite (c.getAddrByPage nor page)
      (slice c.buf (page * nor.pageSize) nor.pageSize) s = (ret, s')) :
    I s' ∧ (c.overlay nor).Writing (mem s) (mem s') ∧
      (ret = 0 → ∀ i, c.addr ≤ i → (i - c.addr) / norPageSize = page →
        mem s' i = meet (mem s i) ((c.overlay nor).buf i)) := by
  obtain ⟨-, hend⟩ := hv.page page hbit
  rw [Nat.succ_mul] at hend
  have hlt : c.addr + page * norPageSize < 0x100000000 := by
    have := hs.size_lt
    omega
  have haddr : c.getAddrByPage nor page = c.addr + page * norPageSize := by
    rw [NorCache.getAddrByPage, hg.page, u32_of_lt hlt]
  rw [haddr, hg.page, ← c.slice_overlay nor] at h
  generalize hd : slice (c.overlay nor).buf (c.addr + page * norPageSize) norPageSize = d at h
  have hlen : d.length = norPageSize := by
    rw [← hd, NorArray.slice_length]
  obtain ⟨hI', k, hk, hkr, hm⟩ := hs.write hI (by rw [hlen, Nat.add_assoc]; exact hend) hlt h
  rw [hlen] at hk hkr
  refine ⟨hI', ?_, ?_⟩
  · rw [hm, ← hd]
    apply Overlay.writing_program _ _ hk
    intro i hi hi'
    obtain ⟨ha, hpage⟩ := NorCache.page_mem.1 ⟨hi, hi'⟩
    exact NorCache.dirty_iff.2 ⟨ha, hpage.symm ▸ hbit⟩
  · intro h0 i hi hpage
    obtain ⟨hlo, hhi⟩ := NorCache.page_mem.2 ⟨hi, hpage⟩
    rw [hm, hkr h0, List.take_of_length_le (Nat.le_of_eq hlen), ← hd]
    exact Overlay.program_slice _ _ hlo hhi

theorem norFlushWriteLoop_spec (hs : ops.Sound size mem I) (hg : nor.Geometry)
    (hv : c.Valid nor size) (hI : I s) (hn : n ≤ c.pageCnt)
    (h : norFlushWriteLoop ops nor c n s = (ret, s')) :
    I s' ∧ (c.overlay nor).Writing (mem s) (mem s') ∧
      (ret = 0 → ∀ j i, c.pageCnt - n ≤ j → j < c.pageCnt → (c.overlay nor).dirty i = true →
        (i - c.addr) / norPageSize = (j + c.lastWrite + 1) % c.pageCnt →
        mem s' i = meet (mem s i) ((c.overlay nor).buf i)) := by
  induction n generalizing s with
  | zero =>
    obtain ⟨rfl, rfl⟩ := Prod.mk.inj h
    refine ⟨hI, .refl _ _, ?_⟩
    intro _ j _ hj hj'
    omega
  | succ n ih =>
    rw [norFlushWriteLoop] at h
    dsimp only at h
    generalize hpg : (c.pageCnt - (n + 1) + c.lastWrite + 1) % c.pageCnt = page at h
    cases hbit : c.bitmapPage page with
    | true =>
      rw [if_pos hbit] at h
      rcases h₁ : ops.norWrite (c.getAddrByPage nor page)
        (slice c.buf (page * nor.pageSize) nor.pageSize) s with ⟨ret₁, s₁⟩
      obtain ⟨hI₁, hw₁, hd₁⟩ := norWritePage_spec hs hg hv hI hbit h₁
      simp only [h₁] at h
      by_cases h0 : ret₁ = 0
      · rw [if_neg (not_not.2 h0)] at h
        obtain ⟨hI', hw, hd⟩ := ih hI₁ (by omega) h
        refine ⟨hI', hw₁.trans hw, ?_⟩
        intro hr j i hj hj' hi hpage
        by_cases hjn : j = c.pageCnt - (n + 1)
        · rw [hjn, hpg] at hpage
          exact hw.programmed (hd₁ h0 i (NorCache.dirty_iff.1 hi).1 hpage)
        · rw [hd hr j i (by omega) hj' hi hpage]
          cases hw₁ i with
          | inl hm => rw [hm]
          | inr hm => rw [hm.2, Overlay.meet_meet_self]
      · rw [if_pos h0] at h
        obtain ⟨rfl, rfl⟩ := Prod.mk.inj h
        exact ⟨hI₁, hw₁, fun h => (h0 h).elim⟩
    | false =>
      rw [if_neg (by rw [hbit]; decide)] at h
      obtain ⟨hI', hw, hd⟩ := ih hI (by omega) h
      refine ⟨hI', hw, ?_⟩
      intro hr j i hj hj' hi hpage
      by_cases hjn : j = c.pageCnt - (n + 1)
      · have := (NorCache.dirty_iff.1 hi).2
        rw [hpage, hjn, hpg, hbit] at this
        cases this
      · exact hd hr j i (by omega) hj' hi hpage

theorem NorCache.overlay_clean (hp : ∀ p, c.bitmapPage p = false)
    (hb : ∀ b, c.bitmapBlk b = false) : (c.overlay nor).Clean := by
  intro i
  constructor
  · simp only [NorCache.overlay, hp, Bool.and_false]
  · simp only [NorCache.overlay, hb, Bool.and_false]

theorem NorCache.Valid.clean (hv : c.Valid nor size) (hp : ∀ p, c.bitmapPage p = false)
    (hb : ∀ b, c.bitmapBlk b = false) (buf : Nat → Byte)
    (ha : a % cacheSize = 0 ∨ a = invalidCacheAddr) :
    { c with buf := buf, addr := a }.Valid nor size where
  pageCnt := hv.pageCnt
  blkCnt := hv.blkCnt
  window := ha.imp id fun h => ⟨h, hp, hb⟩
  page p h := by
    rw [hp p] at h
    cases h
  blk b h := by
    rw [hb b] at h
    cases h

/-- Every page comes up in a round of the write loop. -/
theorem page_round (lastWrite : Nat) (h : p < 256) : ∃ j < 256, p = (j + lastWrite + 1) % 256 := by
  refine ⟨(p + 256 - (lastWrite + 1) % 256) % 256, ?_, ?_⟩ <;> omega

/-- `nor_flush_write` after the erases writes all dirty pages back, or some and keeps them
marked. -/
theorem norFlushWrite_spec (hs : ops.Sound size mem I) (hg : nor.Geometry)
    (hv : c.Valid nor size) (hb : ∀ b, c.bitmapBlk b = false) (hI : I s)
    (h : norFlushWrite ops nor c s = (ret, c', s')) :
    I s' ∧ NorCache.Kept nor size c c' (mem s) (mem s') ∧
      (ret ≠ 0 ∧ c' = c ∨ ret = 0 ∧ c' = { c with bitmapPage := fun _ => false } ∧
        mem s' = (c.overlay nor).flushed (mem s)) := by
  rw [norFlushWrite] at h
  rcases h₁ : norFlushWriteLoop ops nor c c.pageCnt s with ⟨ret₁, s₁⟩
  obtain ⟨hI₁, hw, hd⟩ := norFlushWriteLoop_spec hs hg hv hI (Nat.le_refl _) h₁
  have hp : ∀ i, (c.overlay nor).pending i = false := by
    intro i
    simp only [NorCache.overlay, hb, Bool.and_false]
  simp only [h₁] at h
  by_cases h0 : ret₁ = 0
  · rw [if_neg (not_not.2 h0)] at h
    simp only [Prod.mk.injEq] at h
    obtain ⟨rfl, rfl, rfl⟩ := h
    have hm : mem s₁ = (c.overlay nor).flushed (mem s) := by
      apply hw.done hp
      intro i hi
      have hcnt : c.pageCnt = 256 := hv.pageCnt
      obtain ⟨j, hj, hpage⟩ := page_round c.lastWrite
        (hcnt ▸ (hv.page _ (NorCache.dirty_iff.1 hi).2).1)
      refine hd h0 j i (by omega) (by omega) hi ?_
      rw [hcnt]
      exact hpage
    have hclean : ({ c with bitmapPage := fun _ => false }.overlay nor).Clean :=
      NorCache.overlay_clean (fun _ => rfl) hb
    refine ⟨hI₁, ⟨⟨hv.pageCnt, hv.blkCnt, ?_, nofun, hv.blk⟩, ?_, fun _ => hclean.programmable _,
      fun _ hb => hclean.blank (hw.blank hb).1⟩, .inr ⟨rfl, rfl, hm⟩⟩
    · exact hv.window.imp id fun h => ⟨h.1, fun _ => rfl, h.2.2⟩
    · rw [hclean.flushed, hm]
  · rw [if_pos h0] at h
    simp only [Prod.mk.injEq] at h
    obtain ⟨rfl, rfl, rfl⟩ := h
    refine ⟨hI₁, ⟨hv, hw.flushed hp, ?_, fun _ => hw.blank⟩, .inl ⟨h0, rfl⟩⟩
    intro hpr
    exact hpr.of_flushed (hw.flushed hp) rfl rfl

/-- `nor_flush_cache` keeps what it is to leave, and a flush that returns 0 has left it. -/
theorem norFlushCache_spec (hs : ops.Sound size mem I) (hg : nor.Geometry)
    (hv : c.Valid nor size) (hI : I s) (h : norFlushCache ops nor c s = (ret, c', s')) :
    I s' ∧ NorCache.Kept nor size c c' (mem s) (mem s') ∧
      (ret = 0 → c'.addr = invalidCacheAddr ∧ (c'.overlay nor).Clean ∧
        mem s' = (c.overlay nor).flushed (mem s)) := by
  rw [norFlushCache] at h
  by_cases ha : c.addr = invalidCacheAddr
  · rw [if_pos ha] at h
    simp only [Prod.mk.injEq] at h
    obtain ⟨rfl, rfl, rfl⟩ := h
    refine ⟨hI, .refl hv _, ?_⟩
    intro _
    rcases hv.window with hw | ⟨-, hp, hb⟩
    · rw [ha] at hw
      exact absurd hw (by decide)
    · have hclean : (c.overlay nor).Clean := NorCache.overlay_clean hp hb
      exact ⟨ha, hclean, (hclean.flushed _).symm⟩
  rw [if_neg ha] at h
  rcases h₁ : norFlushErase ops nor c s with ⟨ret₁, c₁, s₁⟩
  obtain ⟨hI₁, hk₁, hr₁⟩ := norFlushErase_spec hs hg hv hI h₁
  simp only [h₁] at h
  rcases hr₁ with ⟨h0, rfl⟩ | ⟨rfl, rfl, hm₁⟩
  · rw [if_pos h0] at h
    simp only [Prod.mk.injEq] at h
    obtain ⟨rfl, rfl, rfl⟩ := h
    exact ⟨hI₁, hk₁, fun h => (h0 h).elim⟩
  rw [if_neg (not_not.2 rfl)] at h
  rcases h₂ : norFlushWrite ops nor { c with bitmapBlk := fun _ => false } s₁ with ⟨ret₂, c₂, s₂⟩
  obtain ⟨hI₂, hk₂, hr₂⟩ := norFlushWrite_spec hs hg hk₁.valid (fun _ => rfl) hI₁ h₂
  simp only [h₂] at h
  rcases hr₂ with ⟨h0, rfl⟩ | ⟨rfl, rfl, hm₂⟩
  · rw [if_pos h0] at h
    simp only [Prod.mk.injEq] at h
    obtain ⟨rfl, rfl, rfl⟩ := h
    exact ⟨hI₂, hk₁.trans hk₂, fun h => (h0 h).elim⟩
  rw [if_neg (not_not.2 rfl)] at h
  simp only [Prod.mk.injEq] at h
  obtain ⟨rfl, rfl, rfl⟩ := h
  have hm := hm₂.trans hk₁.flushed
  have hclean : ((NorCache.clearCache
      { c with bitmapBlk := fun _ => false, bitmapPage := fun _ => false }).overlay nor).Clean :=
    NorCache.overlay_clean (fun _ => rfl) fun _ => rfl
  refine ⟨hI₂, ⟨hk₂.valid.clean (fun _ => rfl) (fun _ => rfl) _ (.inr rfl), ?_,
    fun _ => hclean.programmable _, fun i hb => hclean.blank ((hk₁.trans hk₂).blank i hb).1⟩,
    fun _ => ⟨rfl, hclean, hm⟩⟩
  rw [hclean.flushed, hm]

end D1Flash
