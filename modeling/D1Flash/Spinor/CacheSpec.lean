import D1Flash.Spinor.CacheFlush

namespace D1Flash
open NorArray (Overlay erase erased program put slice)
set_option autoImplicit true

variable {ops : NorOps σ} {nor : NorFlash} {c : NorCache} {mem : σ → Nat → Byte} {I : σ → Prop}

theorem overCache_iff (ha : addr < 0x100000000) :
    overCache addr len = true ↔ cacheSize < addr % cacheSize + len := by
  simp only [overCache, alignDown_64K ha, Bool.or_eq_true, decide_eq_true_eq, u32Sub, u32,
    cacheSize, sz64K]
  omega

theorem checkCacheAddr_hit (ha : addr < 0x100000000) (h : c.checkCacheAddr addr len = 0) :
    c.addr = addr / cacheSize * cacheSize := by
  rw [NorCache.checkCacheAddr, alignDown_64K ha] at h
  by_cases h₁ : c.addr = invalidCacheAddr
  · rw [if_pos h₁] at h
    cases h
  rw [if_neg h₁] at h
  by_cases h₂ : addr / sz64K * sz64K ≠ c.addr
  · rw [if_pos h₂] at h
    cases h
  · exact (not_not.1 h₂).symm

theorem checkCacheAddr_miss (hpos : 0 < len) (hlt : addr + len < 0x100000000)
    (hin : addr % cacheSize + len ≤ cacheSize) (h : c.checkCacheAddr addr len ≠ 0) :
    c.addr ≠ addr / cacheSize * cacheSize := by
  intro hc
  apply h
  have hsub : u32Sub (u32 (addr + len)) 1 = addr + len - 1 := by
    simp only [u32Sub, u32]
    omega
  rw [NorCache.checkCacheAddr, alignDown_64K (by omega), hsub, alignDown_64K (by omega)]
  simp only [cacheSize, sz64K, invalidCacheAddr] at *
  rw [if_neg (by omega), if_neg (by omega), if_neg (by omega)]

/-- A request for a window leaves the cache on it, or an error. -/
theorem norCacheMove_spec (hs : ops.Sound size mem I) (hg : nor.Geometry)
    (hv : c.Valid nor size) (hI : I s) (ha : addr < 0x100000000)
    (h : norCacheMove ops nor addr len c s = (ret, c', s')) :
    I s' ∧ NorCache.Kept nor size c c' (mem s) (mem s') ∧
      (ret = 0 → c'.addr = addr / cacheSize * cacheSize ∧
        (c' = c ∧ mem s' = mem s ∨ (c'.overlay nor).Clean)) := by
  rw [norCacheMove] at h
  by_cases hc : c.checkCacheAddr addr len = 0
  · rw [if_neg (not_not.2 hc)] at h
    simp only [Prod.mk.injEq] at h
    obtain ⟨rfl, rfl, rfl⟩ := h
    exact ⟨hI, .refl hv _, fun _ => ⟨checkCacheAddr_hit ha hc, .inl ⟨rfl, rfl⟩⟩⟩
  rw [if_pos hc] at h
  rcases h₁ : norFlushCache ops nor c s with ⟨ret₁, c₁, s₁⟩
  obtain ⟨hI₁, hk₁, hd₁⟩ := norFlushCache_spec hs hg hv hI h₁
  simp only [h₁] at h
  by_cases h0 : ret₁ = 0
  · rw [if_neg (not_not.2 h0)] at h
    simp only [Prod.mk.injEq] at h
    obtain ⟨rfl, rfl, rfl⟩ := h
    obtain ⟨hinv, -, hm⟩ := hd₁ h0
    have haddr : (c₁.setCacheAddr addr).addr = addr / cacheSize * cacheSize := alignDown_64K ha
    rcases hk₁.valid.window with hw | ⟨-, hp, hb⟩
    · rw [hinv] at hw
      exact absurd hw (by decide)
    have hclean : ((c₁.setCacheAddr addr).overlay nor).Clean := NorCache.overlay_clean hp hb
    refine ⟨hI₁, ⟨hk₁.valid.clean hp hb _ (.inl ?_), ?_, fun _ => hclean.programmable _,
      fun i hb => hclean.blank (hk₁.blank i hb).1⟩,
      fun _ => ⟨haddr, .inr hclean⟩⟩
    · rw [alignDown_64K ha]
      exact Nat.mul_mod_left _ _
    · rw [hclean.flushed, hm]
  · rw [if_pos h0] at h
    simp only [Prod.mk.injEq] at h
    obtain ⟨rfl, rfl, rfl⟩ := h
    exact ⟨hI₁, hk₁, fun h => (h0 h).elim⟩

/-- The cache with whole pages of data stored from a page on. -/
def NorCache.stored (c : NorCache) (page off : Nat) (data : List Byte) : NorCache :=
  { c with
    buf := put c.buf off data
    bitmapPage := fun p =>
      c.bitmapPage p || decide (page ≤ p ∧ p < page + data.length / norPageSize)
    lastWrite := if data.length = 0 then c.lastWrite else page + data.length / norPageSize - 1 }

theorem NorCache.stored_nil (c : NorCache) (page off : Nat) : c.stored page off [] = c := by
  have hno : ∀ p, decide (page ≤ p ∧ p < page + 0 / norPageSize) = false := by
    intro p
    exact decide_eq_false (by simp only [norPageSize]; omega)
  simp only [stored, NorArray.put_nil, List.length_nil, hno, Bool.or_false, if_true]

theorem NorCache.stored_page (c : NorCache) (h : norPageSize ≤ data.length)
    (hlen : data.length % norPageSize = 0) :
    NorCache.stored { c with
      buf := put c.buf off (data.take norPageSize)
      bitmapPage := setBit page c.bitmapPage
      lastWrite := page } (page + 1) (off + norPageSize) (data.drop norPageSize) =
    c.stored page off data := by
  have htake : (data.take norPageSize).length = norPageSize := by
    rw [List.length_take, Nat.min_eq_left h]
  have hput := NorArray.put_append c.buf (a := off) (d := data.take norPageSize)
    (e := data.drop norPageSize)
  rw [htake, List.take_append_drop] at hput
  have hbits : ∀ p, (setBit page c.bitmapPage p ||
      decide (page + 1 ≤ p ∧ p < page + 1 + (data.length - norPageSize) / norPageSize)) =
      (c.bitmapPage p || decide (page ≤ p ∧ p < page + data.length / norPageSize)) := by
    intro p
    cases hp : c.bitmapPage p with
    | true => simp only [setBit, hp, Bool.or_true, Bool.true_or]
    | false =>
      rw [Bool.eq_iff_iff]
      simp only [setBit, hp, Bool.or_false, Bool.false_or, Bool.or_eq_true, beq_iff_eq,
        decide_eq_true_eq, norPageSize] at *
      omega
  have hlast : (if data.length - norPageSize = 0 then page
      else page + 1 + (data.length - norPageSize) / norPageSize - 1) =
      if data.length = 0 then c.lastWrite else page + data.length / norPageSize - 1 := by
    simp only [norPageSize] at *
    split <;> split <;> omega
  simp only [stored, List.length_drop, hput, hbits, hlast]

theorem norCacheWriteLoop_eq (hg : nor.Geometry) (hlen : data.length % norPageSize = 0)
    (hf : data.length ≤ fuel) :
    norCacheWriteLoop nor fuel page off data c = c.stored page off data := by
  induction fuel generalizing page off data c with
  | zero =>
    obtain rfl := List.length_eq_zero_iff.1 (Nat.le_zero.1 hf)
    exact (c.stored_nil page off).symm
  | succ fuel ih =>
    rw [norCacheWriteLoop]
    by_cases hz : data.length = 0
    · obtain rfl := List.length_eq_zero_iff.1 hz
      rw [if_pos hz, NorCache.stored_nil]
    have hle : norPageSize ≤ data.length := by
      simp only [norPageSize] at *
      omega
    have hmod : (data.drop norPageSize).length % norPageSize = 0 := by
      rw [List.length_drop]
      simp only [norPageSize] at *
      omega
    have hleft : (data.drop norPageSize).length ≤ fuel := by
      rw [List.length_drop]
      simp only [norPageSize] at *
      omega
    rw [if_neg hz, hg.page, Nat.min_eq_right hle]
    exact (ih hmod hleft).trans (c.stored_page hle hlen)

/-- Pages stored in the window are a held-back write at their address. -/
theorem NorCache.overlay_stored (c : NorCache) (nor : NorFlash) (hoff : off % norPageSize = 0)
    (hlen : data.length % norPageSize = 0) :
    (c.stored (off / norPageSize) off data).overlay nor =
      (c.overlay nor).write (c.addr + off) data := by
  have hdirty : ∀ i, (decide (c.addr ≤ i) && (c.bitmapPage ((i - c.addr) / norPageSize) ||
      decide (off / norPageSize ≤ (i - c.addr) / norPageSize ∧
        (i - c.addr) / norPageSize < off / norPageSize + data.length / norPageSize))) =
      (decide (c.addr ≤ i) && c.bitmapPage ((i - c.addr) / norPageSize) ||
        decide (c.addr + off ≤ i ∧ i < c.addr + off + data.length)) := by
    intro i
    cases hp : c.bitmapPage ((i - c.addr) / norPageSize) with
    | true =>
      rw [Bool.eq_iff_iff]
      simp only [Bool.true_or, Bool.and_true, Bool.or_eq_true, decide_eq_true_eq]
      omega
    | false =>
      rw [Bool.eq_iff_iff]
      simp only [Bool.false_or, Bool.and_false, Bool.and_eq_true, decide_eq_true_eq, norPageSize]
        at *
      omega
  have hbuf : ∀ i, (if c.addr ≤ i then put c.buf off data (i - c.addr) else 0xFF) =
      put (c.overlay nor).buf (c.addr + off) data i := by
    intro i
    by_cases hi : c.addr ≤ i
    · rw [if_pos hi, put, put, overlay]
      simp only [if_pos hi]
      by_cases ho : off ≤ i - c.addr
      · rw [if_pos ho, if_pos (by omega), Nat.sub_sub]
      · rw [if_neg ho, if_neg (by omega)]
    · rw [if_neg hi, NorArray.put_outside _ (by omega), overlay]
      exact (if_neg hi).symm
  rw [Overlay.write, overlay, Overlay.mk.injEq]
  exact ⟨funext hbuf, funext hdirty, rfl⟩

theorem NorCache.Valid.stored (hv : c.Valid nor size) (ha : c.addr % cacheSize = 0)
    (hlen : data.length % norPageSize = 0) (hoff : off % norPageSize = 0)
    (hwin : off + data.length ≤ cacheSize) (hle : c.addr + off + data.length ≤ size) :
    (c.stored (off / norPageSize) off data).Valid nor size where
  pageCnt := hv.pageCnt
  blkCnt := hv.blkCnt
  window := .inl ha
  page p h := by
    have hcnt : (c.stored (off / norPageSize) off data).pageCnt = cacheSize / norPageSize :=
      hv.pageCnt
    cases hp : c.bitmapPage p with
    | true => exact hv.page p hp
    | false =>
      have hin : off / norPageSize ≤ p ∧ p < off / norPageSize + data.length / norPageSize := by
        simpa only [NorCache.stored, hp, Bool.false_or, decide_eq_true_eq] using h
      have haddr : (c.stored (off / norPageSize) off data).addr = c.addr := rfl
      rw [hcnt, haddr]
      simp only [cacheSize, sz64K, norPageSize] at *
      omega
  blk b h := hv.blk b h

/-- The cache with whole blocks marked from a block on. -/
def NorCache.marked (c : NorCache) (blkSize blk len : Nat) : NorCache :=
  { c with bitmapBlk := fun b => c.bitmapBlk b || decide (blk ≤ b ∧ b < blk + len / blkSize) }

theorem norCacheEraseLoop_eq (hpos : 0 < nor.blkSize) (hlen : len % nor.blkSize = 0)
    (hf : len ≤ fuel) : norCacheEraseLoop nor fuel blk len c = c.marked nor.blkSize blk len := by
  have hzero : ∀ (c : NorCache) (blk : Nat), c.marked nor.blkSize blk 0 = c := by
    intro c blk
    have hno : ∀ b, decide (blk ≤ b ∧ b < blk + 0 / nor.blkSize) = false := by
      intro b
      exact decide_eq_false (by rw [Nat.zero_div]; omega)
    simp only [NorCache.marked, hno, Bool.or_false]
  induction fuel generalizing blk len c with
  | zero =>
    obtain rfl := Nat.le_zero.1 hf
    exact (hzero c blk).symm
  | succ fuel ih =>
    rw [norCacheEraseLoop]
    by_cases hz : len = 0
    · subst hz
      rw [if_pos rfl, hzero]
    rw [if_neg hz]
    have hdvd := Nat.dvd_of_mod_eq_zero hlen
    have hle : nor.blkSize ≤ len := Nat.le_of_dvd (by omega) hdvd
    have hmod : (len - nor.blkSize) % nor.blkSize = 0 := by
      rw [← Nat.mod_eq_sub_mod hle, hlen]
    rw [ih hmod (by omega)]
    have hbits : ∀ b, (setBit blk c.bitmapBlk b ||
        decide (blk + 1 ≤ b ∧ b < blk + 1 + (len - nor.blkSize) / nor.blkSize)) =
        (c.bitmapBlk b || decide (blk ≤ b ∧ b < blk + len / nor.blkSize)) := by
      intro b
      rw [Nat.div_eq_sub_div hpos hle]
      generalize (len - nor.blkSize) / nor.blkSize = q
      cases hb : c.bitmapBlk b with
      | true => simp only [setBit, hb, Bool.or_true, Bool.true_or]
      | false =>
        rw [Bool.eq_iff_iff]
        simp only [setBit, hb, Bool.or_false, Bool.false_or, Bool.or_eq_true, beq_iff_eq,
          decide_eq_true_eq]
        omega
    simp only [NorCache.marked, hbits]

/-- Blocks marked in the window are a held-back erase at their address. -/
theorem NorCache.overlay_marked (c : NorCache) (hg : nor.Geometry)
    (hoff : off % nor.blkSize = 0) (hlen : len % nor.blkSize = 0) :
    (c.marked nor.blkSize (off / nor.blkSize) len).overlay nor =
      (c.overlay nor).erase (c.addr + off) len := by
  have hpending : ∀ i, (decide (c.addr ≤ i) && (c.bitmapBlk ((i - c.addr) / nor.blkSize) ||
      decide (off / nor.blkSize ≤ (i - c.addr) / nor.blkSize ∧
        (i - c.addr) / nor.blkSize < off / nor.blkSize + len / nor.blkSize))) =
      (decide (c.addr ≤ i) && c.bitmapBlk ((i - c.addr) / nor.blkSize) ||
        decide (c.addr + off ≤ i ∧ i < c.addr + off + len)) := by
    intro i
    cases hp : c.bitmapBlk ((i - c.addr) / nor.blkSize) with
    | true =>
      rw [Bool.eq_iff_iff]
      simp only [Bool.true_or, Bool.and_true, Bool.or_eq_true, decide_eq_true_eq]
      omega
    | false =>
      rw [Bool.eq_iff_iff]
      simp only [Bool.false_or, Bool.and_false, Bool.and_eq_true, decide_eq_true_eq]
      rcases hg.blk with hb | hb | hb <;> rw [hb] at hoff hlen ⊢ <;>
        simp only [sz4K, sz32K, sz64K] at * <;> omega
  rw [Overlay.erase, overlay, Overlay.mk.injEq]
  exact ⟨rfl, rfl, funext hpending⟩

theorem NorCache.Valid.marked (hg : nor.Geometry) (hv : c.Valid nor size)
    (ha : c.addr % cacheSize = 0) (hoff : off % nor.blkSize = 0) (hlen : len % nor.blkSize = 0)
    (hwin : off + len ≤ cacheSize) (hle : c.addr + off + len ≤ size) :
    (c.marked nor.blkSize (off / nor.blkSize) len).Valid nor size where
  pageCnt := hv.pageCnt
  blkCnt := hv.blkCnt
  window := .inl ha
  page p h := hv.page p h
  blk b h := by
    have hcnt : (c.marked nor.blkSize (off / nor.blkSize) len).blkCnt = cacheSize / nor.blkSize :=
      hv.blkCnt
    cases hb : c.bitmapBlk b with
    | true => exact hv.blk b hb
    | false =>
      have hin : off / nor.blkSize ≤ b ∧ b < off / nor.blkSize + len / nor.blkSize := by
        simpa only [NorCache.marked, hb, Bool.false_or, decide_eq_true_eq] using h
      have haddr : (c.marked nor.blkSize (off / nor.blkSize) len).addr = c.addr := rfl
      rw [hcnt, haddr]
      rcases hg.blk with hb | hb | hb <;> rw [hb] at hoff hlen hin ⊢ <;>
        simp only [cacheSize, sz4K, sz32K, sz64K] at * <;> omega

end D1Flash
