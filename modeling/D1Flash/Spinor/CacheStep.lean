import D1Flash.Spinor.CacheSpec

namespace D1Flash
open NorArray (Matches Overlay erase erased program put slice)
set_option autoImplicit true

variable {ops : NorOps σ} {nor : NorFlash} {c : NorCache} {mem : σ → Nat → Byte} {I : σ → Prop}

theorem window_off (hw : a = addr / cacheSize * cacheSize) :
    u32Sub addr a = addr % cacheSize ∧ a + addr % cacheSize = addr := by
  subst hw
  simp only [u32Sub, u32, cacheSize, sz64K]
  omega

theorem same_window (hin : addr % cacheSize + len ≤ cacheSize) (hi : addr ≤ i)
    (hi' : i < addr + len) : i / cacheSize * cacheSize = addr / cacheSize * cacheSize := by
  simp only [cacheSize, sz64K] at *
  omega

theorem window_aligned (hw : a = addr / cacheSize * cacheSize) : a % cacheSize = 0 := by
  rw [hw]
  exact Nat.mul_mod_left _ _

theorem off_mod (h : addr % n = 0) (hn : cacheSize % n = 0) : addr % cacheSize % n = 0 := by
  rw [Nat.mod_mod_of_dvd _ (Nat.dvd_of_mod_eq_zero hn), h]

theorem NorFlash.Geometry.blk_mod (hg : NorFlash.Geometry nor) : cacheSize % nor.blkSize = 0 := by
  rcases hg.blk with h | h | h <;> rw [h] <;> decide

theorem not_overCache (h : addr < 0x100000000) (hover : overCache addr len = false) :
    addr % cacheSize + len ≤ cacheSize := by
  apply Nat.le_of_not_lt
  intro hlt
  rw [(overCache_iff h).2 hlt] at hover
  cases hover

/-- How a cached write of whole pages ends: around the cache, with an error before anything is
stored, or held back. -/
theorem norCacheWrite_spec (hs : ops.Sound size mem I) (hg : nor.Geometry)
    (hv : c.Valid nor size) (hI : I s) (ha : addr % norPageSize = 0)
    (hlen : buf.length % norPageSize = 0) (hle : addr + buf.length ≤ size)
    (h : norCacheWrite ops nor addr buf c s = (ret, c', s')) :
    I s' ∧ c'.Valid nor size ∧
      ((c'.overlay nor).Clean ∧ (∃ k ≤ buf.length, (ret = 0 → k = buf.length) ∧
          mem s' = program ((c.overlay nor).flushed (mem s)) addr (buf.take k)) ∨
        ∃ c₁, NorCache.Kept nor size c c₁ (mem s) (mem s') ∧
          (ret ≠ 0 ∧ c' = c₁ ∨ ret = 0 ∧ (c₁ = c ∧ mem s' = mem s ∨ (c₁.overlay nor).Clean) ∧
            c'.overlay nor = (c₁.overlay nor).write addr buf)) := by
  have hsize := hs.size_lt
  have hlt : addr < 0x100000000 := by omega
  rw [norCacheWrite, hg.page, if_neg (not_not.2 ha), if_neg (not_not.2 hlen)] at h
  cases hover : overCache addr buf.length with
  | true =>
    rw [if_pos hover] at h
    rcases h₁ : norFlushCache ops nor c s with ⟨ret₁, c₁, s₁⟩
    obtain ⟨hI₁, hk₁, hd₁⟩ := norFlushCache_spec hs hg hv hI h₁
    simp only [h₁] at h
    by_cases h0 : ret₁ = 0
    · obtain ⟨-, hclean, hm₁⟩ := hd₁ h0
      rw [if_neg (not_not.2 h0)] at h
      rcases h₂ : ops.norWrite addr buf s₁ with ⟨ret₂, s₂⟩
      obtain ⟨hI₂, hw⟩ := hs.write hI₁ hle hlt h₂
      simp only [h₂, Prod.mk.injEq] at h
      obtain ⟨rfl, rfl, rfl⟩ := h
      rw [hm₁] at hw
      exact ⟨hI₂, hk₁.valid, .inl ⟨hclean, hw⟩⟩
    · rw [if_pos h0] at h
      simp only [Prod.mk.injEq] at h
      obtain ⟨rfl, rfl, rfl⟩ := h
      exact ⟨hI₁, hk₁.valid, .inr ⟨_, hk₁, .inl ⟨h0, rfl⟩⟩⟩
  | false =>
    rw [if_neg (by rw [hover]; decide)] at h
    have hin := not_overCache hlt hover
    rcases h₁ : norCacheMove ops nor addr buf.length c s with ⟨ret₁, c₁, s₁⟩
    obtain ⟨hI₁, hk₁, hd₁⟩ := norCacheMove_spec hs hg hv hI hlt h₁
    simp only [h₁] at h
    by_cases h0 : ret₁ = 0
    · obtain ⟨hw, hor⟩ := hd₁ h0
      obtain ⟨hoff, hsum⟩ := window_off hw
      have hmod := off_mod ha (by decide)
      rw [if_neg (not_not.2 h0), hoff, norCacheWriteLoop_eq hg hlen (Nat.le_refl _)] at h
      simp only [Prod.mk.injEq] at h
      obtain ⟨rfl, rfl, rfl⟩ := h
      refine ⟨hI₁, ?_, .inr ⟨c₁, hk₁, .inr ⟨rfl, hor, ?_⟩⟩⟩
      · exact hk₁.valid.stored (window_aligned hw) hlen hmod hin (by rw [hsum]; exact hle)
      · rw [c₁.overlay_stored nor hmod hlen, hsum]
    · rw [if_pos h0] at h
      simp only [Prod.mk.injEq] at h
      obtain ⟨rfl, rfl, rfl⟩ := h
      exact ⟨hI₁, hk₁.valid, .inr ⟨_, hk₁, .inl ⟨h0, rfl⟩⟩⟩

/-- How a cached erase of whole blocks ends: around the cache, with an error before anything is
marked, or held back. -/
theorem norCacheErase_spec (hs : ops.Sound size mem I) (hg : nor.Geometry)
    (hv : c.Valid nor size) (hI : I s) (ha : addr % nor.blkSize = 0)
    (hlen : len % nor.blkSize = 0) (hle : addr + len ≤ size)
    (h : norCacheErase ops nor addr len c s = (ret, c', s')) :
    I s' ∧ c'.Valid nor size ∧
      ((∃ m₁, NorCache.Kept nor size c c' (mem s) m₁ ∧ (∀ i, (c'.overlay nor).pending i = false) ∧
          (c'.overlay nor).dirty = (c.overlay nor).dirty ∧
          (c'.overlay nor).buf = (c.overlay nor).buf ∧
          ∃ k ≤ len, (ret = 0 → k = len) ∧ mem s' = erase m₁ addr k) ∨
        ∃ c₁, NorCache.Kept nor size c c₁ (mem s) (mem s') ∧
          (ret ≠ 0 ∧ c' = c₁ ∨ ret = 0 ∧ (c₁ = c ∧ mem s' = mem s ∨ (c₁.overlay nor).Clean) ∧
            c'.overlay nor = (c₁.overlay nor).erase addr len)) := by
  have hsize := hs.size_lt
  have hlt : addr < 0x100000000 := by omega
  rw [norCacheErase, if_neg (not_not.2 ha), if_neg (not_not.2 hlen)] at h
  cases hover : overCache addr len with
  | true =>
    rw [if_pos hover] at h
    rcases h₁ : norFlushErase ops nor c s with ⟨ret₁, c₁, s₁⟩
    obtain ⟨hI₁, hk₁, hr₁⟩ := norFlushErase_spec hs hg hv hI h₁
    simp only [h₁] at h
    rcases hr₁ with ⟨h0, rfl⟩ | ⟨rfl, rfl, hm₁⟩
    · rw [if_pos h0] at h
      simp only [Prod.mk.injEq] at h
      obtain ⟨rfl, rfl, rfl⟩ := h
      exact ⟨hI₁, hk₁.valid, .inr ⟨_, hk₁, .inl ⟨h0, rfl⟩⟩⟩
    · rw [if_neg (not_not.2 rfl)] at h
      rcases h₂ : ops.norErase addr len s₁ with ⟨ret₂, s₂⟩
      obtain ⟨hI₂, he⟩ := hs.erase hI₁ hle h₂
      simp only [h₂, Prod.mk.injEq] at h
      obtain ⟨rfl, rfl, rfl⟩ := h
      refine ⟨hI₂, hk₁.valid, .inl ⟨mem s₁, hk₁, ?_, rfl, rfl, he⟩⟩
      intro i
      simp only [NorCache.overlay, Bool.and_false]
  | false =>
    rw [if_neg (by rw [hover]; decide)] at h
    have hin := not_overCache hlt hover
    rcases h₁ : norCacheMove ops nor addr len c s with ⟨ret₁, c₁, s₁⟩
    obtain ⟨hI₁, hk₁, hd₁⟩ := norCacheMove_spec hs hg hv hI hlt h₁
    simp only [h₁] at h
    by_cases h0 : ret₁ = 0
    · obtain ⟨hw, hor⟩ := hd₁ h0
      obtain ⟨hoff, hsum⟩ := window_off hw
      have hmod := off_mod ha hg.blk_mod
      rw [if_neg (not_not.2 h0), hoff, norCacheEraseLoop_eq hg.blk_pos hlen (Nat.le_refl _)] at h
      simp only [Prod.mk.injEq] at h
      obtain ⟨rfl, rfl, rfl⟩ := h
      refine ⟨hI₁, ?_, .inr ⟨c₁, hk₁, .inr ⟨rfl, hor, ?_⟩⟩⟩
      · exact hk₁.valid.marked hg (window_aligned hw) hmod hlen hin (by rw [hsum]; exact hle)
      · rw [c₁.overlay_marked hg hmod hlen, hsum]
    · rw [if_pos h0] at h
      simp only [Prod.mk.injEq] at h
      obtain ⟨rfl, rfl, rfl⟩ := h
      exact ⟨hI₁, hk₁.valid, .inr ⟨_, hk₁, .inl ⟨h0, rfl⟩⟩⟩

/-- Where the pending test of a read's first block is right for another byte of its range. -/
def NorCache.ReadsTrueAt (c : NorCache) (nor : NorFlash) (m : Nat → Byte) (addr i : Nat) : Prop :=
  (c.overlay nor).dirty i = false →
    (c.overlay nor).pending i = (c.overlay nor).pending addr ∨ m i = 0xFF

theorem NorCache.dirty_page (hpage : c.addr + off = a) (hmod : off % norPageSize = 0)
    (hi : a ≤ i) (hi' : i < a + norPageSize) :
    (c.overlay nor).dirty i = c.bitmapPage (off / norPageSize) := by
  have hp : (i - c.addr) / norPageSize = off / norPageSize := by
    simp only [norPageSize] at *
    omega
  have ha : c.addr ≤ i := by omega
  simp only [overlay, hp, ha, decide_true, Bool.true_and]

/-- What a cached read at an address gives for a byte of its window. -/
def NorCache.shown (c : NorCache) (nor : NorFlash) (m : Nat → Byte) (addr i : Nat) : Byte :=
  if (c.overlay nor).dirty i then (c.overlay nor).buf i
  else if (c.overlay nor).pending addr then 0xFF else m i

/-- A page reads as the overlay shows it exactly where the pending test is right or does not
matter. -/
theorem NorCache.shown_eq_view_iff (c : NorCache) (nor : NorFlash) (m : Nat → Byte) (addr i : Nat) :
    c.shown nor m addr i = (c.overlay nor).view m i ↔ c.ReadsTrueAt nor m addr i := by
  unfold NorCache.shown NorCache.ReadsTrueAt Overlay.view Overlay.base
  cases hd : (c.overlay nor).dirty i with
  | true => exact ⟨fun _ h => (nomatch h), fun _ => rfl⟩
  | false =>
    rw [if_neg Bool.false_ne_true, if_neg Bool.false_ne_true]
    cases hi : (c.overlay nor).pending i <;> cases ha : (c.overlay nor).pending addr
    · exact ⟨fun _ _ => .inl rfl, fun _ => rfl⟩
    · exact ⟨fun h _ => .inr h.symm, fun h => ((h rfl).resolve_left Bool.false_ne_true).symm⟩
    · exact ⟨fun h _ => .inr h, fun h => (h rfl).resolve_left Bool.noConfusion⟩
    · exact ⟨fun _ _ => .inl rfl, fun _ => rfl⟩

/-- What one turn of the page loop reads. -/
def norCacheReadPage (ops : NorOps σ) (nor : NorFlash) (c : NorCache) (addr page off size : Nat)
    (s : σ) : (Int × List Byte) × σ :=
  if c.bitmapPage page then ((0, slice c.buf off size), s)
  else if c.bitmapBlk (u32Sub addr c.addr / nor.blkSize) then ((0, List.replicate size 0xFF), s)
  else ops.norRead (c.getAddrByPage nor page) size s

theorem norCacheReadLoop_succ (hne : len ≠ 0) :
    norCacheReadLoop ops nor c addr (fuel + 1) page off len out s =
      let size := min len nor.pageSize
      match norCacheReadPage ops nor c addr page off size s with
      | ((ret, chunk), s) =>
        if ret ≠ 0 then ((ret, out), s)
        else norCacheReadLoop ops nor c addr fuel (page + 1) (off + size) (len - size)
          (out ++ chunk) s := by
  rw [norCacheReadLoop, if_neg hne]
  dsimp only
  rw [norCacheReadPage]
  cases c.bitmapPage page with
  | true => rfl
  | false =>
    rw [if_neg Bool.false_ne_true, if_neg Bool.false_ne_true]
    cases c.bitmapBlk (u32Sub addr c.addr / nor.blkSize) with
    | true => rfl
    | false => rfl

theorem norCacheReadPage_spec (hs : ops.Sound size mem I) (hg : nor.Geometry) (hI : I s)
    (haddr : c.addr ≤ addr) (hlt : addr < 0x100000000) (hmod : off % norPageSize = 0)
    (hle : c.addr + off + norPageSize ≤ size)
    (h : norCacheReadPage ops nor c addr (off / norPageSize) off norPageSize s = ((ret, d), s')) :
    I s' ∧ mem s' = mem s ∧
      (ret = 0 → d = slice (c.shown nor (mem s) addr) (c.addr + off) norPageSize) := by
  have hblk : u32Sub addr c.addr = addr - c.addr := by
    simp only [u32Sub, u32]
    omega
  have hpend : c.bitmapBlk ((addr - c.addr) / nor.blkSize) = (c.overlay nor).pending addr := by
    simp only [NorCache.overlay, haddr, decide_true, Bool.true_and]
  have hdirty : ∀ i, c.addr + off ≤ i → i < c.addr + off + norPageSize →
      (c.overlay nor).dirty i = c.bitmapPage (off / norPageSize) := by
    intro i hi hi'
    exact NorCache.dirty_page rfl hmod hi hi'
  rw [norCacheReadPage, hblk, hpend] at h
  by_cases hd : c.bitmapPage (off / norPageSize) = true
  · rw [if_pos hd] at h
    rw [hd] at hdirty
    obtain ⟨hr, rfl⟩ := Prod.mk.inj h
    obtain ⟨rfl, rfl⟩ := Prod.mk.inj hr
    refine ⟨hI, rfl, fun _ => ?_⟩
    rw [← c.slice_overlay nor]
    exact NorArray.slice_congr fun i hi hi' => (if_pos (hdirty i hi hi')).symm
  · rw [if_neg hd] at h
    have hclean : ∀ i, c.addr + off ≤ i → i < c.addr + off + norPageSize →
        ¬ (c.overlay nor).dirty i = true := by
      intro i hi hi'
      rw [hdirty i hi hi']
      exact hd
    by_cases hp : (c.overlay nor).pending addr = true
    · rw [if_pos hp] at h
      obtain ⟨hr, rfl⟩ := Prod.mk.inj h
      obtain ⟨rfl, rfl⟩ := Prod.mk.inj hr
      refine ⟨hI, rfl, fun _ => ?_⟩
      rw [← NorArray.slice_const (a := c.addr + off)]
      refine NorArray.slice_congr fun i hi hi' => ?_
      rw [NorCache.shown, if_neg (hclean i hi hi'), if_pos hp]
    · rw [if_neg hp] at h
      have hlt' : c.addr + off < 0x100000000 := by
        have := hs.size_lt
        have : 0 < norPageSize := by decide
        omega
      have hpaddr : c.getAddrByPage nor (off / norPageSize) = c.addr + off := by
        rw [NorCache.getAddrByPage, hg.page, Nat.div_mul_cancel (Nat.dvd_of_mod_eq_zero hmod),
          u32_of_lt hlt']
      rw [hpaddr] at h
      obtain ⟨hI', hm', hr⟩ := hs.read hI hlt' h
      refine ⟨hI', hm', fun h0 => ?_⟩
      rw [hr h0 hle]
      refine NorArray.slice_congr fun i hi hi' => ?_
      rw [NorCache.shown, if_neg (hclean i hi hi'), if_neg hp]

theorem norCacheReadLoop_spec (hs : ops.Sound size mem I) (hg : nor.Geometry) (hI : I s)
    (haddr : c.addr ≤ addr) (hlt : addr < 0x100000000) (hmod : off % norPageSize = 0)
    (hlen : len % norPageSize = 0) (hle : c.addr + off + len ≤ size) (hf : len ≤ fuel)
    (h : norCacheReadLoop ops nor c addr fuel (off / norPageSize) off len out s =
      ((ret, d), s')) :
    I s' ∧ mem s' = mem s ∧
      (ret = 0 → d = out ++ slice (c.shown nor (mem s) addr) (c.addr + off) len) := by
  induction fuel generalizing off len out s with
  | zero =>
    obtain rfl := Nat.le_zero.1 hf
    obtain ⟨hr, rfl⟩ := Prod.mk.inj h
    obtain ⟨rfl, rfl⟩ := Prod.mk.inj hr
    exact ⟨hI, rfl, fun _ => (List.append_nil _).symm⟩
  | succ fuel ih =>
    by_cases hz : len = 0
    · subst hz
      rw [norCacheReadLoop, if_pos rfl] at h
      obtain ⟨hr, rfl⟩ := Prod.mk.inj h
      obtain ⟨rfl, rfl⟩ := Prod.mk.inj hr
      exact ⟨hI, rfl, fun _ => (List.append_nil _).symm⟩
    have hpos : norPageSize ≤ len := by
      simp only [norPageSize] at *
      omega
    have hnext : off / norPageSize + 1 = (off + norPageSize) / norPageSize := by
      simp only [norPageSize]
      omega
    have hmod' : (off + norPageSize) % norPageSize = 0 := by rw [Nat.add_mod_right, hmod]
    have hlen' : (len - norPageSize) % norPageSize = 0 := by
      rw [← Nat.mod_eq_sub_mod hpos, hlen]
    have hle' : c.addr + (off + norPageSize) + (len - norPageSize) ≤ size := by omega
    have hf' : len - norPageSize ≤ fuel := by
      have : 0 < norPageSize := by decide
      omega
    rw [norCacheReadLoop_succ hz, hg.page, Nat.min_eq_right hpos, hnext] at h
    dsimp only at h
    rcases h₁ : norCacheReadPage ops nor c addr (off / norPageSize) off norPageSize s
      with ⟨⟨ret₁, chunk⟩, s₁⟩
    obtain ⟨hI₁, hm₁, hd₁⟩ := norCacheReadPage_spec hs hg hI haddr hlt hmod (by omega) h₁
    rw [h₁] at h
    dsimp only at h
    by_cases h0 : ret₁ = 0
    · rw [if_neg (not_not.2 h0)] at h
      obtain ⟨hI', hm', hd⟩ := ih hI₁ hmod' hlen' hle' hf' h
      refine ⟨hI', hm'.trans hm₁, fun hr => ?_⟩
      rw [hd hr, hm₁, hd₁ h0, List.append_assoc, ← Nat.add_assoc, NorArray.slice_append,
        Nat.add_sub_cancel' hpos]
    · rw [if_pos h0] at h
      obtain ⟨hr, rfl⟩ := Prod.mk.inj h
      obtain ⟨rfl, rfl⟩ := Prod.mk.inj hr
      exact ⟨hI₁, hm₁, fun h => (h0 h).elim⟩

theorem NorCache.Valid.outside (hg : nor.Geometry) (hv : c.Valid nor size)
    (hi : c.addr ≠ i / cacheSize * cacheSize) :
    (c.overlay nor).dirty i = false ∧ (c.overlay nor).pending i = false := by
  rcases hv.window with hw | ⟨-, hp, hb⟩
  · have hfar : ¬ (c.addr ≤ i ∧ i < c.addr + cacheSize) := by
      simp only [cacheSize, sz64K] at *
      omega
    constructor
    · cases hd : (c.overlay nor).dirty i with
      | true => exact absurd ⟨(NorCache.dirty_iff.1 hd).1, (hv.dirty_lt hd).1⟩ hfar
      | false => rfl
    · cases hd : (c.overlay nor).pending i with
      | true => exact absurd ⟨(NorCache.pending_iff.1 hd).1, (hv.pending_lt hg hd).1⟩ hfar
      | false => rfl
  · exact NorCache.overlay_clean hp hb i

/-- A cached read of whole pages inside a window. -/
theorem norCacheRead_shown (hs : ops.Sound size mem I) (hg : nor.Geometry)
    (hv : c.Valid nor size) (hI : I s) (ha : addr % norPageSize = 0)
    (hlen : len % norPageSize = 0) (hle : addr + len ≤ size) (hover : overCache addr len = false)
    (h : norCacheRead ops nor addr len c s = ((ret, d), c', s')) :
    I s' ∧ c' = c ∧ mem s' = mem s ∧
      (ret = 0 → d = slice (c.shown nor (mem s) addr) addr len) := by
  have hsize := hs.size_lt
  have hlt : addr < 0x100000000 := by omega
  have hin := not_overCache hlt hover
  rw [norCacheRead, hg.page, if_neg (not_not.2 ha), if_neg (not_not.2 hlen),
    if_neg (by rw [hover]; decide)] at h
  by_cases hc : c.checkCacheAddr addr len = 0
  · obtain ⟨hoff, hsum⟩ := window_off (checkCacheAddr_hit hlt hc)
    have hmod := off_mod ha (by decide)
    rw [if_neg (not_not.2 hc), hoff] at h
    rcases h₁ : norCacheReadLoop ops nor c addr len (addr % cacheSize / norPageSize)
      (addr % cacheSize) len [] s with ⟨⟨ret₁, d₁⟩, s₁⟩
    obtain ⟨hI₁, hm₁, hr₁⟩ := norCacheReadLoop_spec hs hg hI (by omega) hlt hmod hlen
      (by rw [hsum]; exact hle) (Nat.le_refl _) h₁
    simp only [h₁, Prod.mk.injEq] at h
    obtain ⟨⟨rfl, rfl⟩, rfl, rfl⟩ := h
    rw [hsum, List.nil_append] at hr₁
    exact ⟨hI₁, rfl, hm₁, hr₁⟩
  · rw [if_pos hc] at h
    rcases h₁ : ops.norRead addr len s with ⟨⟨ret₁, d₁⟩, s₁⟩
    obtain ⟨hI₁, hm₁, hr₁⟩ := hs.read hI hlt h₁
    simp only [h₁, Prod.mk.injEq] at h
    obtain ⟨⟨rfl, rfl⟩, rfl, rfl⟩ := h
    refine ⟨hI₁, rfl, hm₁, fun hr => ?_⟩
    rw [hr₁ hr hle]
    refine NorArray.slice_congr fun i hi hi' => ?_
    -- neither the byte nor the address of the read is in the cache's window
    have hmiss := checkCacheAddr_miss (by omega) (by omega) hin hc
    have hmiss' := hmiss
    rw [← same_window hin hi hi'] at hmiss'
    obtain ⟨hnd, -⟩ := hv.outside hg hmiss'
    obtain ⟨-, hnp⟩ := hv.outside hg hmiss
    rw [NorCache.shown, hnd, hnp, if_neg Bool.false_ne_true, if_neg Bool.false_ne_true]

theorem norCacheRead_spec (hs : ops.Sound size mem I) (hg : nor.Geometry)
    (hv : c.Valid nor size) (hI : I s) (ha : addr % norPageSize = 0)
    (hlen : len % norPageSize = 0) (hle : addr + len ≤ size)
    (h : norCacheRead ops nor addr len c s = ((ret, d), c', s')) :
    I s' ∧ NorCache.Kept nor size c c' (mem s) (mem s') ∧
      (ret = 0 → d.length = len ∧
        Matches (fun i => overCache addr len = true ∨ c.ReadsTrueAt nor (mem s) addr i) d
          ((c'.overlay nor).view (mem s')) addr) := by
  cases hover : overCache addr len with
  | true =>
    have hlt : addr < 0x100000000 := by
      have := hs.size_lt
      omega
    rw [norCacheRead, hg.page, if_neg (not_not.2 ha), if_neg (not_not.2 hlen), if_pos hover] at h
    rcases h₁ : norFlushCache ops nor c s with ⟨ret₁, c₁, s₁⟩
    obtain ⟨hI₁, hk₁, hd₁⟩ := norFlushCache_spec hs hg hv hI h₁
    simp only [h₁] at h
    by_cases h0 : ret₁ = 0
    · obtain ⟨-, hclean, -⟩ := hd₁ h0
      rw [if_neg (not_not.2 h0)] at h
      rcases h₂ : ops.norRead addr len s₁ with ⟨⟨ret₂, rx⟩, s₂⟩
      obtain ⟨hI₂, hm₂, hr₂⟩ := hs.read hI₁ hlt h₂
      simp only [h₂, Prod.mk.injEq] at h
      obtain ⟨⟨rfl, rfl⟩, rfl, rfl⟩ := h
      refine ⟨hI₂, hm₂ ▸ hk₁, ?_⟩
      intro hr
      have hrx := hr₂ hr hle
      refine ⟨hrx ▸ NorArray.slice_length _, .of_eq hrx ?_⟩
      intro i _ _ _
      rw [hclean.view, hm₂]
    · rw [if_pos h0] at h
      simp only [Prod.mk.injEq] at h
      obtain ⟨⟨rfl, rfl⟩, rfl, rfl⟩ := h
      exact ⟨hI₁, hk₁, fun h => (h0 h).elim⟩
  | false =>
    obtain ⟨hI₁, rfl, hm₁, hr₁⟩ := norCacheRead_shown hs hg hv hI ha hlen hle hover h
    refine ⟨hI₁, hm₁ ▸ .refl hv _, fun hr => ?_⟩
    have hd := hr₁ hr
    refine ⟨hd ▸ NorArray.slice_length _, .of_eq hd fun i _ _ ht => ?_⟩
    rw [hm₁]
    exact ((c'.shown_eq_view_iff nor (mem s) addr i).2
      (ht.resolve_left Bool.false_ne_true))

end D1Flash
