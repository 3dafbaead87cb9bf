import D1Flash.Spinor.CacheStep

namespace D1Flash
open BitRuns (IsRun mem_runs runs)
open NorArray (Overlay slice)
set_option autoImplicit true

variable {ops : NorOps σ} {nor : NorFlash} {c : NorCache} {mem : σ → Nat → Byte} {I : σ → Prop}

theorem NorCache.Valid.aligned (hv : c.Valid nor size) (h : c.bitmapBlk b = true) :
    c.addr % cacheSize = 0 := by
  rcases hv.window with hw | ⟨-, -, hb⟩
  · exact hw
  · rw [hb] at h
    cases h

theorem norEraseRun_live (hl : ops.Live size nor.blkSize ok) (hsize : size < 0x100000000)
    (hg : nor.Geometry) (hv : c.Valid nor size) (hok : ok s)
    (hrun : ∀ b, start ≤ b → b < stop → c.bitmapBlk b = true) (hlt : start < stop)
    (h : ops.norErase (c.getAddrByBlk nor start) (u32 ((stop - start) * nor.blkSize)) s =
      (ret, s')) :
    ok s' ∧ ret = 0 := by
  have hpos := hg.blk_pos
  have hlast := hrun (stop - 1) (by omega) (by omega)
  obtain ⟨-, hend⟩ := hv.blk _ hlast
  have hsum : start * nor.blkSize + (stop - start) * nor.blkSize = stop * nor.blkSize := by
    rw [← Nat.add_mul, Nat.add_sub_cancel' (Nat.le_of_lt hlt)]
  rw [Nat.sub_add_cancel (by omega)] at hend
  have hrpos : 0 < (stop - start) * nor.blkSize := Nat.mul_pos (by omega) hpos
  have haddr : c.getAddrByBlk nor start = c.addr + start * nor.blkSize := u32_of_lt (by omega)
  have hlen : u32 ((stop - start) * nor.blkSize) = (stop - start) * nor.blkSize :=
    u32_of_lt (by omega)
  have hwin := hv.aligned hlast
  have hmod : c.addr % nor.blkSize = 0 := by
    rcases hg.blk with hb | hb | hb <;> rw [hb] <;>
      simp only [cacheSize, sz4K, sz32K, sz64K] at * <;> omega
  rw [haddr, hlen] at h
  refine hl.erase hok ?_ (Nat.mul_mod_left _ _) hrpos (by omega) h
  rw [Nat.add_mul_mod_self_right, hmod]

theorem eraseEach_live (hl : ops.Live size nor.blkSize ok) (hsize : size < 0x100000000)
    (hg : nor.Geometry) (hv : c.Valid nor size) (hok : ok s)
    (hrs : ∀ r ∈ rs, IsRun c.bitmapBlk c.blkCnt r) (h : eraseEach ops nor c rs s = (ret, s')) :
    ok s' ∧ ret = 0 := by
  induction rs generalizing s with
  | nil =>
    cases h
    exact ⟨hok, rfl⟩
  | cons r rs ih =>
    rw [eraseEach] at h
    have hr := hrs r List.mem_cons_self
    rcases h₁ : ops.norErase (c.getAddrByBlk nor r.1) (u32 ((r.2 - r.1) * nor.blkSize)) s
      with ⟨ret₁, s₁⟩
    obtain ⟨hok₁, rfl⟩ := norEraseRun_live hl hsize hg hv hok hr.set hr.nonempty h₁
    simp only [h₁, ne_eq, not_true_eq_false, if_false] at h
    exact ih hok₁ (fun q hq => hrs q (List.mem_cons_of_mem r hq)) h

theorem norFlushErase_live (hl : ops.Live size nor.blkSize ok) (hsize : size < 0x100000000)
    (hg : nor.Geometry) (hv : c.Valid nor size) (hok : ok s)
    (h : norFlushErase ops nor c s = (ret, c', s')) : ok s' ∧ ret = 0 := by
  rw [norFlushErase] at h
  rcases h₁ : norFlushEraseLoop ops nor c c.blkCnt 0 0 s with ⟨ret₁, s₁⟩
  have hruns : eraseEach ops nor c (runs c.bitmapBlk c.blkCnt) s = (ret₁, s₁) :=
    (norFlushEraseLoop_eq_eraseEach ops nor c).symm.trans h₁
  obtain ⟨hok₁, rfl⟩ := eraseEach_live hl hsize hg hv hok (fun _ hr => mem_runs.1 hr) hruns
  simp only [h₁, ne_eq, not_true_eq_false, if_false, Prod.mk.injEq] at h
  obtain ⟨rfl, -, rfl⟩ := h
  exact ⟨hok₁, rfl⟩

theorem norFlushWriteLoop_live (hl : ops.Live size nor.blkSize ok) (hsize : size < 0x100000000)
    (hg : nor.Geometry) (hv : c.Valid nor size) (hok : ok s)
    (h : norFlushWriteLoop ops nor c n s = (ret, s')) : ok s' ∧ ret = 0 := by
  induction n generalizing s with
  | zero =>
    obtain ⟨rfl, rfl⟩ := Prod.mk.inj h
    exact ⟨hok, rfl⟩
  | succ n ih =>
    rw [norFlushWriteLoop] at h
    dsimp only at h
    generalize (c.pageCnt - (n + 1) + c.lastWrite + 1) % c.pageCnt = page at h
    cases hbit : c.bitmapPage page with
    | true =>
      rw [if_pos hbit] at h
      rcases h₁ : ops.norWrite (c.getAddrByPage nor page)
        (slice c.buf (page * nor.pageSize) nor.pageSize) s with ⟨ret₁, s₁⟩
      obtain ⟨-, hend⟩ := hv.page page hbit
      rw [Nat.succ_mul] at hend
      have hlt : c.addr + page * norPageSize < 0x100000000 := by omega
      have haddr : c.getAddrByPage nor page = c.addr + page * norPageSize := by
        rw [NorCache.getAddrByPage, hg.page, u32_of_lt hlt]
      have hlen : (slice c.buf (page * nor.pageSize) nor.pageSize).length = norPageSize := by
        rw [NorArray.slice_length, hg.page]
      obtain ⟨hok₁, rfl⟩ := hl.write hok (by rw [hlen, haddr, Nat.add_assoc]; exact hend)
        (haddr ▸ hlt) (List.ne_nil_of_length_pos (by rw [hlen]; decide)) h₁
      simp only [h₁, ne_eq, not_true_eq_false, if_false] at h
      exact ih hok₁ h
    | false =>
      rw [if_neg (by rw [hbit]; decide)] at h
      exact ih hok h

theorem norFlushCache_live (hs : ops.Sound size mem I) (hl : ops.Live size nor.blkSize ok)
    (hg : nor.Geometry) (hv : c.Valid nor size) (hI : I s) (hok : ok s)
    (h : norFlushCache ops nor c s = (ret, c', s')) : ok s' ∧ ret = 0 := by
  have hsize := hs.size_lt
  rw [norFlushCache] at h
  by_cases ha : c.addr = invalidCacheAddr
  · rw [if_pos ha] at h
    simp only [Prod.mk.injEq] at h
    obtain ⟨rfl, -, rfl⟩ := h
    exact ⟨hok, rfl⟩
  rw [if_neg ha] at h
  rcases h₁ : norFlushErase ops nor c s with ⟨ret₁, c₁, s₁⟩
  obtain ⟨hok₁, rfl⟩ := norFlushErase_live hl hsize hg hv hok h₁
  obtain ⟨-, hk₁, -⟩ := norFlushErase_spec hs hg hv hI h₁
  simp only [h₁, ne_eq, not_true_eq_false, if_false] at h
  rw [norFlushWrite] at h
  rcases h₂ : norFlushWriteLoop ops nor c₁ c₁.pageCnt s₁ with ⟨ret₂, s₂⟩
  obtain ⟨hok₂, rfl⟩ := norFlushWriteLoop_live hl hsize hg hk₁.valid hok₁ h₂
  simp only [h₂] at h
  obtain ⟨rfl, -, rfl⟩ := h
  exact ⟨hok₂, rfl⟩

theorem norCacheMove_live (hs : ops.Sound size mem I) (hl : ops.Live size nor.blkSize ok)
    (hg : nor.Geometry) (hv : c.Valid nor size) (hI : I s) (hok : ok s)
    (h : norCacheMove ops nor addr len c s = (ret, c', s')) : ok s' ∧ ret = 0 := by
  rw [norCacheMove] at h
  by_cases hc : c.checkCacheAddr addr len = 0
  · rw [if_neg (not_not.2 hc)] at h
    simp only [Prod.mk.injEq] at h
    obtain ⟨rfl, -, rfl⟩ := h
    exact ⟨hok, rfl⟩
  · rw [if_pos hc] at h
    rcases h₁ : norFlushCache ops nor c s with ⟨ret₁, c₁, s₁⟩
    obtain ⟨hok₁, rfl⟩ := norFlushCache_live hs hl hg hv hI hok h₁
    simp only [h₁] at h
    obtain ⟨rfl, -, rfl⟩ := h
    exact ⟨hok₁, rfl⟩

theorem norCacheWrite_live (hs : ops.Sound size mem I) (hl : ops.Live size nor.blkSize ok)
    (hg : nor.Geometry) (hv : c.Valid nor size) (hI : I s) (hok : ok s)
    (ha : addr % norPageSize = 0) (hlen : buf.length % norPageSize = 0)
    (hle : addr + buf.length ≤ size)
    (h : norCacheWrite ops nor addr buf c s = (ret, c', s')) : ok s' ∧ ret = 0 := by
  have hsize := hs.size_lt
  rw [norCacheWrite, hg.page, if_neg (not_not.2 ha), if_neg (not_not.2 hlen)] at h
  cases hover : overCache addr buf.length with
  | true =>
    rw [if_pos hover] at h
    rcases h₁ : norFlushCache ops nor c s with ⟨ret₁, c₁, s₁⟩
    obtain ⟨hok₁, rfl⟩ := norFlushCache_live hs hl hg hv hI hok h₁
    have hne : buf ≠ [] := by
      rintro rfl
      have := (overCache_iff (show addr < 0x100000000 by omega)).1 hover
      simp only [cacheSize, sz64K, List.length_nil] at this
      omega
    rcases h₂ : ops.norWrite addr buf s₁ with ⟨ret₂, s₂⟩
    obtain ⟨hok₂, rfl⟩ := hl.write hok₁ hle (by omega) hne h₂
    simp only [h₁, h₂] at h
    obtain ⟨rfl, -, rfl⟩ := h
    exact ⟨hok₂, rfl⟩
  | false =>
    rw [if_neg (by rw [hover]; decide)] at h
    rcases h₁ : norCacheMove ops nor addr buf.length c s with ⟨ret₁, c₁, s₁⟩
    obtain ⟨hok₁, rfl⟩ := norCacheMove_live hs hl hg hv hI hok h₁
    simp only [h₁] at h
    obtain ⟨rfl, -, rfl⟩ := h
    exact ⟨hok₁, rfl⟩

theorem norCacheErase_live (hs : ops.Sound size mem I) (hl : ops.Live size nor.blkSize ok)
    (hg : nor.Geometry) (hv : c.Valid nor size) (hI : I s) (hok : ok s)
    (ha : addr % nor.blkSize = 0) (hlen : len % nor.blkSize = 0) (hle : addr + len ≤ size)
    (h : norCacheErase ops nor addr len c s = (ret, c', s')) : ok s' ∧ ret = 0 := by
  have hsize := hs.size_lt
  rw [norCacheErase, if_neg (not_not.2 ha), if_neg (not_not.2 hlen)] at h
  cases hover : overCache addr len with
  | true =>
    rw [if_pos hover] at h
    rcases h₁ : norFlushErase ops nor c s with ⟨ret₁, c₁, s₁⟩
    obtain ⟨hok₁, rfl⟩ := norFlushErase_live hl hsize hg hv hok h₁
    have hpos : 0 < len := by
      have := (overCache_iff (show addr < 0x100000000 by omega)).1 hover
      simp only [cacheSize, sz64K] at this
      omega
    rcases h₂ : ops.norErase addr len s₁ with ⟨ret₂, s₂⟩
    obtain ⟨hok₂, rfl⟩ := hl.erase hok₁ ha hlen hpos hle h₂
    simp only [h₁, h₂] at h
    obtain ⟨rfl, -, rfl⟩ := h
    exact ⟨hok₂, rfl⟩
  | false =>
    rw [if_neg (by rw [hover]; decide)] at h
    rcases h₁ : norCacheMove ops nor addr len c s with ⟨ret₁, c₁, s₁⟩
    obtain ⟨hok₁, rfl⟩ := norCacheMove_live hs hl hg hv hI hok h₁
    simp only [h₁] at h
    obtain ⟨rfl, -, rfl⟩ := h
    exact ⟨hok₁, rfl⟩

/-- Reads do not fail below. -/
def NorOps.Reads (ops : NorOps σ) (ok : σ → Prop) : Prop :=
  ∀ ⦃s addr len ret d s'⦄, ok s → addr < 0x100000000 →
    ops.norRead addr len s = ((ret, d), s') → ok s' ∧ (0 < len → ret = 0)

theorem NorOps.Live.reads (hl : NorOps.Live ops size blk ok) : ops.Reads ok := by
  intro s addr len ret d s'
  exact hl.read

theorem norCacheReadPage_live (hl : ops.Reads ok) (hok : ok s) (hpos : 0 < size)
    (h : norCacheReadPage ops nor c addr page off size s = ((ret, d), s')) : ok s' ∧ ret = 0 := by
  rw [norCacheReadPage] at h
  by_cases hp : c.bitmapPage page = true
  · rw [if_pos hp] at h
    cases h
    exact ⟨hok, rfl⟩
  rw [if_neg hp] at h
  by_cases hb : c.bitmapBlk (u32Sub addr c.addr / nor.blkSize) = true
  · rw [if_pos hb] at h
    cases h
    exact ⟨hok, rfl⟩
  rw [if_neg hb] at h
  obtain ⟨hok', hr⟩ := hl hok (u32_lt _) h
  exact ⟨hok', hr hpos⟩

theorem norCacheReadLoop_live (hl : ops.Reads ok) (hg : nor.Geometry) (hok : ok s)
    (h : norCacheReadLoop ops nor c addr fuel page off len out s = ((ret, d), s')) :
    ok s' ∧ ret = 0 := by
  induction fuel generalizing page off len out s with
  | zero =>
    obtain ⟨hr, rfl⟩ := Prod.mk.inj h
    exact ⟨hok, (Prod.mk.inj hr).1.symm⟩
  | succ fuel ih =>
    by_cases hz : len = 0
    · rw [norCacheReadLoop, if_pos hz] at h
      obtain ⟨hr, rfl⟩ := Prod.mk.inj h
      exact ⟨hok, (Prod.mk.inj hr).1.symm⟩
    have hpos : 0 < min len nor.pageSize := by
      rw [hg.page]
      simp only [norPageSize]
      omega
    rw [norCacheReadLoop_succ hz] at h
    dsimp only at h
    rcases h₁ : norCacheReadPage ops nor c addr page off (min len nor.pageSize) s
      with ⟨⟨ret₁, chunk⟩, s₁⟩
    obtain ⟨hok₁, rfl⟩ := norCacheReadPage_live hl hok hpos h₁
    rw [h₁] at h
    exact ih hok₁ h

theorem norCacheRead_inside_live (hl : ops.Reads ok) (hg : nor.Geometry) (hok : ok s)
    (ha : addr % norPageSize = 0) (hlen : len % norPageSize = 0) (hlt : addr < 0x100000000)
    (hover : overCache addr len = false)
    (h : norCacheRead ops nor addr len c s = ((ret, d), c', s')) :
    ok s' ∧ (0 < len → ret = 0) := by
  rw [norCacheRead, hg.page, if_neg (not_not.2 ha), if_neg (not_not.2 hlen),
    if_neg (by rw [hover]; decide)] at h
  by_cases hc : c.checkCacheAddr addr len = 0
  · rw [if_neg (not_not.2 hc)] at h
    rcases h₁ : norCacheReadLoop ops nor c addr len (u32Sub addr c.addr / norPageSize)
      (u32Sub addr c.addr) len [] s with ⟨⟨ret₁, d₁⟩, s₁⟩
    obtain ⟨hok₁, rfl⟩ := norCacheReadLoop_live hl hg hok h₁
    simp only [h₁, Prod.mk.injEq] at h
    obtain ⟨⟨rfl, -⟩, -, rfl⟩ := h
    exact ⟨hok₁, fun _ => rfl⟩
  · rw [if_pos hc] at h
    rcases h₁ : ops.norRead addr len s with ⟨⟨ret₁, d₁⟩, s₁⟩
    simp only [h₁, Prod.mk.injEq] at h
    obtain ⟨⟨rfl, -⟩, -, rfl⟩ := h
    exact hl hok hlt h₁

theorem norCacheRead_live (hs : ops.Sound size mem I) (hl : ops.Live size nor.blkSize ok)
    (hg : nor.Geometry) (hv : c.Valid nor size) (hI : I s) (hok : ok s)
    (ha : addr % norPageSize = 0) (hlen : len % norPageSize = 0) (hle : addr + len ≤ size)
    (h : norCacheRead ops nor addr len c s = ((ret, d), c', s')) :
    ok s' ∧ (0 < len → ret = 0) := by
  have hsize := hs.size_lt
  cases hover : overCache addr len with
  | true =>
    rw [norCacheRead, hg.page, if_neg (not_not.2 ha), if_neg (not_not.2 hlen), if_pos hover] at h
    rcases h₁ : norFlushCache ops nor c s with ⟨ret₁, c₁, s₁⟩
    obtain ⟨hok₁, rfl⟩ := norFlushCache_live hs hl hg hv hI hok h₁
    simp only [h₁] at h
    rcases h₂ : ops.norRead addr len s₁ with ⟨⟨ret₂, rx⟩, s₂⟩
    simp only [h₂] at h
    obtain ⟨⟨rfl, rfl⟩, -, rfl⟩ := h
    exact hl.read hok₁ (by omega) h₂
  | false => exact norCacheRead_inside_live hl.reads hg hok ha hlen (by omega) hover h

end D1Flash
