import D1Flash.Spinor.CacheFrame
import D1Flash.Spinor.CacheTransparent

namespace D1Flash
open NorArray (Overlay slice)
open Runs (run Along)
set_option autoImplicit true

/-- Cached reads of `n` single pages in a row, up to the first that fails. -/
def norCacheReadEach (ops : NorOps σ) (nor : NorFlash) :
    Nat → Nat → NorCache → σ → (Int × List Byte) × NorCache × σ
  | 0, _, c, s => ((0, []), c, s)
  | n + 1, addr, c, s =>
    match norCacheRead ops nor addr norPageSize c s with
    | ((ret, d), c, s) =>
      if ret ≠ 0 then ((ret, d), c, s)
      else
        match norCacheReadEach ops nor n (addr + norPageSize) c s with
        | ((ret, e), r) => ((ret, d ++ e), r)

variable {ops : NorOps σ} {nor : NorFlash} {c : NorCache} {mem : σ → Nat → Byte}
  {I ok : σ → Prop}

def CacheOp.InRange (size : Nat) : CacheOp → Prop
  | .write addr buf => addr + buf.length ≤ size
  | .read addr len => addr + len ≤ size
  | .erase addr len => addr + len ≤ size
  | .sync => True

/-- Whatever fails, the cache stays on a window of the flash. -/
theorem cacheStep_valid {st : NorCache × σ} (hs : ops.Sound size mem I) (hg : nor.Geometry)
    (h : I st.2 ∧ st.1.Valid nor size) (hin : a.InRange size) :
    I (cacheStep ops nor st a).2.2 ∧ (cacheStep ops nor st a).2.1.Valid nor size := by
  obtain ⟨c, s⟩ := st
  obtain ⟨hI, hv⟩ := h
  cases a with
  | write addr buf =>
    rcases h : norCacheWrite ops nor addr buf c s with ⟨ret, c', s'⟩
    obtain ⟨hI', hv', -⟩ := norCacheWrite_frame hs hg hv hI hin h
    simp only [cacheStep, h]
    exact ⟨hI', hv'⟩
  | read addr len =>
    rcases h : norCacheRead ops nor addr len c s with ⟨⟨ret, d⟩, c', s'⟩
    obtain ⟨hI', hk, -⟩ := norCacheRead_blank hs hg hv hI hin h
    simp only [cacheStep, h]
    exact ⟨hI', hk.valid⟩
  | erase addr len =>
    rcases h : norCacheErase ops nor addr len c s with ⟨ret, c', s'⟩
    obtain ⟨hI', hv', -⟩ := norCacheErase_frame hs hg hv hI hin h
    simp only [cacheStep, h]
    exact ⟨hI', hv'⟩
  | sync =>
    rcases h : norCacheSync ops nor c s with ⟨ret, c', s'⟩
    obtain ⟨hI', hk, -⟩ := norCacheSync_spec hs hg hv hI h
    simp only [cacheStep, h]
    exact ⟨hI', hk.valid⟩

theorem run_cacheStep_valid (hs : ops.Sound size mem I) (hg : nor.Geometry) (hI : I s)
    (hin : ∀ a ∈ calls, a.InRange size) :
    let st := (run (cacheStep ops nor) (NorCache.fresh nor lastWrite, s) calls).2
    I st.2 ∧ st.1.Valid nor size := by
  have hall : Along (cacheStep ops nor) (fun _ a => a.InRange size)
      (NorCache.fresh nor lastWrite, s) calls :=
    Runs.along_of_forall fun a ha _ => hin a ha
  apply Runs.invariant (I := fun st => I st.2 ∧ st.1.Valid nor size) _ _ hall
  · intro st a h hin
    exact cacheStep_valid hs hg h hin
  · exact ⟨hI, NorCache.fresh_valid hg lastWrite size⟩

theorem inside_overCache (hlt : addr < 0x100000000)
    (hin : addr % cacheSize + len ≤ cacheSize) : overCache addr len = false := by
  cases hover : overCache addr len with
  | false => rfl
  | true => exact absurd ((overCache_iff hlt).1 hover) (Nat.not_lt.2 hin)

/-- Within a page the pending test of the page is right. -/
theorem readsTrueAt_page (hg : nor.Geometry) (hv : c.Valid nor size) (m : Nat → Byte)
    (ha : addr % norPageSize = 0) (hi : addr ≤ i) (hi' : i < addr + norPageSize) :
    c.ReadsTrueAt nor m addr i := by
  intro _
  left
  have hsame : i / cacheSize * cacheSize = addr / cacheSize * cacheSize := by
    simp only [cacheSize, sz64K, norPageSize] at *
    omega
  by_cases hw : c.addr = addr / cacheSize * cacheSize
  · have hle : c.addr ≤ addr ∧ c.addr ≤ i := by
      simp only [cacheSize, sz64K] at *
      omega
    have hblk : (i - c.addr) / nor.blkSize = (addr - c.addr) / nor.blkSize := by
      rcases hg.blk with hb | hb | hb <;> rw [hb] <;>
        simp only [cacheSize, norPageSize, sz4K, sz32K, sz64K] at * <;> omega
    simp only [NorCache.overlay, hle.1, hle.2, hblk]
  · rw [(hv.outside hg hw).2, (hv.outside hg (hsame.symm ▸ hw)).2]

theorem norCacheRead_page (hs : ops.Sound size mem I) (hl : ops.Reads ok) (hg : nor.Geometry)
    (hv : c.Valid nor size) (hI : I s) (hok : ok s) (ha : addr % norPageSize = 0)
    (hle : addr + norPageSize ≤ size)
    (h : norCacheRead ops nor addr norPageSize c s = ((ret, d), c', s')) :
    I s' ∧ ok s' ∧ c' = c ∧ mem s' = mem s ∧ ret = 0 ∧
      d = slice ((c.overlay nor).view (mem s)) addr norPageSize := by
  have hsize := hs.size_lt
  have hin : addr % cacheSize + norPageSize ≤ cacheSize := by
    simp only [cacheSize, sz64K, norPageSize] at *
    omega
  have hover := inside_overCache (by omega) hin
  obtain ⟨hok', hret⟩ :=
    norCacheRead_inside_live hl hg hok ha (Nat.mod_self _) (by omega) hover h
  obtain rfl := hret (by decide)
  obtain ⟨hI', hc, hm, hd⟩ := norCacheRead_shown hs hg hv hI ha (Nat.mod_self _) hle hover h
  refine ⟨hI', hok', hc, hm, rfl, ?_⟩
  rw [hd rfl]
  apply NorArray.slice_congr
  intro i hi hi'
  exact (c.shown_eq_view_iff nor (mem s) addr i).2 (readsTrueAt_page hg hv _ ha hi hi')

/-- Page by page, a read gives what the cache shows. -/
theorem norCacheReadEach_spec (hs : ops.Sound size mem I) (hl : ops.Reads ok) (hg : nor.Geometry)
    (hv : c.Valid nor size) (hI : I s) (hok : ok s) (ha : addr % norPageSize = 0)
    (hle : addr + n * norPageSize ≤ size) :
    ∃ s', norCacheReadEach ops nor n addr c s =
      ((0, slice ((c.overlay nor).view (mem s)) addr (n * norPageSize)), c, s') := by
  induction n generalizing addr s with
  | zero => exact ⟨s, by rw [Nat.zero_mul]; rfl⟩
  | succ n ih =>
    have hsum : (n + 1) * norPageSize = norPageSize + n * norPageSize := by
      rw [Nat.succ_mul, Nat.add_comm]
    rw [hsum] at hle ⊢
    rcases h₁ : norCacheRead ops nor addr norPageSize c s with ⟨⟨ret, d⟩, c₁, s₁⟩
    obtain ⟨hI₁, hok₁, rfl, hm₁, rfl, rfl⟩ :=
      norCacheRead_page hs hl hg hv hI hok ha (by omega) h₁
    have ha' : (addr + norPageSize) % norPageSize = 0 := by rw [Nat.add_mod_right, ha]
    obtain ⟨s₂, h₂⟩ := ih hI₁ hok₁ ha' (by omega)
    refine ⟨s₂, ?_⟩
    rw [norCacheReadEach, h₁]
    simp only [h₂, ne_eq, not_true_eq_false, if_false, hm₁, NorArray.slice_append]

theorem coreOps_reads {nor : Nor SpiBus} (cfg : Config) (size : Nat) :
    (coreOps cfg busPort nor).Reads fun b => nor.toNorFlash.On size b ∧ b.Reliable := by
  intro s addr len ret d s' hok ha h
  obtain ⟨hp, -, -, hr⟩ := norRead_bus hok.1.2 ha h
  exact ⟨⟨hok.1.kept hp.toKept, hp.reliable hok.2⟩, hr hok.2⟩

/-- One read of some pages of a window is the reads of the single pages, exactly when the pending
test of its first block does not go wrong for a byte of the others. -/
theorem norCacheRead_pages {nor : Nor SpiBus} (hu : nor.Unlocks cfg)
    (hg : nor.toNorFlash.Geometry) (hsize : size < 0x100000000)
    (hv : c.Valid nor.toNorFlash size) (hI : nor.toNorFlash.On size b) (hrel : b.Reliable)
    (ha : addr % norPageSize = 0) (hn : 1 ≤ n)
    (hin : addr % cacheSize + n * norPageSize ≤ cacheSize)
    (hle : addr + n * norPageSize ≤ size) :
    let whole := norCacheRead (coreOps cfg busPort nor) nor.toNorFlash addr (n * norPageSize) c b
    let each := norCacheReadEach (coreOps cfg busPort nor) nor.toNorFlash n addr c b
    whole.1 = each.1 ∧ whole.2.1 = each.2.1 ↔
      ∀ i, addr ≤ i → i < addr + n * norPageSize →
        c.ReadsTrueAt nor.toNorFlash b.chip.mem addr i := by
  have hs := coreOps_sound hu hsize
  have hl : (coreOps cfg busPort nor).Reads fun b => nor.toNorFlash.On size b ∧ b.Reliable :=
    coreOps_reads cfg size
  have hover := inside_overCache (by omega) hin
  have hmod : n * norPageSize % norPageSize = 0 := Nat.mul_mod_left _ _
  have hpos : 0 < n * norPageSize := Nat.mul_pos hn (by decide)
  obtain ⟨b₂, h₂⟩ := norCacheReadEach_spec hs hl hg hv hI ⟨hI, hrel⟩ ha hle
  rcases h₁ : norCacheRead (coreOps cfg busPort nor) nor.toNorFlash addr (n * norPageSize) c b
    with ⟨⟨ret, d⟩, c₁, b₁⟩
  obtain ⟨-, hret⟩ := norCacheRead_inside_live hl hg ⟨hI, hrel⟩ ha hmod (by omega) hover h₁
  obtain rfl := hret hpos
  obtain ⟨-, rfl, -, hd⟩ := norCacheRead_shown hs hg hv hI ha hmod hle hover h₁
  obtain rfl := hd rfl
  simp only [h₂, Prod.mk.injEq, true_and, and_true, NorArray.slice_eq_iff,
    NorCache.shown_eq_view_iff]

/-- A window at 0 of which the 4K block at 0x1000 is pending. -/
def halfErasedCache : NorCache where
  buf _ := 0xFF
  addr := 0
  lastWrite := 0
  bitmapPage _ := false
  pageCnt := 256
  bitmapBlk b := b == 1
  blkCnt := 16

theorem halfErasedCache_valid : halfErasedCache.Valid norW25q64jv.toNorFlash 0x800000 where
  pageCnt := rfl
  blkCnt := rfl
  window := .inl rfl
  page _ h := by cases h
  blk b h := by
    obtain rfl : b = 1 := by simpa only [halfErasedCache, beq_iff_eq] using h
    decide

/-- After an erase of the second 4K, a read from the page before still shows zeros in it. -/
theorem norCacheRead_pages_stale :
    ¬ ∀ calls : List CacheOp,
      let ops := coreOps ⟨false, true, true⟩ busPort norW25q64jv
      let st := (run (cacheStep ops norW25q64jv.toNorFlash)
        (NorCache.fresh norW25q64jv.toNorFlash 0,
          .atRest w25q64jv.id 0x800000 fun _ => 0) calls).2
      (norCacheRead ops norW25q64jv.toNorFlash 0xF00 (2 * norPageSize) st.1 st.2).1 =
        (norCacheReadEach ops norW25q64jv.toNorFlash 2 0xF00 st.1 st.2).1 := by
  intro h
  exact absurd (h [.erase 0x1000 0x1000]) (by decide +kernel)

/-- Two pages on both sides of the border of the pending block: over a blank flash they are read
right, over one of zeros they are not. -/
theorem norCacheRead_pages_w25q64jv :
    let ops := coreOps ⟨false, true, true⟩ busPort norW25q64jv
    let flash := fun x : Byte => SpiBus.atRest w25q64jv.id 0x800000 fun _ => x
    let whole := fun x =>
      norCacheRead ops norW25q64jv.toNorFlash 0xF00 (2 * norPageSize) halfErasedCache (flash x)
    let each := fun x => norCacheReadEach ops norW25q64jv.toNorFlash 2 0xF00
      halfErasedCache (flash x)
    ((whole 0xFF).1 = (each 0xFF).1 ∧ (whole 0xFF).2.1 = (each 0xFF).2.1) ∧
      ¬ ((whole 0).1 = (each 0).1 ∧ (whole 0).2.1 = (each 0).2.1) := by
  intro ops flash whole each
  have hiff := fun x => norCacheRead_pages (b := flash x) (c := halfErasedCache) (n := 2)
    (Nor.unlocks_of_noLock (show Config.writeLock ⟨false, true, true⟩ = false from rfl))
    norW25q64jv_geometry (by decide) halfErasedCache_valid (norW25q64jv_on rfl)
    (SpiBus.atRest_reliable _ _ _) (show 0xF00 % norPageSize = 0 by decide) (by decide) (by decide)
    (by decide)
  constructor
  · apply (hiff 0xFF).2
    intro i _ _ _
    exact .inr rfl
  · apply (hiff 0).not.2
    intro h
    exact absurd (h 0x1000 (by decide) (by decide) rfl) (by decide)

end D1Flash
