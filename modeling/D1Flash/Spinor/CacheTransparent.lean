import D1Flash.Lib.Runs
import D1Flash.Spinor.CacheLive

namespace D1Flash
open NorArray (Overlay erased program put slice)
open Runs (run Along)
set_option autoImplicit true

inductive CacheOp where
  | write (addr : Nat) (buf : List Byte)
  | read (addr len : Nat)
  | erase (addr len : Nat)
  | sync

/-- The cache takes a call; what a read returns is kept, `none` stands for a failure. -/
def cacheStep (ops : NorOps σ) (nor : NorFlash) :
    NorCache × σ → CacheOp → Option (List Byte) × (NorCache × σ)
  | (c, s), .write addr buf =>
    match norCacheWrite ops nor addr buf c s with
    | (ret, c, s) => (if ret = 0 then some [] else none, c, s)
  | (c, s), .read addr len =>
    match norCacheRead ops nor addr len c s with
    -- no bytes are returned for no bytes, though `nor_read` answers -EBUSY to that
    | ((ret, d), c, s) => (if len = 0 then some [] else if ret = 0 then some d else none, c, s)
  | (c, s), .erase addr len =>
    match norCacheErase ops nor addr len c s with
    | (ret, c, s) => (if ret = 0 then some [] else none, c, s)
  | (c, s), .sync =>
    match norCacheSync ops nor c s with
    | (ret, c, s) => (if ret = 0 then some [] else none, c, s)

/-- The plain flash: every call takes effect at once. -/
def plainStep : (Nat → Byte) → CacheOp → Option (List Byte) × (Nat → Byte)
  | m, .write addr buf => (some [], program m addr buf)
  | m, .read addr len => (some (slice m addr len), m)
  | m, .erase addr len => (some [], NorArray.erase m addr len)
  | m, .sync => (some [], m)

/-- Whole pages and blocks inside the flash; pages are written only when they read erased. -/
def CacheOp.Proper (nor : NorFlash) (size : Nat) (m : Nat → Byte) : CacheOp → Prop
  | .write addr buf => addr % norPageSize = 0 ∧ buf.length % norPageSize = 0 ∧
      addr + buf.length ≤ size ∧ ∀ i, addr ≤ i → i < addr + buf.length → m i = erased
  | .read addr len => addr % norPageSize = 0 ∧ len % norPageSize = 0 ∧ addr + len ≤ size
  | .erase addr len => addr % nor.blkSize = 0 ∧ len % nor.blkSize = 0 ∧ addr + len ≤ size
  | .sync => True

/-- The call does not meet what the cache gets wrong: an erase over a dirty page that holds data,
and a read whose first block is pending when another of its blocks is not. -/
def CacheOp.Harmless (nor : NorFlash) (mem : σ → Nat → Byte) (st : NorCache × σ) :
    CacheOp → Prop
  | .read addr len => ∀ i, addr ≤ i → i < addr + len →
      overCache addr len = true ∨ st.1.ReadsTrueAt nor (mem st.2) addr i
  | .erase addr len => ∀ i, addr ≤ i → i < addr + len →
      (st.1.overlay nor).dirty i = true → (st.1.overlay nor).buf i = erased
  | _ => True

/-- The cache over the flash shows the plain flash. -/
structure Shows (nor : NorFlash) (size : Nat) (mem : σ → Nat → Byte) (I ok : σ → Prop)
    (st : NorCache × σ) (m : Nat → Byte) : Prop where
  inv : I st.2
  ok : ok st.2
  valid : st.1.Valid nor size
  programmable : (st.1.overlay nor).Programmable (mem st.2)
  view : (st.1.overlay nor).view (mem st.2) = m

variable {ops : NorOps σ} {nor : NorFlash} {c : NorCache} {mem : σ → Nat → Byte}
  {I ok : σ → Prop}

theorem NorCache.Kept.view {m m' : Nat → Byte} (hk : NorCache.Kept nor size c c' m m')
    (hp : (c.overlay nor).Programmable m) :
    (c'.overlay nor).view m' = (c.overlay nor).view m :=
  hp.view_eq (hk.programmable hp) hk.flushed

theorem norCacheWrite_shows (hs : ops.Sound size mem I) (hl : ops.Live size nor.blkSize ok)
    (hg : nor.Geometry) (hsh : Shows nor size mem I ok (c, s) m)
    (hp : CacheOp.Proper nor size m (.write addr buf))
    (h : norCacheWrite ops nor addr buf c s = (ret, c', s')) :
    ret = 0 ∧ Shows nor size mem I ok (c', s') (program m addr buf) := by
  obtain ⟨ha, hlen, hle, hblank⟩ := hp
  have hprog := hsh.programmable
  have hview := hsh.view
  obtain ⟨hok', rfl⟩ := norCacheWrite_live hs hl hg hsh.valid hsh.inv hsh.ok ha hlen hle h
  obtain ⟨hI', hv', hr⟩ := norCacheWrite_spec hs hg hsh.valid hsh.inv ha hlen hle h
  refine ⟨rfl, ?_⟩
  rcases hr with ⟨hclean, k, -, hkr, hm⟩ | ⟨c₁, hk, ⟨h0, -⟩ | ⟨-, -, ho⟩⟩
  · refine ⟨hI', hok', hv', hclean.programmable _, ?_⟩
    rw [hclean.view, hm, hkr rfl, List.take_length, hprog.flushed, hview]
  · exact (h0 rfl).elim
  · have hp₁ := hk.programmable hprog
    have hview₁ := (hk.view hprog).trans hview
    have hbase : ∀ i, addr ≤ i → i < addr + buf.length →
        (c₁.overlay nor).base (mem s') i = erased := by
      intro i hi hi'
      apply hp₁.base_erased
      rw [hview₁]
      exact hblank i hi hi'
    refine ⟨hI', hok', hv', ?_, ?_⟩
    · rw [ho]
      apply hp₁.write
      intro i hi hi'
      rw [hbase i hi hi', NorArray.erased_meet]
    · rw [ho, Overlay.view_write, hview₁, NorArray.program_blank m hblank]

theorem norCacheErase_shows (hs : ops.Sound size mem I) (hl : ops.Live size nor.blkSize ok)
    (hg : nor.Geometry) (hsh : Shows nor size mem I ok (c, s) m)
    (hp : CacheOp.Proper nor size m (.erase addr len))
    (hh : CacheOp.Harmless nor mem (c, s) (.erase addr len))
    (h : norCacheErase ops nor addr len c s = (ret, c', s')) :
    ret = 0 ∧ Shows nor size mem I ok (c', s') (NorArray.erase m addr len) := by
  obtain ⟨ha, hlen, hle⟩ := hp
  have hprog := hsh.programmable
  have hview := hsh.view
  obtain ⟨hok', rfl⟩ := norCacheErase_live hs hl hg hsh.valid hsh.inv hsh.ok ha hlen hle h
  obtain ⟨hI', hv', hr⟩ := norCacheErase_spec hs hg hsh.valid hsh.inv ha hlen hle h
  refine ⟨rfl, ?_⟩
  rcases hr with ⟨m₁, hk, hnone, hd, hb, k, -, hkr, hm⟩ | ⟨c₁, hk, ⟨h0, -⟩ | ⟨-, hc₁, ho⟩⟩
  · have hp₁ := hk.programmable hprog
    refine ⟨hI', hok', hv', ?_, ?_⟩
    · rw [hm]
      exact hp₁.erase_below hnone
    · rw [hm, hkr rfl, Overlay.view_erase_below _ _ hnone, hk.view hprog, hview]
      intro i hi hi' hdirty
      rw [hd] at hdirty
      rw [hb]
      exact hh i hi hi' hdirty
  · exact (h0 rfl).elim
  · have hp₁ := hk.programmable hprog
    refine ⟨hI', hok', hv', ?_, ?_⟩
    · rw [ho]
      exact hp₁.erase
    · rw [ho, Overlay.view_erase, hk.view hprog, hview]
      intro i hi hi' hdirty
      cases hc₁ with
      | inl hc =>
        rw [hc.1] at hdirty ⊢
        exact hh i hi hi' hdirty
      | inr hclean =>
        rw [(hclean i).1] at hdirty
        cases hdirty

theorem norCacheRead_shows (hs : ops.Sound size mem I) (hl : ops.Live size nor.blkSize ok)
    (hg : nor.Geometry) (hsh : Shows nor size mem I ok (c, s) m)
    (hp : CacheOp.Proper nor size m (.read addr len))
    (hh : CacheOp.Harmless nor mem (c, s) (.read addr len))
    (h : norCacheRead ops nor addr len c s = ((ret, d), c', s')) :
    (len ≠ 0 → ret = 0 ∧ d = slice m addr len) ∧ Shows nor size mem I ok (c', s') m := by
  obtain ⟨ha, hlen, hle⟩ := hp
  obtain ⟨hok', hret⟩ := norCacheRead_live hs hl hg hsh.valid hsh.inv hsh.ok ha hlen hle h
  obtain ⟨hI', hk, hd⟩ := norCacheRead_spec hs hg hsh.valid hsh.inv ha hlen hle h
  have hview := (hk.view hsh.programmable).trans hsh.view
  refine ⟨?_, hI', hok', hk.valid, hk.programmable hsh.programmable, hview⟩
  intro hpos
  have h0 := hret (Nat.pos_of_ne_zero hpos)
  obtain ⟨rfl, hmatch⟩ := hd h0
  rw [hview] at hmatch
  exact ⟨h0, hmatch.eq_slice hh⟩

theorem norCacheSync_shows (hs : ops.Sound size mem I) (hl : ops.Live size nor.blkSize ok)
    (hg : nor.Geometry) (hsh : Shows nor size mem I ok (c, s) m)
    (h : norCacheSync ops nor c s = (ret, c', s')) :
    ret = 0 ∧ mem s' = m ∧ Shows nor size mem I ok (c', s') m := by
  rw [norCacheSync] at h
  rcases h₁ : norFlushCache ops nor c s with ⟨ret₁, c₁, s₁⟩
  obtain ⟨hok₁, rfl⟩ := norFlushCache_live hs hl hg hsh.valid hsh.inv hsh.ok h₁
  obtain ⟨hI₁, hk, hd⟩ := norFlushCache_spec hs hg hsh.valid hsh.inv h₁
  simp only [h₁, ne_eq, not_true_eq_false, if_false, Prod.mk.injEq] at h
  obtain ⟨rfl, rfl, rfl⟩ := h
  obtain ⟨-, -, hm⟩ := hd rfl
  refine ⟨rfl, ?_, hI₁, hok₁, hk.valid, hk.programmable hsh.programmable,
    (hk.view hsh.programmable).trans hsh.view⟩
  rw [hm, hsh.programmable.flushed, hsh.view]

theorem cacheStep_shows (hs : ops.Sound size mem I) (hl : ops.Live size nor.blkSize ok)
    (hg : nor.Geometry) (hsh : Shows nor size mem I ok st m)
    (hh : CacheOp.Harmless nor mem st a) (hp : CacheOp.Proper nor size m a) :
    (cacheStep ops nor st a).1 = (plainStep m a).1 ∧
      Shows nor size mem I ok (cacheStep ops nor st a).2 (plainStep m a).2 := by
  obtain ⟨c, s⟩ := st
  cases a with
  | write addr buf =>
    rcases h : norCacheWrite ops nor addr buf c s with ⟨ret, c', s'⟩
    obtain ⟨rfl, hsh'⟩ := norCacheWrite_shows hs hl hg hsh hp h
    simp only [cacheStep, h]
    exact ⟨rfl, hsh'⟩
  | read addr len =>
    rcases h : norCacheRead ops nor addr len c s with ⟨⟨ret, d⟩, c', s'⟩
    obtain ⟨hd, hsh'⟩ := norCacheRead_shows hs hl hg hsh hp hh h
    simp only [cacheStep, h]
    refine ⟨?_, hsh'⟩
    by_cases hz : len = 0
    · subst hz
      rfl
    · obtain ⟨rfl, rfl⟩ := hd hz
      rw [if_neg hz]
      rfl
  | erase addr len =>
    rcases h : norCacheErase ops nor addr len c s with ⟨ret, c', s'⟩
    obtain ⟨rfl, hsh'⟩ := norCacheErase_shows hs hl hg hsh hp hh h
    simp only [cacheStep, h]
    exact ⟨rfl, hsh'⟩
  | sync =>
    rcases h : norCacheSync ops nor c s with ⟨ret, c', s'⟩
    obtain ⟨rfl, -, hsh'⟩ := norCacheSync_shows hs hl hg hsh h
    simp only [cacheStep, h]
    exact ⟨rfl, hsh'⟩

theorem NorCache.fresh_valid (hg : nor.Geometry) (lastWrite size : Nat) :
    (NorCache.fresh nor lastWrite).Valid nor size where
  pageCnt := by rw [NorCache.fresh, hg.page]
  blkCnt := rfl
  window := .inr ⟨rfl, fun _ => rfl, fun _ => rfl⟩
  page _ h := by cases h
  blk _ h := by cases h

theorem NorCache.fresh_clean (nor : NorFlash) (lastWrite : Nat) :
    ((NorCache.fresh nor lastWrite).overlay nor).Clean :=
  NorCache.overlay_clean (fun _ => rfl) fun _ => rfl

/-- In every run of harmless calls the cache answers as the plain flash, and a sync that returns 0
leaves it. -/
theorem norCache_transparent {nor : Nor SpiBus} (hu : nor.Unlocks cfg)
    (hg : nor.toNorFlash.Geometry) (he : nor.toNorFlash.ErasesSectors)
    (hsize : size < 0x100000000) (hr : nor.toNorFlash.Ready size b)
    (hp : Along plainStep (CacheOp.Proper nor.toNorFlash size) b.chip.mem calls)
    (hh : Along (cacheStep (coreOps cfg busPort nor) nor.toNorFlash)
      (CacheOp.Harmless nor.toNorFlash fun b => b.chip.mem)
      (NorCache.fresh nor.toNorFlash lastWrite, b) calls) :
    let r := run (cacheStep (coreOps cfg busPort nor) nor.toNorFlash)
      (NorCache.fresh nor.toNorFlash lastWrite, b) calls
    let plain := run plainStep b.chip.mem calls
    r.1 = plain.1 ∧ ∀ c' b',
      norCacheSync (coreOps cfg busPort nor) nor.toNorFlash r.2.1 r.2.2 = (0, c', b') →
        b'.chip.mem = plain.2 := by
  have hs := coreOps_sound hu hsize
  have hl := coreOps_live hu he size
  have hclean := NorCache.fresh_clean nor.toNorFlash lastWrite
  have hsh : Shows nor.toNorFlash size (fun b => b.chip.mem) (nor.toNorFlash.On size)
      (nor.toNorFlash.Ready size) (NorCache.fresh nor.toNorFlash lastWrite, b) b.chip.mem :=
    ⟨hr.1, hr, NorCache.fresh_valid hg _ _, hclean.programmable _, hclean.view _⟩
  obtain ⟨hout, hsh'⟩ := Runs.simulation (by
    intro st m call
    exact cacheStep_shows hs hl hg) hsh hh hp
  refine ⟨hout, ?_⟩
  intro c' b' hsync
  exact (norCacheSync_shows hs hl hg hsh' hsync).2.1

theorem norCache_stale_page :
    ¬ ∀ calls : List CacheOp,
      Along plainStep (CacheOp.Proper norW25q64jv.toNorFlash 0x800000) (fun _ => 0xFF) calls →
        (run (cacheStep (coreOps ⟨false, true, true⟩ busPort norW25q64jv)
          norW25q64jv.toNorFlash) (NorCache.fresh norW25q64jv.toNorFlash 0,
            .atRest w25q64jv.id 0x800000 fun _ => 0xFF) calls).1 =
          (run plainStep (fun _ => 0xFF) calls).1 := by
  intro h
  have hp : Along plainStep (CacheOp.Proper norW25q64jv.toNorFlash 0x800000) (fun _ => 0xFF)
      [.write 0 (List.replicate 256 0), .erase 0 0x1000, .read 0 256] :=
    ⟨⟨by decide, by decide +kernel, by decide +kernel, fun _ _ _ => rfl⟩,
      ⟨by decide, by decide, by decide⟩, ⟨by decide, by decide, by decide⟩, trivial⟩
  exact absurd (h _ hp) (by decide +kernel)

theorem norW25q64jv_geometry : norW25q64jv.toNorFlash.Geometry := ⟨rfl, .inl rfl⟩

theorem norCache_transparent_w25q64jv :
    let calls := [CacheOp.erase 0x1000 0x2000, .write 0x1300 (List.replicate 256 0x5A),
      .read 0x1000 0x10100]
    let r := run (cacheStep (coreOps ⟨false, true, true⟩ busPort norW25q64jv)
      norW25q64jv.toNorFlash) (NorCache.fresh norW25q64jv.toNorFlash 0,
        .atRest w25q64jv.id 0x800000 fun _ => 0xFF) calls
    let plain := run plainStep (fun _ => 0xFF) calls
    r.1 = plain.1 ∧ ∀ c' b',
      norCacheSync (coreOps ⟨false, true, true⟩ busPort norW25q64jv)
        norW25q64jv.toNorFlash r.2.1 r.2.2 = (0, c', b') → b'.chip.mem = plain.2 :=
  norCache_transparent (Nor.unlocks_of_noLock rfl) norW25q64jv_geometry norW25q64jv_erases
    (by decide) (norW25q64jv_ready _)
    ⟨⟨by decide, by decide, by decide⟩,
      ⟨by decide, by decide +kernel, by decide +kernel, fun _ _ _ => ite_self _⟩,
      ⟨by decide, by decide, by decide⟩, trivial⟩
    ⟨fun i _ _ h => Bool.noConfusion ((NorCache.fresh_clean _ _ i).1.symm.trans h), trivial,
      fun _ _ _ => .inl (by decide), trivial⟩

end D1Flash
