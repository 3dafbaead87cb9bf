import D1Flash.Spinor.CacheTransparent

namespace D1Flash
open NorArray (Overlay)
set_option autoImplicit true

/-- The cache over the flash: a window, and dirty pages that can still be programmed. -/
structure NorCache.Safe (c : NorCache) (nor : NorFlash) (size : Nat) (m : Nat → Byte) : Prop where
  valid : c.Valid nor size
  programmable : (c.overlay nor).Programmable m

/-- The logical contents: dirty pages as buffered, other pages of pending blocks as erased, the rest
as in the flash. -/
def NorCache.contents (c : NorCache) (nor : NorFlash) (m : Nat → Byte) : Nat → Byte :=
  (c.overlay nor).view m

variable {nor : NorFlash} {c c' : NorCache} {m m' : Nat → Byte}

theorem NorCache.Kept.contents (hk : NorCache.Kept nor size c c' m m') (hc : c.Safe nor size m) :
    c'.Safe nor size m' ∧ c'.contents nor m' = c.contents nor m :=
  ⟨⟨hk.valid, hk.programmable hc.programmable⟩, hk.view hc.programmable⟩

/-- Wherever a flush stops, the contents stay, and a later flush that returns 0 leaves them in the
flash; it returns 0 where the bus fails no more and the chip is ready. -/
theorem norFlushCache_crashSafe {nor : Nor SpiBus} (hu : nor.Unlocks cfg)
    (hg : nor.toNorFlash.Geometry) (hsize : size < 0x100000000) (hI : nor.toNorFlash.On size b)
    (hc : c.Safe nor.toNorFlash size b.chip.mem)
    (h : norFlushCache (coreOps cfg busPort nor) nor.toNorFlash c b = (ret, c', b')) :
    c'.Safe nor.toNorFlash size b'.chip.mem ∧
      c'.contents nor.toNorFlash b'.chip.mem = c.contents nor.toNorFlash b.chip.mem ∧
      (∀ b₁ c₂ b₂, nor.toNorFlash.On size b₁ → b₁.chip.mem = b'.chip.mem →
        norFlushCache (coreOps cfg busPort nor) nor.toNorFlash c' b₁ = (0, c₂, b₂) →
        b₂.chip.mem = c.contents nor.toNorFlash b.chip.mem) ∧
      (nor.toNorFlash.ErasesSectors → ∀ b₁, nor.toNorFlash.Ready size b₁ →
        ∃ c₂ b₂, norFlushCache (coreOps cfg busPort nor) nor.toNorFlash c' b₁ = (0, c₂, b₂)) := by
  have hs := coreOps_sound hu hsize
  obtain ⟨-, hk, -⟩ := norFlushCache_spec hs hg hc.valid hI h
  obtain ⟨hc', hview⟩ := hk.contents hc
  refine ⟨hc', hview, ?_, ?_⟩
  · intro b₁ c₂ b₂ hI₁ hm₁ h₂
    obtain ⟨-, -, hd⟩ := norFlushCache_spec hs hg hc'.valid hI₁ h₂
    obtain ⟨-, -, hm₂⟩ := hd rfl
    calc b₂.chip.mem
        = (c'.overlay nor.toNorFlash).flushed b₁.chip.mem := hm₂
      _ = (c'.overlay nor.toNorFlash).flushed b'.chip.mem := by rw [hm₁]
      _ = c'.contents nor.toNorFlash b'.chip.mem := hc'.programmable.flushed
      _ = c.contents nor.toNorFlash b.chip.mem := hview
  · intro he b₁ hready
    rcases h₂ : norFlushCache (coreOps cfg busPort nor) nor.toNorFlash c' b₁ with ⟨ret₂, c₂, b₂⟩
    obtain ⟨-, rfl⟩ :=
      norFlushCache_live hs (coreOps_live hu he size) hg hc'.valid hready.1 hready h₂
    exact ⟨c₂, b₂, rfl⟩

/-- A window at 0 of which block 0 is pending and pages 0 and 16 are dirty, over a
flash of zeros. -/
def mixedCache : NorCache where
  buf _ := 0
  addr := 0
  lastWrite := 16
  bitmapPage p := p == 0 || p == 16
  pageCnt := 256
  bitmapBlk b := b == 0
  blkCnt := 16

theorem mixedCache_safe : mixedCache.Safe norW25q64jv.toNorFlash 0x800000 fun _ => 0 where
  valid :=
    { pageCnt := rfl
      blkCnt := rfl
      window := .inl rfl
      page := by
        intro p hp
        have : p = 0 ∨ p = 16 := by simpa [mixedCache] using hp
        rcases this with rfl | rfl <;> decide
      blk := by
        intro b hb
        have : b = 0 := by simpa [mixedCache] using hb
        subst this
        decide }
  programmable i _ := by
    have hbuf : (mixedCache.overlay norW25q64jv.toNorFlash).buf i = 0 := by
      simp only [NorCache.overlay, mixedCache, Nat.zero_le, if_true]
    rw [hbuf]
    exact UInt8.and_zero

/-- A bus on which the first page program of the flush below fails when 100 bytes have arrived. -/
def brownoutBus : SpiBus :=
  { SpiBus.atRest w25q64jv.id 0x800000 (fun _ => 0) with
    faults := fun i => if i = 9 then some (.after 100) else none }

/-- The flush stops at the brownout, and one after it puts the contents into the flash. -/
theorem norFlushCache_crashSafe_w25q64jv :
    ∃ ret c' b' c₂ b₂, norFlushCache (coreOps ⟨false, true, true⟩ busPort norW25q64jv)
        norW25q64jv.toNorFlash mixedCache brownoutBus = (ret, c', b') ∧
      ret ≠ 0 ∧ c'.Safe norW25q64jv.toNorFlash 0x800000 b'.chip.mem ∧
      c'.contents norW25q64jv.toNorFlash b'.chip.mem =
        mixedCache.contents norW25q64jv.toNorFlash brownoutBus.chip.mem ∧
      norFlushCache (coreOps ⟨false, true, true⟩ busPort norW25q64jv) norW25q64jv.toNorFlash c'
        (.atRest w25q64jv.id 0x800000 b'.chip.mem) = (0, c₂, b₂) ∧
      b₂.chip.mem = mixedCache.contents norW25q64jv.toNorFlash brownoutBus.chip.mem := by
  have hret : (norFlushCache (coreOps ⟨false, true, true⟩ busPort norW25q64jv)
      norW25q64jv.toNorFlash mixedCache brownoutBus).1 ≠ 0 := by decide +kernel
  rcases h : norFlushCache (coreOps ⟨false, true, true⟩ busPort norW25q64jv)
    norW25q64jv.toNorFlash mixedCache brownoutBus with ⟨ret, c', b'⟩
  rw [h] at hret
  obtain ⟨hsafe, hview, hlater, hlive⟩ := norFlushCache_crashSafe (Nor.unlocks_of_noLock rfl)
    norW25q64jv_geometry (by decide) (norW25q64jv_on rfl) mixedCache_safe h
  have hready := norW25q64jv_ready b'.chip.mem
  obtain ⟨c₂, b₂, h₂⟩ := hlive norW25q64jv_erases _ hready
  exact ⟨ret, c', b', c₂, b₂, rfl, hret, hsafe, hview, h₂, hlater _ c₂ b₂ hready.1 rfl h₂⟩

end D1Flash
