import D1Flash.FlashDriver
import D1Flash.Spinor.EraseSpec
import D1Flash.Spinor.ReadSpec
import D1Flash.Spinor.WriteSpec

namespace D1Flash
open NorArray (erase program slice)
set_option autoImplicit true

/-- A driver without a cache on a chip that it describes. -/
structure Spinor.Direct (st : Spinor SpiBus) : Prop where
  noCache : st.cache = none
  drives : st.nor.toNorFlash.Drives st.dev.chip

theorem Spinor.Direct.on {st : Spinor SpiBus} (h : st.Direct) (hk : st.dev.Kept b) :
    (st.onDev b).Direct :=
  ⟨h.noCache, hk.drives h.drives⟩

theorem flashErase_direct {st : Spinor SpiBus} (hc : cfg.writeLock = false) (hs : st.Direct)
    (hle : base + toU32 length ≤ st.dev.chip.size)
    (h : flashErase cfg busPort base length st = (0, st')) :
    ∃ b, st' = st.onDev b ∧ st.dev.Kept b ∧
      b.chip.mem = erase st.dev.chip.mem base (toU32 length) := by
  unfold flashErase csiSpiflashErase halSpinorEraseSector at h
  simp only [hs.noCache] at h
  rcases h₁ : norErase cfg busPort st.nor base (toU32 length) st.dev with ⟨ret, b⟩
  obtain ⟨hk, ⟨k, -, hkr, hm⟩, -⟩ := norErase_bus (Nor.unlocks_of_noLock hc) hs.drives hle h₁
  simp only [h₁] at h
  split at h
  · cases (Prod.mk.inj h).1
  · split at h
    · cases (Prod.mk.inj h).1
    · by_cases h0 : ret = 0
      · simp only [h0, ne_eq, not_true_eq_false, if_false, Prod.mk.injEq, true_and] at h
        exact ⟨b, h.symm, hk, by rw [hm, hkr h0]⟩
      · rw [if_pos h0] at h
        cases (Prod.mk.inj h).1

theorem any_ne_erased {data : List Byte} (h : data.any (· != (0xFF : Byte)) = false) :
    ∀ x ∈ data, x = 0xFF := by
  intro x hx
  have := List.any_eq_false.1 h x hx
  simpa only [bne_iff_ne, ne_eq, not_not] using this

theorem flashProgram_direct {st : Spinor SpiBus} (hc : cfg.writeLock = false) (hs : st.Direct)
    (hrel : st.dev.Reliable) (hlen : data.length < 0x80000000)
    (hle : dst + data.length ≤ st.dev.chip.size) :
    ∃ b, flashProgram cfg busPort dst data (data.length : Nat) st = (0, st.onDev b) ∧
      st.dev.Kept b ∧ b.chip.mem = program st.dev.chip.mem dst data := by
  have hall : data.take (Int.toNat (data.length : Nat)) = data := List.take_length
  unfold flashProgram
  rw [hall, toU32_of_lt hlen, List.take_length]
  cases hany : data.any (· != (0xFF : Byte)) with
  | false =>
    exact ⟨st.dev, rfl, .refl _, (NorArray.program_erased _ (any_ne_erased hany)).symm⟩
  | true =>
    have hne : data ≠ [] := by
      rintro rfl
      cases hany
    have hdst : dst < 0x100000000 :=
      Nat.lt_of_le_of_lt (Nat.le_trans (Nat.le_add_right _ _) hle) hs.drives.size_lt
    rcases h₁ : norWrite cfg busPort st.nor dst data st.dev with ⟨ret, b⟩
    obtain ⟨hk, hm, -, hr⟩ := norWrite_bus (Nor.unlocks_of_noLock hc) hs.drives hdst h₁
    have h0 := hr hrel hne
    obtain ⟨k, -, hkr, hm⟩ := hm hle
    refine ⟨b, ?_, hk, by rw [hm, hkr h0, List.take_length]⟩
    simp only [csiSpiflashProgram, halSpinorProgramData, hs.noCache, h₁, h0, ne_eq,
      not_true_eq_false, if_false, if_true, if_neg (toI32_nonneg hlen)]

theorem flashRead_direct (cfg : Config) {st : Spinor SpiBus} (hs : st.Direct)
    (hrel : st.dev.Reliable)
    (hpos : 0 < n) (hlen : n < 0x80000000) (hle : dst + n ≤ st.dev.chip.size) :
    ∃ b, flashRead cfg busPort dst (n : Nat) st =
        ((0, slice st.dev.chip.mem dst n), st.onDev b) ∧
      st.dev.Kept b ∧ b.chip.mem = st.dev.chip.mem := by
  have hdst : dst < 0x100000000 :=
    Nat.lt_of_le_of_lt (Nat.le_trans (Nat.le_add_right _ _) hle) hs.drives.size_lt
  rcases h₁ : norRead busPort st.nor dst n st.dev with ⟨⟨ret, d⟩, b⟩
  obtain ⟨hp, hd, -, hr⟩ := norRead_bus hs.drives hdst h₁
  have h0 := hr hrel hpos
  refine ⟨b, ?_, hp.toKept, hp.mem⟩
  simp only [flashRead, csiSpiflashRead, halSpinorReadData, toU32_of_lt hlen, hs.noCache, h₁, h0,
    hd h0 hle, ne_eq, not_true_eq_false, if_false, if_neg (toI32_nonneg hlen)]

/-- What is programmed into an erased range is read back; the rest of the range is erased and
nothing else changes. -/
theorem flash_roundTrip {st : Spinor SpiBus} (hc : cfg.writeLock = false) (hs : st.Direct)
    (hrel : st.dev.Reliable) (hne : data ≠ []) (hlen : data.length < 0x80000000)
    (hin : base + toU32 length ≤ st.dev.chip.size) (hlo : base ≤ dst)
    (hhi : dst + data.length ≤ base + toU32 length)
    (herase : flashErase cfg busPort base length st = (0, st₁)) :
    ∃ st₂ st₃, flashProgram cfg busPort dst data (data.length : Nat) st₁ = (0, st₂) ∧
      flashRead cfg busPort dst (data.length : Nat) st₂ = ((0, data), st₃) ∧
      ∀ i, st₃.dev.chip.mem i =
        if dst ≤ i ∧ i < dst + data.length then data.getD (i - dst) 0xFF
        else if base ≤ i ∧ i < base + toU32 length then 0xFF
        else st.dev.chip.mem i := by
  obtain ⟨b₁, rfl, hk₁, hm₁⟩ := flashErase_direct hc hs hin herase
  have hle : dst + data.length ≤ b₁.chip.size := hk₁.size ▸ Nat.le_trans hhi hin
  obtain ⟨b₂, h₂, hk₂, hm₂⟩ :=
    flashProgram_direct hc (hs.on hk₁) (hk₁.reliable hrel) hlen hle
  obtain ⟨b₃, h₃, -, hm₃⟩ :=
    flashRead_direct cfg ((hs.on hk₁).on hk₂) (hk₂.reliable (hk₁.reliable hrel))
      (List.length_pos_iff.2 hne) hlen (hk₂.size ▸ hle)
  have herased : ∀ i, dst ≤ i → i < dst + data.length → b₁.chip.mem i = NorArray.erased := by
    intro i hi hi'
    rw [hm₁, NorArray.erase_inside _ (by omega) (by omega)]
  refine ⟨_, ((st.onDev b₁).onDev b₂).onDev b₃, h₂, ?_, fun i => ?_⟩
  · rw [h₃, Spinor.onDev_dev, hm₂, Spinor.onDev_dev, NorArray.slice_program _ herased]
  · rw [Spinor.onDev_dev, hm₃, Spinor.onDev_dev, hm₂, Spinor.onDev_dev]
    by_cases hi : dst ≤ i ∧ i < dst + data.length
    · rw [if_pos hi, NorArray.program_inside _ hi.1, herased i hi.1 hi.2, NorArray.erased_meet]
      rfl
    · rw [if_neg hi, NorArray.program_outside _ (by omega), hm₁]
      rfl

/-- A driver without a cache on a w25q64jv full of zeros. -/
def directW25q64jv : Spinor SpiBus where
  nor := { NorFlash.serial w25q64jv norBlkSize with factory := none }
  fhead := .empty
  cache := none
  bitmapBlk := false
  lastWrite := 0
  dev := .atRest w25q64jv.id w25q64jv.totalSize fun _ => 0

theorem directW25q64jv_direct : directW25q64jv.Direct :=
  ⟨rfl, NorFlash.serial_drives _ _ rfl (by decide)⟩

theorem flash_roundTrip_w25q64jv :
    ∃ st₂ st₃,
      flashProgram ⟨false, false, false⟩ busPort 0x10080 [0x12, 0x34] 2
        (flashErase ⟨false, false, false⟩ busPort 0x10000 0x10000 directW25q64jv).2 = (0, st₂) ∧
      flashRead ⟨false, false, false⟩ busPort 0x10080 2 st₂ = ((0, [0x12, 0x34]), st₃) ∧
      ∀ i, st₃.dev.chip.mem i =
        if 0x10080 ≤ i ∧ i < 0x10080 + 2 then [0x12, 0x34].getD (i - 0x10080) 0xFF
        else if 0x10000 ≤ i ∧ i < 0x10000 + toU32 0x10000 then 0xFF
        else directW25q64jv.dev.chip.mem i :=
  flash_roundTrip rfl directW25q64jv_direct
    (SpiBus.atRest_reliable _ _ _) (by decide) (by decide) (by decide) (by decide) (by decide)
    (Prod.ext (by decide +kernel) rfl)

end D1Flash
