import D1Flash.FlashRoundTrip

namespace D1Flash
open NorArray (program)
set_option autoImplicit true

/-- The program path below `flashProgram`, whatever fails: a prefix of the data is programmed, and
all of it when the call succeeds. -/
theorem csiSpiflashProgram_direct {st : Spinor SpiBus} (hc : cfg.writeLock = false)
    (hs : st.Direct) (hle : dst + data.length ≤ st.dev.chip.size)
    (h : csiSpiflashProgram cfg busPort dst data st = (ret, st')) :
    ∃ b, st' = st.onDev b ∧ st.dev.Kept b ∧ ∃ k, (0 ≤ ret → k = data.length) ∧
      b.chip.mem = program st.dev.chip.mem dst (data.take k) := by
  have hdst : dst < 0x100000000 :=
    Nat.lt_of_le_of_lt (Nat.le_trans (Nat.le_add_right _ _) hle) hs.drives.size_lt
  rcases h₁ : norWrite cfg busPort st.nor dst data st.dev with ⟨ret₁, b⟩
  obtain ⟨hk, hm, -, -⟩ := norWrite_bus (Nor.unlocks_of_noLock hc) hs.drives hdst h₁
  obtain ⟨k, -, hkr, hm⟩ := hm hle
  simp only [csiSpiflashProgram, halSpinorProgramData, hs.noCache, h₁] at h
  by_cases h0 : ret₁ = 0
  · rw [if_neg (not_not.2 h0)] at h
    obtain ⟨-, rfl⟩ := Prod.mk.inj h
    exact ⟨b, rfl, hk, k, fun _ => hkr h0, hm⟩
  · rw [if_pos h0] at h
    obtain ⟨rfl, rfl⟩ := Prod.mk.inj h
    exact ⟨b, rfl, hk, k, fun h => absurd h (by decide), hm⟩

/-- A `flashProgram` that answers 0 has met the range with its data: it skips no byte that would
have changed one. -/
theorem flashProgram_meets {st : Spinor SpiBus} (hc : cfg.writeLock = false) (hs : st.Direct)
    (hlen : length < 0x80000000) (hsrc : length ≤ src.length)
    (hle : dst + length ≤ st.dev.chip.size)
    (h : flashProgram cfg busPort dst src (length : Nat) st = (0, st')) :
    ∃ b, st' = st.onDev b ∧ st.dev.Kept b ∧
      b.chip.mem = program st.dev.chip.mem dst (src.take length) := by
  have hdata : (src.take length).length = length := List.length_take_of_le hsrc
  unfold flashProgram at h
  rw [Int.toNat_natCast, toU32_of_lt hlen] at h
  cases hany : (src.take length).any (· != (0xFF : Byte)) with
  | false =>
    rw [hany, if_neg Bool.false_ne_true] at h
    obtain ⟨-, rfl⟩ := Prod.mk.inj h
    exact ⟨st.dev, rfl, .refl _, (NorArray.program_erased _ (any_ne_erased hany)).symm⟩
  | true =>
    rw [hany, if_pos rfl] at h
    rcases h₁ : csiSpiflashProgram cfg busPort dst (src.take length) st with ⟨ret, st₁⟩
    obtain ⟨b, rfl, hk, k, hkr, hm⟩ :=
      csiSpiflashProgram_direct hc hs (hdata.symm ▸ hle) h₁
    rw [h₁] at h
    dsimp only at h
    by_cases hneg : ret < 0
    · rw [if_pos hneg] at h
      exact absurd (Prod.mk.inj h).1 (by decide)
    · rw [if_neg hneg] at h
      obtain ⟨-, rfl⟩ := Prod.mk.inj h
      refine ⟨b, rfl, hk, ?_⟩
      rw [hm, hkr (Int.not_lt.1 hneg), List.take_length]

/-- A program over any contents ands the data into its range and changes nothing else; a buffer it
skips is one that the program path would have left without effect; and a second program of the
buffer changes nothing. -/
theorem flashProgram_overwrites {st : Spinor SpiBus} (hc : cfg.writeLock = false)
    (hs : st.Direct) (hlen : length < 0x80000000) (hsrc : length ≤ src.length)
    (hle : dst + length ≤ st.dev.chip.size)
    (h : flashProgram cfg busPort dst src (length : Nat) st = (0, st₁)) :
    (∀ i, st₁.dev.chip.mem i =
        if dst ≤ i ∧ i < dst + length then st.dev.chip.mem i &&& src.getD (i - dst) 0xFF
        else st.dev.chip.mem i) ∧
      ((∀ x ∈ src.take length, x = 0xFF) →
        st₁ = st ∧ ∀ ret st₂, csiSpiflashProgram cfg busPort dst (src.take length) st = (ret, st₂) →
          st₂.dev.chip.mem = st.dev.chip.mem) ∧
      ∀ st₂, flashProgram cfg busPort dst src (length : Nat) st₁ = (0, st₂) →
        st₂.dev.chip.mem = st₁.dev.chip.mem := by
  have hdata : (src.take length).length = length := List.length_take_of_le hsrc
  obtain ⟨b, rfl, hk, hm⟩ := flashProgram_meets hc hs hlen hsrc hle h
  refine ⟨?_, ?_, ?_⟩
  · intro i
    rw [Spinor.onDev_dev, hm]
    by_cases hi : dst ≤ i ∧ i < dst + length
    · have htake : (src.take length).getD (i - dst) 0xFF = src.getD (i - dst) 0xFF := by
        rw [List.getD_eq_getElem _ _ (by omega), List.getElem_take,
          List.getD_eq_getElem _ _ (by omega)]
      rw [if_pos hi, NorArray.program_inside _ hi.1]
      exact congrArg (st.dev.chip.mem i &&& ·) htake
    · rw [if_neg hi, NorArray.program_outside _ (by omega)]
  · intro herased
    constructor
    · have hany : (src.take length).any (· != (0xFF : Byte)) = false := by
        rw [List.any_eq_false]
        intro x hx
        rw [herased x hx]
        decide
      unfold flashProgram at h
      rw [Int.toNat_natCast, hany, if_neg Bool.false_ne_true] at h
      exact (Prod.mk.inj h).2.symm
    · intro ret st₂ h₂
      obtain ⟨b₂, rfl, -, k, -, hm₂⟩ := csiSpiflashProgram_direct hc hs (hdata.symm ▸ hle) h₂
      rw [Spinor.onDev_dev, hm₂]
      exact NorArray.program_erased _ fun x hx => herased x (List.mem_of_mem_take hx)
  · intro st₂ h₂
    obtain ⟨b₂, rfl, -, hm₂⟩ :=
      flashProgram_meets hc (hs.on hk) hlen hsrc (hk.size.symm ▸ hle) h₂
    rw [Spinor.onDev_dev, hm₂, Spinor.onDev_dev, hm]
    exact NorArray.program_again _

theorem flashProgram_overwrites_w25q64jv :
    let st₁ := (flashProgram ⟨false, false, true⟩ busPort 0x100FF [0x12, 0x34] (2 : Nat)
      directW25q64jv).2
    (∀ i, st₁.dev.chip.mem i =
        if 0x100FF ≤ i ∧ i < 0x100FF + 2 then
          directW25q64jv.dev.chip.mem i &&& [0x12, 0x34].getD (i - 0x100FF) 0xFF
        else directW25q64jv.dev.chip.mem i) ∧
      ((∀ x ∈ ([0x12, 0x34] : List Byte).take 2, x = 0xFF) →
        st₁ = directW25q64jv ∧ ∀ ret st₂,
          csiSpiflashProgram ⟨false, false, true⟩ busPort 0x100FF ([0x12, 0x34].take 2)
              directW25q64jv = (ret, st₂) →
            st₂.dev.chip.mem = directW25q64jv.dev.chip.mem) ∧
      ∀ st₂, flashProgram ⟨false, false, true⟩ busPort 0x100FF [0x12, 0x34] (2 : Nat) st₁ =
          (0, st₂) → st₂.dev.chip.mem = st₁.dev.chip.mem :=
  flashProgram_overwrites rfl directW25q64jv_direct (by decide) (by decide) (by decide)
    (Prod.ext (by decide +kernel) rfl)

end D1Flash
