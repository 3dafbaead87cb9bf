import D1Flash.Spinor.FlashOps
import D1Flash.Spinor.HalSpinor

namespace D1Flash
open NorArray (erase)
set_option autoImplicit true

/-- What a scan that succeeds leaves in the record. -/
structure NorFlash.Scanned (nor : NorFlash) (cfg : Config) (entry : NorInfo) : Prop where
  info : nor.info = some entry
  totalSize : nor.totalSize = entry.totalSize
  addrWidth : nor.addrWidth = if entry.totalSize > sz16M then 4 else 3
  blkSize : scanBlkSize cfg entry = some nor.blkSize
  cmdWrite : nor.cmdWrite = (scanProgram nor entry).1
  cmdRead : nor.cmdRead = (scanRead nor entry).1

variable {cfg : Config} {p : Platform δ} {st st' : Spinor δ}

theorem scanCommands_ok (h : scanCommands info st = (0, st')) :
    st'.nor = { st.nor with
      cmdWrite := (scanProgram st.nor.toNorFlash info).1
      wCmdSlen := (scanProgram st.nor.toNorFlash info).2
      cmdRead := (scanRead st.nor.toNorFlash info).1
      rCmdSlen := (scanRead st.nor.toNorFlash info).2 } := by
  rw [scanCommands] at h
  dsimp only at h
  split at h
  · split at h
    · exact (‹_ ≠ _› (Prod.mk.inj h).1).elim
    · rw [← (Prod.mk.inj h).2]
      rfl
  · rw [← (Prod.mk.inj h).2]

theorem norScan_scanned (h : norScan cfg p st = (0, st')) :
    ∃ info, st'.nor.toNorFlash.Scanned cfg info := by
  rw [norScan] at h
  rcases h₁ : norReadId p st.dev with ⟨⟨ret₁, id⟩, s⟩
  rw [h₁] at h
  dsimp only at h
  by_cases h0 : ret₁ = 0
  swap
  · rw [if_pos h0] at h
    exact (h0 (Prod.mk.inj h).1).elim
  rw [if_neg (not_not.2 h0)] at h
  cases hf : matchNorFrom p.factory (st.onDev s).fhead id (factoryNames.length + 1)
    (st.onDev s).fhead.head with
  | none =>
    rw [hf] at h
    exact absurd (Prod.mk.inj h).1 (by decide)
  | some found =>
    rw [hf] at h
    dsimp only at h
    cases hb : scanBlkSize cfg found.2.withGeneral with
    | none =>
      rw [hb] at h
      exact absurd (Prod.mk.inj h).1 (by decide)
    | some blkSize =>
      rw [hb] at h
      have hnor := scanCommands_ok h
      refine ⟨found.2.withGeneral, ?_⟩
      rw [hnor]
      exact ⟨rfl, rfl, rfl, hb, rfl, rfl⟩

theorem NorFlash.Scanned.width {nor : NorFlash} (h : nor.Scanned cfg entry) :
    nor.addrWidth = 3 ∨ nor.addrWidth = 4 := by
  rw [h.addrWidth]
  split
  · exact .inr rfl
  · exact .inl rfl

theorem chipOp_cmd4Bytes {nor : NorFlash} {cmd cmd4B : Byte} {f : Nat → ChipOp}
    (hw : nor.addrWidth = 3 ∨ nor.addrWidth = 4) (h3 : chipOp cmd = f 3)
    (h4 : chipOp cmd4B = f 4) : chipOp (cmd4Bytes nor cmd cmd4B) = f nor.addrWidth := by
  rw [cmd4Bytes]
  rcases hw with hw | hw
  · rw [if_neg (by rw [hw]; decide), h3, hw]
  · rw [if_pos hw, h4, hw]

theorem NorFlash.Scanned.drives {nor : NorFlash} {c : NorChip} (h : nor.Scanned cfg entry)
    (hs : c.size = entry.totalSize) : nor.Drives c where
  info := by rw [h.info]; rfl
  width := h.width
  fits := by
    rw [hs, h.addrWidth]
    have := entry.totalSize_lt
    split
    · exact Nat.le_of_lt this
    · exact Nat.le_of_not_lt ‹_›
  size_lt := hs ▸ entry.totalSize_lt
  totalSize := h.totalSize.trans hs.symm
  cmdRead := by
    rw [h.cmdRead, scanRead]
    split
    · split <;> exact chipOp_cmd4Bytes h.width (by decide) (by decide)
    · split
      · split <;> exact chipOp_cmd4Bytes h.width (by decide) (by decide)
      · exact chipOp_cmd4Bytes h.width (by decide) (by decide)
  cmdWrite := by
    rw [h.cmdWrite, scanProgram]
    split
    · split <;> exact chipOp_cmd4Bytes h.width (by decide) (by decide)
    · exact chipOp_cmd4Bytes h.width (by decide) (by decide)

/-- On a chip at rest on which nothing fails, every sector that the driver reports is erased by
its own request, and nothing else is. -/
def SectorsErasable (cfg : Config) (st : Spinor SpiBus) : Prop :=
  ∀ hal, halSpinorGetInfo st = some hal → ∀ b, st.nor.toNorFlash.Ready st.nor.totalSize b →
    ∀ k < hal.sectorCount, ∃ b',
      norErase cfg busPort st.nor (k * hal.sectorSize) hal.sectorSize b = (0, b') ∧
        b'.chip.mem = erase b.chip.mem (k * hal.sectorSize) hal.sectorSize

/-- The flags allow an erase command that fits the sector size of the scan. -/
def SectorsFit (cfg : Config) (info : NorInfo) : Prop :=
  if cfg.sectors4K then info.has support4KEraseBlk = true
  else if info.has support64KEraseBlk then
    ¬ info.has use4KErase ∨ info.has support4KEraseBlk ∨ info.totalSize = sz64K
  else info.has support32KEraseBlk ∧ (¬ info.has use4KErase ∨ info.has support4KEraseBlk)

/-- A request of no erase command, or of a part of 4K, is turned away. -/
theorem norErase_rejects (cfg : Config) {nor : Nor δ} (p : SpiPort δ) (hi : nor.info = some info)
    (h : size % sz4K ≠ 0 ∨ eraseCmdFor info addr size = none ∧ size ≠ 0 ∧
      ¬ (addr = 0 ∧ size = nor.totalSize)) (s : δ) : (norErase cfg p nor addr size s).1 ≠ 0 := by
  rw [norErase, hi]
  dsimp only
  by_cases h4K : size % sz4K ≠ 0
  · rw [if_pos h4K]
    exact show -eInval ≠ 0 by decide
  obtain ⟨hcmd, hz, hall⟩ := h.resolve_left h4K
  rw [if_neg h4K, if_neg hall]
  split
  · exact show -eInval ≠ 0 by decide
  · obtain ⟨n, rfl⟩ := Nat.exists_eq_succ_of_ne_zero hz
    rw [norEraseLoop, if_neg hz, hcmd]
    exact show -eInval ≠ 0 by decide

/-- Sectors that fit are whole blocks of a supported size, or the chip is one sector. -/
theorem SectorsFit.erases (h : SectorsFit cfg info) (hb : scanBlkSize cfg info = some blk) :
    (∃ g, info.erasesBy g = true ∧ blk % g.bytes = 0) ∨ blk = info.totalSize := by
  rw [SectorsFit] at h
  rw [scanBlkSize] at hb
  by_cases hc : cfg.sectors4K = true
  · rw [if_pos hc] at h hb
    obtain rfl := Option.some.inj hb
    exact .inl ⟨.blk4K, h, rfl⟩
  rw [if_neg hc] at h hb
  by_cases h64 : info.has support64KEraseBlk = true
  · rw [if_pos h64] at h hb
    obtain rfl := Option.some.inj hb
    rcases h with hu | h4 | ht
    · refine .inl ⟨.blk64K, ?_, rfl⟩
      rw [NorInfo.erasesBy, h64, Bool.eq_false_iff.2 hu]
      rfl
    · exact .inl ⟨.blk4K, h4, rfl⟩
    · exact .inr ht.symm
  rw [if_neg h64] at h hb
  rw [if_pos h.1] at hb
  obtain rfl := Option.some.inj hb
  rcases h.2 with hu | h4
  · refine .inl ⟨.blk32K, ?_, rfl⟩
    rw [NorInfo.erasesBy, h.1, Bool.eq_false_iff.2 hu]
    rfl
  · exact .inl ⟨.blk4K, h4, rfl⟩

theorem SectorsFit.rejects (h : ¬ SectorsFit cfg info) (hb : scanBlkSize cfg info = some blk)
    (htotal : info.totalSize % sz64K = 0) :
    blk % sz4K ≠ 0 ∨ eraseCmdFor info 0 blk = none ∧ blk ≠ 0 ∧
      ¬ (0 = 0 ∧ blk = info.totalSize) := by
  rw [SectorsFit] at h
  rw [scanBlkSize] at hb
  by_cases hc : cfg.sectors4K = true
  · rw [if_pos hc] at h hb
    obtain rfl := Option.some.inj hb
    refine .inr ⟨?_, by decide, ?_⟩
    · rw [eraseCmdFor, if_neg fun hg => absurd hg.1 (by decide),
        if_neg fun hg => absurd hg.1 (by decide), if_neg fun hg => h hg.2.2]
    · rintro ⟨-, ht⟩
      rw [← ht] at htotal
      exact absurd htotal (by decide)
  rw [if_neg hc] at h hb
  by_cases h64 : info.has support64KEraseBlk = true
  · rw [if_pos h64] at h hb
    obtain rfl := Option.some.inj hb
    obtain ⟨hu, h⟩ := not_or.1 h
    obtain ⟨h4, ht⟩ := not_or.1 h
    refine .inr ⟨?_, by decide, fun he => ht he.2.symm⟩
    rw [eraseCmdFor, if_neg fun hg => hu hg.2.2.2, if_neg fun hg => hu hg.2.2.2,
      if_neg fun hg => h4 hg.2.2]
  rw [if_neg h64] at h hb
  by_cases h32 : info.has support32KEraseBlk = true
  · rw [if_pos h32] at hb
    obtain rfl := Option.some.inj hb
    obtain ⟨hu, h4⟩ := not_or.1 fun hor => h ⟨h32, hor⟩
    refine .inr ⟨?_, by decide, ?_⟩
    · rw [eraseCmdFor, if_neg fun hg => hu hg.2.2.2, if_neg fun hg => hu hg.2.2.2,
        if_neg fun hg => h4 hg.2.2]
    · rintro ⟨-, ht⟩
      rw [← ht] at htotal
      exact absurd htotal (by decide)
  · rw [if_neg h32] at hb
    split at hb
    · obtain rfl := Option.some.inj hb
      exact .inl (by decide)
    · cases hb

/-- The sector sizes of a scan divide a chip of whole 64K blocks. -/
theorem scanBlkSize_divides (hb : scanBlkSize cfg info = some blk) (h : n % sz64K = 0) :
    0 < blk ∧ blk ∣ n := by
  have hmem : blk = sz4K ∨ blk = sz64K ∨ blk = sz32K ∨ blk = norPageSize := by
    rw [scanBlkSize] at hb
    split at hb
    · exact .inl (Option.some.inj hb).symm
    split at hb
    · exact .inr (.inl (Option.some.inj hb).symm)
    split at hb
    · exact .inr (.inr (.inl (Option.some.inj hb).symm))
    split at hb
    · exact .inr (.inr (.inr (Option.some.inj hb).symm))
    · cases hb
  have hdvd := Nat.dvd_of_mod_eq_zero h
  rcases hmem with rfl | rfl | rfl | rfl
  · exact ⟨by decide, Nat.dvd_trans (by decide) hdvd⟩
  · exact ⟨by decide, hdvd⟩
  · exact ⟨by decide, Nat.dvd_trans (by decide) hdvd⟩
  · exact ⟨by decide, Nat.dvd_trans (by decide) hdvd⟩

theorem halSpinorGetInfo_some {st : Spinor δ} (hi : st.nor.info = some info) :
    halSpinorGetInfo st = some {
      sectorSize := st.nor.blkSize
      sectorCount := st.nor.totalSize / st.nor.blkSize
      pageSize := st.nor.pageSize
      programUnit := st.nor.pageSize } := by
  rw [halSpinorGetInfo, hi]
  rfl

variable {st : Spinor SpiBus}

theorem norErase_sector (hs : st.nor.toNorFlash.Scanned cfg info) (hu : st.nor.Unlocks cfg)
    (hf : SectorsFit cfg info) (htotal : info.totalSize % sz64K = 0)
    (hr : st.nor.toNorFlash.Ready st.nor.totalSize b)
    (hk : k < st.nor.totalSize / st.nor.blkSize) :
    ∃ b', norErase cfg busPort st.nor (k * st.nor.blkSize) st.nor.blkSize b = (0, b') ∧
      b'.chip.mem = erase b.chip.mem (k * st.nor.blkSize) st.nor.blkSize := by
  obtain ⟨hI, hrel, hbusy⟩ := hr
  obtain ⟨hpos, hdvd⟩ := scanBlkSize_divides hs.blkSize htotal
  have hin : k * st.nor.blkSize + st.nor.blkSize ≤ st.nor.totalSize := by
    rw [← Nat.succ_mul]
    exact Nat.le_trans (Nat.mul_le_mul_right _ hk) (Nat.div_mul_le_self _ _)
  have hle := hI.1 ▸ hin
  rcases h : norErase cfg busPort st.nor (k * st.nor.blkSize) st.nor.blkSize b with ⟨ret, b'⟩
  have h0 : ret = 0 := by
    rcases hf.erases hs.blkSize with ⟨g, hg, hmod⟩ | hone
    · exact norErase_ok hu hI.2 hrel hbusy hs.info hg
        (Nat.mod_eq_zero_of_dvd (Nat.dvd_mul_left_of_dvd (Nat.dvd_of_mod_eq_zero hmod) k)) hmod
        hle h
    · -- the chip is one sector, which the chip erase takes
      have hone' : st.nor.blkSize = st.nor.totalSize := hone.trans hs.totalSize.symm
      have hzero : k = 0 := by
        rw [hone', Nat.div_self (hone' ▸ hpos)] at hk
        omega
      subst hzero
      rw [norErase, hs.info, Nat.zero_mul, hone'] at h
      dsimp only at h
      have h4K : ¬ st.nor.totalSize % sz4K ≠ 0 := by
        rw [hs.totalSize]
        simp only [sz4K, sz64K] at *
        omega
      have hlt : st.nor.totalSize < 0x100000000 := hs.totalSize ▸ info.totalSize_lt
      rw [if_neg h4K, Nat.zero_add, u32_of_lt hlt, if_neg (Nat.lt_irrefl _), if_pos ⟨rfl, rfl⟩]
        at h
      exact (norEraseAll_bus hI.2 h).2.2.2 hrel hbusy
  obtain ⟨-, ⟨k', -, hkr, hm⟩, -⟩ := norErase_bus hu hI.2 hle h
  rw [hkr h0] at hm
  exact ⟨b', by rw [h0], hm⟩

/-- Exactly when the sectors that a scan leads to can be erased one by one. -/
theorem norScan_sectors {p : Platform SpiBus} {st₀ : Spinor SpiBus}
    (h : norScan cfg p st₀ = (0, st)) (hu : st.nor.Unlocks cfg) (hpos : 0 < st.nor.totalSize)
    (htotal : st.nor.totalSize % sz64K = 0) :
    ∃ info, st.nor.info = some info ∧ (SectorsErasable cfg st ↔ SectorsFit cfg info) := by
  obtain ⟨info, hs⟩ := norScan_scanned h
  rw [hs.totalSize] at hpos htotal
  refine ⟨info, hs.info, ?_⟩
  rw [SectorsErasable, halSpinorGetInfo_some hs.info]
  constructor
  · intro hall
    by_contra hnf
    have hsize : (SpiBus.atRest [] info.totalSize fun _ => 0).chip.size = info.totalSize := rfl
    have hready : st.nor.toNorFlash.Ready st.nor.totalSize (.atRest [] info.totalSize fun _ => 0) :=
      ⟨⟨hs.totalSize.symm, hs.drives hsize⟩, SpiBus.atRest_reliable _ _ _, rfl⟩
    obtain ⟨hblk, hdvd⟩ := scanBlkSize_divides hs.blkSize htotal
    have hcount : 0 < st.nor.totalSize / st.nor.blkSize :=
      Nat.div_pos (hs.totalSize ▸ Nat.le_of_dvd hpos hdvd) hblk
    obtain ⟨b', hret, -⟩ := hall _ rfl _ hready 0 hcount
    have hrej := norErase_rejects cfg busPort hs.info
      (hs.totalSize ▸ SectorsFit.rejects hnf hs.blkSize htotal)
      (.atRest [] info.totalSize fun _ => 0)
    rw [Nat.zero_mul] at hret
    rw [hret] at hrej
    exact hrej rfl
  · intro hf hal hhal b hr k hk
    obtain rfl := Option.some.inj hhal
    exact norErase_sector hs hu hf htotal hr hk

/-- The factories registered, in front of a w25q64jv. -/
def toScan : Spinor SpiBus :=
  { Spinor.initial (.atRest w25q64jv.id 0x800000 fun _ => 0) with
    fhead := norFactoryRegister .empty }

/-- A board with a chip that has 4K erase only. -/
def small4KBoard : Platform SpiBus :=
  quietBoard fun _ => { plainFactory with
    idt := fun _ => { w25q64jv with flag := support4KEraseBlk } }

/-- A chip with 4K erase only gets sectors of a page. -/
theorem norScan_page_sectors :
    ¬ ∀ (p : Platform SpiBus) (st : Spinor SpiBus), (norScan ⟨false, false, false⟩ p st).1 = 0 →
      SectorsErasable ⟨false, false, false⟩ (norScan ⟨false, false, false⟩ p st).2 := by
  intro h
  have hall := h small4KBoard toScan (by decide +kernel)
  obtain ⟨b', hret, -⟩ := hall _ rfl (.atRest [] 0x800000 fun _ => 0)
    ⟨⟨by decide +kernel, ⟨by decide +kernel, .inl (by decide +kernel), by decide +kernel,
      by decide +kernel, by decide +kernel, by decide +kernel, by decide +kernel⟩⟩,
      SpiBus.atRest_reliable _ _ _, rfl⟩ 0 (by decide +kernel)
  have hrej := norErase_rejects ⟨false, false, false⟩ busPort
    (show (norScan ⟨false, false, false⟩ small4KBoard toScan).2.nor.info =
      some { w25q64jv with flag := support4KEraseBlk } from rfl)
    (show norPageSize % sz4K ≠ 0 ∨ eraseCmdFor _ 0 norPageSize = none ∧ _ from .inl (by decide))
    (.atRest [] 0x800000 fun _ => 0)
  exact hrej (congrArg Prod.fst hret)

theorem norScan_sectors_w25q64jv :
    let st := (norScan ⟨false, false, true⟩ (quietBoard fun _ => plainFactory) toScan).2
    ∃ info, st.nor.info = some info ∧
      (SectorsErasable ⟨false, false, true⟩ st ↔ SectorsFit ⟨false, false, true⟩ info) :=
  norScan_sectors (p := quietBoard fun _ => plainFactory) (Prod.ext (by decide +kernel) rfl)
    (Nor.unlocks_of_noLock rfl) (by decide +kernel) (by decide +kernel)

end D1Flash
