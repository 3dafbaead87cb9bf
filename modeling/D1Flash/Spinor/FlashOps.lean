import D1Flash.Spinor.Cache
import D1Flash.Spinor.EraseSpec
import D1Flash.Spinor.Init
import D1Flash.Spinor.ReadSpec
import D1Flash.Spinor.WriteSpec

namespace D1Flash
open NorArray (erase program slice)
set_option autoImplicit true

/-- What a layer above the core relies on, whatever fails: a write or an erase that fails leaves a
front part of its range done. -/
structure NorOps.Sound (ops : NorOps σ) (size : Nat) (mem : σ → Nat → Byte) (I : σ → Prop) :
    Prop where
  size_lt : size < 0x100000000
  read : ∀ {s addr len ret d s'}, I s → addr < 0x100000000 →
    ops.norRead addr len s = ((ret, d), s') →
    I s' ∧ mem s' = mem s ∧ (ret = 0 → addr + len ≤ size → d = slice (mem s) addr len)
  write : ∀ {s addr buf ret s'}, I s → addr + buf.length ≤ size → addr < 0x100000000 →
    ops.norWrite addr buf s = (ret, s') →
    I s' ∧ ∃ k ≤ buf.length, (ret = 0 → k = buf.length) ∧
      mem s' = program (mem s) addr (buf.take k)
  erase : ∀ {s addr n ret s'}, I s → addr + n ≤ size → ops.norErase addr n s = (ret, s') →
    I s' ∧ ∃ k ≤ n, (ret = 0 → k = n) ∧ mem s' = erase (mem s) addr k

/-- What it relies on when nothing fails; erases are in units of `blk`. -/
structure NorOps.Live (ops : NorOps σ) (size blk : Nat) (ok : σ → Prop) : Prop where
  read : ∀ {s addr len ret d s'}, ok s → addr < 0x100000000 →
    ops.norRead addr len s = ((ret, d), s') → ok s' ∧ (0 < len → ret = 0)
  write : ∀ {s addr buf ret s'}, ok s → addr + buf.length ≤ size → addr < 0x100000000 →
    buf ≠ [] → ops.norWrite addr buf s = (ret, s') → ok s' ∧ ret = 0
  erase : ∀ {s addr n ret s'}, ok s → addr % blk = 0 → n % blk = 0 → 0 < n → addr + n ≤ size →
    ops.norErase addr n s = (ret, s') → ok s' ∧ ret = 0

/-- The bus to a chip of that size that the record describes. -/
def NorFlash.On (nor : NorFlash) (size : Nat) (b : SpiBus) : Prop :=
  b.chip.size = size ∧ nor.Drives b.chip

theorem NorFlash.On.kept {nor : NorFlash} (h : nor.On size b) (hk : b.Kept b') : nor.On size b' :=
  ⟨hk.size.trans h.1, hk.drives h.2⟩

/-- The core on the chip gives the layers above what they rely on. -/
theorem coreOps_sound {nor : Nor SpiBus} (hu : nor.Unlocks cfg)
    (hsize : size < 0x100000000) :
    (coreOps cfg busPort nor).Sound size (fun b => b.chip.mem) (nor.toNorFlash.On size) where
  size_lt := hsize
  read hI ha h := by
    obtain ⟨hp, hd, -, -⟩ := norRead_bus hI.2 ha h
    rw [hI.1] at hd
    exact ⟨hI.kept hp.toKept, hp.mem, hd⟩
  write hI hle ha h := by
    obtain ⟨hk, hm, -, -⟩ := norWrite_bus hu hI.2 ha h
    rw [hI.1] at hm
    exact ⟨hI.kept hk, hm hle⟩
  erase hI hle h := by
    obtain ⟨hk, hm, -⟩ := norErase_bus hu hI.2 (hI.1 ▸ hle) h
    exact ⟨hI.kept hk, hm⟩

/-- The bus when nothing fails and the chip is ready. -/
def NorFlash.Ready (nor : NorFlash) (size : Nat) (b : SpiBus) : Prop :=
  nor.On size b ∧ b.Reliable ∧ b.chip.busy = 0

/-- Blocks of the sector size can be erased with the commands that the flags allow. -/
def NorFlash.ErasesSectors (nor : NorFlash) : Prop :=
  ∃ info g, nor.info = some info ∧ info.erasesBy g = true ∧ nor.blkSize % g.bytes = 0

theorem coreOps_live {nor : Nor SpiBus} (hu : nor.Unlocks cfg)
    (he : nor.toNorFlash.ErasesSectors) (size : Nat) :
    (coreOps cfg busPort nor).Live size nor.blkSize (nor.toNorFlash.Ready size) where
  read hok ha h := by
    obtain ⟨hI, hrel, hb⟩ := hok
    obtain ⟨hp, -, -, hr⟩ := norRead_bus hI.2 ha h
    exact ⟨⟨hI.kept hp.toKept, hp.reliable hrel, Nat.le_zero.1 (hb ▸ hp.busy_le)⟩, hr hrel⟩
  write hok _ ha hne h := by
    obtain ⟨hI, hrel, -⟩ := hok
    obtain ⟨hk, -, hz, hr⟩ := norWrite_bus hu hI.2 ha h
    exact ⟨⟨hI.kept hk, hk.reliable hrel, hz (hr hrel hne)⟩, hr hrel hne⟩
  erase hok ha hn hpos hle h := by
    obtain ⟨hI, hrel, hb⟩ := hok
    obtain ⟨info, g, hi, hg, hmod⟩ := he
    have hdvd := Nat.dvd_of_mod_eq_zero hmod
    have ha' := Nat.mod_eq_zero_of_dvd (Nat.dvd_trans hdvd (Nat.dvd_of_mod_eq_zero ha))
    have hn' := Nat.mod_eq_zero_of_dvd (Nat.dvd_trans hdvd (Nat.dvd_of_mod_eq_zero hn))
    have hle' := hI.1 ▸ hle
    have h0 := norErase_ok hu hI.2 hrel hb hi hg ha' hn' hle' h
    obtain ⟨hk, -, hz⟩ := norErase_bus hu hI.2 hle' h
    exact ⟨⟨hI.kept hk, hk.reliable hrel, hz h0 (.inl hpos)⟩, h0⟩

/-- The record of a w25q64jv with 4K sectors, on single lines and without hooks. -/
def norW25q64jv : Nor SpiBus := { NorFlash.serial w25q64jv sz4K with factory := none }

theorem norW25q64jv_on (h : b.chip.size = 0x800000) : norW25q64jv.toNorFlash.On 0x800000 b :=
  ⟨h, NorFlash.serial_drives _ _ h (by rw [h]; decide)⟩

theorem norW25q64jv_ready (m : Nat → Byte) :
    norW25q64jv.toNorFlash.Ready 0x800000 (.atRest w25q64jv.id 0x800000 m) :=
  ⟨norW25q64jv_on rfl, SpiBus.atRest_reliable _ _ _, rfl⟩

theorem norW25q64jv_erases : norW25q64jv.toNorFlash.ErasesSectors :=
  ⟨w25q64jv, .blk4K, rfl, by decide, by decide⟩

/-- A board on which nothing but the bus can fail. -/
def quietBoard (factory : FactoryName → NorFactory SpiBus) : Platform SpiBus where
  toSpiPort := busPort
  halSemCreate b := (true, b)
  awHalSpiInit b := (0, b)
  halSpiDeinit b := (0, b)
  malloc _ b := (true, b)
  factory := factory

def plainFactory : NorFactory δ where
  factory := 0xEF
  idtCnt := 1
  idt _ := w25q64jv
  idtLen := 1
  init := none
  initLock := none
  lock := none
  unlock := none
  islock := none
  setQuadMode := none
  set4BytesAddr := none

end D1Flash
