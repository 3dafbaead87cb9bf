import D1Flash.Lib.Runs
import D1Flash.Spinor.CacheFrame
import D1Flash.Spinor.CacheTransparent
import D1Flash.Spinor.HalSpinor

namespace D1Flash
open NorArray (Overlay erased meet)
open NorArray.Overlay (Frame)
open Runs (run Along)
set_option autoImplicit true

/-- What the driver holds back from the flash. -/
def Spinor.held (st : Spinor δ) : Overlay Byte :=
  match st.cache with
  | some c => c.overlay st.nor.toNorFlash
  | none => ⟨fun _ => erased, fun _ => false, fun _ => false⟩

/-- What a flush would leave in the flash. -/
def Spinor.settled (st : Spinor SpiBus) : Nat → Byte := st.held.flushed st.dev.chip.mem

def Spinor.Blank (st : Spinor SpiBus) (i : Nat) : Prop := st.held.Blank st.dev.chip.mem i

/-- A driver with a cache on a chip of that size. -/
structure Spinor.Cached (st : Spinor SpiBus) (nor : Nor SpiBus) (size : Nat) : Prop where
  record : st.nor = nor
  cache : ∃ c, st.cache = some c ∧ c.Valid nor.toNorFlash size
  chip : nor.toNorFlash.On size st.dev

/-- What every step below leaves of a cell it does not touch. -/
def Spinor.Leaves (st st' : Spinor SpiBus) (i : Nat) : Prop :=
  Frame st.held st'.held st.dev.chip.mem st'.dev.chip.mem i

theorem Spinor.held_setCache (st : Spinor δ) (c : NorCache) (s : δ) :
    (st.setCache c s).held = c.overlay st.nor.toNorFlash := rfl

variable {nor : Nor SpiBus} {st : Spinor SpiBus}

theorem Spinor.Cached.setCache (h : st.Cached nor size)
    (hv : c.Valid nor.toNorFlash size) (hI : nor.toNorFlash.On size b) :
    (st.setCache c b).Cached nor size :=
  ⟨h.record, ⟨c, rfl, hv⟩, hI⟩

theorem Spinor.Cached.held (h : st.Cached nor size)
    (hc : st.cache = some c) : st.held = c.overlay nor.toNorFlash := by
  rw [Spinor.held, hc, h.record]

theorem halSpinorProgramData_cached (hu : nor.Unlocks cfg) (hg : nor.toNorFlash.Geometry)
    (hsize : size < 0x100000000) (hst : st.Cached nor size) (hle : addr + buf.length ≤ size)
    (h : halSpinorProgramData cfg busPort addr buf st = (ret, st')) :
    st'.Cached nor size ∧
      (∀ i, ¬ (addr ≤ i ∧ i < addr + buf.length) → st.Leaves st' i) ∧
      (ret = 0 → ∀ i, addr ≤ i → i < addr + buf.length →
        OnlyClears st.held st.dev.chip.mem i (buf.getD (i - addr) erased) →
        st'.settled i = meet (st.settled i) (buf.getD (i - addr) erased)) := by
  obtain ⟨c, hc, hv⟩ := hst.cache
  rw [halSpinorProgramData, hc] at h
  dsimp only at h
  rcases h₁ : norCacheWrite (st.ops cfg busPort) st.nor.toNorFlash addr buf c st.dev
    with ⟨ret₁, c₁, s₁⟩
  rw [h₁] at h
  obtain ⟨rfl, rfl⟩ := Prod.mk.inj h
  rw [Spinor.ops, hst.record] at h₁
  obtain ⟨hI', hv', hframe, hin⟩ :=
    norCacheWrite_frame (coreOps_sound hu hsize) hg hv hst.chip hle h₁
  refine ⟨hst.setCache hv' hI', ?_⟩
  simp only [Spinor.Leaves, Spinor.settled, Spinor.held_setCache, hst.held hc, hst.record]
  exact ⟨hframe, hin⟩

theorem halSpinorEraseSector_cached (hu : nor.Unlocks cfg) (hg : nor.toNorFlash.Geometry)
    (hsize : size < 0x100000000) (hst : st.Cached nor size) (hle : addr + n ≤ size)
    (h : halSpinorEraseSector cfg busPort addr n st = (ret, st')) :
    st'.Cached nor size ∧ (∀ i, ¬ (addr ≤ i ∧ i < addr + n) → st.Leaves st' i) ∧
      (∀ i, st.Blank i → st'.Blank i) ∧
      (ret = 0 → ∀ i, addr ≤ i → i < addr + n →
        (st.held.dirty i = true → st.held.buf i = erased) → st'.settled i = erased) := by
  obtain ⟨c, hc, hv⟩ := hst.cache
  rw [halSpinorEraseSector, hc] at h
  dsimp only at h
  rcases h₁ : norCacheErase (st.ops cfg busPort) st.nor.toNorFlash addr n c st.dev
    with ⟨ret₁, c₁, s₁⟩
  rw [h₁] at h
  obtain ⟨rfl, rfl⟩ := Prod.mk.inj h
  rw [Spinor.ops, hst.record] at h₁
  obtain ⟨hI', hv', hframe, hblank, hin⟩ :=
    norCacheErase_frame (coreOps_sound hu hsize) hg hv hst.chip hle h₁
  refine ⟨hst.setCache hv' hI', ?_⟩
  simp only [Spinor.Leaves, Spinor.Blank, Spinor.settled, Spinor.held_setCache, hst.held hc,
    hst.record]
  exact ⟨hframe, hblank, hin⟩

theorem halSpinorReadData_cached (hu : nor.Unlocks cfg) (hg : nor.toNorFlash.Geometry)
    (hsize : size < 0x100000000) (hst : st.Cached nor size) (hle : addr + cnt ≤ size)
    (h : halSpinorReadData cfg busPort addr cnt st = ((ret, d), st')) :
    st'.Cached nor size ∧ (∀ i, st.Leaves st' i) ∧
      (ret = 0 → d.length = cnt ∧ ∀ j (hj : j < d.length), st.Blank (addr + j) →
        d[j] = erased) := by
  obtain ⟨c, hc, hv⟩ := hst.cache
  rw [halSpinorReadData, hc] at h
  dsimp only at h
  rcases h₁ : norCacheRead (st.ops cfg busPort) st.nor.toNorFlash addr cnt c st.dev
    with ⟨r₁, c₁, s₁⟩
  rw [h₁] at h
  obtain ⟨rfl, rfl⟩ := Prod.mk.inj h
  rw [Spinor.ops, hst.record] at h₁
  obtain ⟨hI', hk, hd⟩ :=
    norCacheRead_blank (coreOps_sound hu hsize) hg hv hst.chip hle h₁
  refine ⟨hst.setCache hk.valid hI', ?_⟩
  simp only [Spinor.Leaves, Spinor.Blank, Spinor.held_setCache, hst.held hc, hst.record]
  exact ⟨hk.frame, hd⟩

theorem halSpinorSync_cached (hu : nor.Unlocks cfg) (hg : nor.toNorFlash.Geometry)
    (hsize : size < 0x100000000) (hst : st.Cached nor size)
    (h : halSpinorSync cfg busPort st = (ret, st')) :
    st'.Cached nor size ∧ (∀ i, st.Leaves st' i) ∧
      (ret = 0 → st'.held.Clean ∧ st'.dev.chip.mem = st.settled) := by
  obtain ⟨c, hc, hv⟩ := hst.cache
  rw [halSpinorSync, hc] at h
  dsimp only at h
  rcases h₁ : norCacheSync (st.ops cfg busPort) st.nor.toNorFlash c st.dev with ⟨ret₁, c₁, s₁⟩
  rw [h₁] at h
  obtain ⟨rfl, rfl⟩ := Prod.mk.inj h
  rw [Spinor.ops, hst.record] at h₁
  obtain ⟨hI', hk, hd⟩ := norCacheSync_spec (coreOps_sound hu hsize) hg hv hst.chip h₁
  refine ⟨hst.setCache hk.valid hI', ?_⟩
  simp only [Spinor.Leaves, Spinor.settled, Spinor.held_setCache, hst.held hc, hst.record]
  exact ⟨hk.frame, hd⟩

/-- The flush that a chip erase starts holds no data back, as when it succeeds. -/
def Spinor.FlushLeavesNothing (cfg : Config) (st : Spinor SpiBus) : Prop :=
  ∀ i, (halSpinorSync cfg busPort st).2.held.dirty i = true →
    (halSpinorSync cfg busPort st).2.held.buf i = erased

/-- Where no transfer fails the flush succeeds. -/
theorem halSpinorSync_live (hu : nor.Unlocks cfg) (hg : nor.toNorFlash.Geometry)
    (he : nor.toNorFlash.ErasesSectors) (hsize : size < 0x100000000) (hst : st.Cached nor size)
    (hrel : st.dev.Reliable) (hidle : st.dev.chip.busy = 0) :
    (halSpinorSync cfg busPort st).1 = 0 ∧ st.FlushLeavesNothing cfg := by
  obtain ⟨c, hc, hv⟩ := hst.cache
  have hret : (halSpinorSync cfg busPort st).1 = 0 := by
    rw [halSpinorSync, hc]
    dsimp only
    rw [Spinor.ops, hst.record, norCacheSync]
    rcases h : norFlushCache (coreOps cfg busPort nor) nor.toNorFlash c st.dev with ⟨ret, c', b'⟩
    obtain ⟨-, rfl⟩ := norFlushCache_live (coreOps_sound hu hsize) (coreOps_live hu he size) hg hv
      hst.chip ⟨hst.chip, hrel, hidle⟩ h
    rfl
  refine ⟨hret, fun i hi => ?_⟩
  rcases h : halSpinorSync cfg busPort st with ⟨ret, st'⟩
  rw [h] at hret hi
  obtain ⟨-, -, hdone⟩ := halSpinorSync_cached hu hg hsize hst h
  rw [((hdone hret).1 i).1] at hi
  cases hi

theorem halSpinorEraseChip_cached (hu : nor.Unlocks cfg) (hg : nor.toNorFlash.Geometry)
    (hsize : size < 0x100000000) (hst : st.Cached nor size)
    (h : halSpinorEraseChip cfg busPort st = (ret, st')) :
    st'.Cached nor size ∧ (∀ i, size ≤ i → st.Leaves st' i) ∧
      (∀ i, st.Blank i → st'.Blank i) ∧
      (ret = 0 → st.FlushLeavesNothing cfg → ∀ i, i < size → st'.Blank i) := by
  rw [halSpinorEraseChip] at h
  rcases h₁ : halSpinorSync cfg busPort st with ⟨ret₁, st₁⟩
  obtain ⟨hst₁, hleaves, -⟩ := halSpinorSync_cached hu hg hsize hst h₁
  rw [h₁] at h
  dsimp only at h
  rcases h₂ : norErase cfg busPort st₁.nor 0 st₁.nor.totalSize st₁.dev with ⟨ret₂, b⟩
  rw [h₂] at h
  obtain ⟨rfl, rfl⟩ := Prod.mk.inj h
  have htotal : st₁.nor.totalSize = size := by
    rw [hst₁.record, ← hst₁.chip.1]
    exact hst₁.chip.2.totalSize
  rw [htotal, hst₁.record] at h₂
  obtain ⟨hI', k, hk, hkr, hm⟩ :=
    (coreOps_sound hu hsize).erase hst₁.chip (Nat.le_of_eq (Nat.zero_add _)) h₂
  have hheld : (st₁.onDev b).held = st₁.held := rfl
  refine ⟨⟨hst₁.record, hst₁.cache, hI'⟩, ?_, ?_, ?_⟩
  · intro i hi
    apply (hleaves i).trans
    rw [Spinor.onDev_dev, hm, hheld]
    exact Overlay.erase_below_frame _ _ (by omega)
  · intro i hb
    rw [Spinor.Blank, Spinor.onDev_dev, hm, hheld]
    exact Overlay.erase_below_blank ((hleaves i).blank hb)
  · intro h0 hf i hi
    rw [Spinor.FlushLeavesNothing, h₁] at hf
    rw [Spinor.Blank, Spinor.onDev_dev, hm, hkr h0, hheld]
    exact Overlay.blank_of_erase_below _ (Nat.zero_le _) (by omega) (hf i)

inductive HalOp where
  | program (addr : Nat) (buf : List Byte)
  | erase (addr size : Nat)
  | read (addr cnt : Nat)
  | sync
  | eraseChip

def halStep (cfg : Config) (st : Spinor SpiBus) : HalOp → (Int × List Byte) × Spinor SpiBus
  | .program addr buf =>
    match halSpinorProgramData cfg busPort addr buf st with
    | (ret, st) => ((ret, []), st)
  | .erase addr size =>
    match halSpinorEraseSector cfg busPort addr size st with
    | (ret, st) => ((ret, []), st)
  | .read addr cnt => halSpinorReadData cfg busPort addr cnt st
  | .sync =>
    match halSpinorSync cfg busPort st with
    | (ret, st) => ((ret, []), st)
  | .eraseChip =>
    match halSpinorEraseChip cfg busPort st with
    | (ret, st) => ((ret, []), st)

/-- The contents that the calls define. -/
abbrev Contents := Nat → Option Byte

/-- An acknowledged call takes effect; one that failed leaves its range undefined. -/
def Contents.after (k : Contents) (size : Nat) (ret : Int) : HalOp → Contents
  | .program addr buf => fun i =>
    if addr ≤ i ∧ i < addr + buf.length then
      if ret = 0 then (k i).map (meet · (buf.getD (i - addr) erased)) else none
    else k i
  | .erase addr n => fun i =>
    if addr ≤ i ∧ i < addr + n then if ret = 0 then some erased else none else k i
  | .eraseChip => fun i => if i < size then if ret = 0 then some erased else none else k i
  | _ => k

/-- A call, with the contents kept beside the driver. -/
def ledgerStep (cfg : Config) (size : Nat) (r : Spinor SpiBus × Contents) (call : HalOp) :
    (Int × List Byte) × (Spinor SpiBus × Contents) :=
  match halStep cfg r.1 call with
  | (out, st) => (out, st, r.2.after size out.1 call)

def HalOp.InRange (size : Nat) : HalOp → Prop
  | .program addr buf => addr + buf.length ≤ size
  | .erase addr n => addr + n ≤ size
  | .read addr cnt => addr + cnt ≤ size
  | _ => True

/-- The call does not meet what the cache gets wrong. -/
def HalOp.Careful (cfg : Config) (st : Spinor SpiBus) : HalOp → Prop
  | .program addr buf => ∀ i, addr ≤ i → i < addr + buf.length →
      OnlyClears st.held st.dev.chip.mem i (buf.getD (i - addr) erased)
  | .erase addr n => ∀ i, addr ≤ i → i < addr + n →
      st.held.dirty i = true → st.held.buf i = erased
  | .eraseChip => st.FlushLeavesNothing cfg
  | _ => True

def HalOp.Programs (i : Nat) : HalOp → Prop
  | .program addr buf => addr ≤ i ∧ i < addr + buf.length
  | _ => False

/-- A flush would leave what the calls define. -/
def Spinor.Defines (st : Spinor SpiBus) (k : Contents) : Prop :=
  ∀ i v, k i = some v → st.settled i = v

theorem Spinor.Defines.after {st' : Spinor SpiBus} {k f : Contents} (hd : st.Defines k)
    (hout : ∀ i, ¬ (a ≤ i ∧ i < b) → st'.settled i = st.settled i)
    (hin : ret = (0 : Int) → ∀ i, a ≤ i → i < b → ∀ v, f i = some v → st'.settled i = v) :
    st'.Defines fun i => if a ≤ i ∧ i < b then if ret = 0 then f i else none else k i := by
  intro i v hv
  dsimp only at hv
  by_cases hi : a ≤ i ∧ i < b
  · rw [if_pos hi] at hv
    by_cases h0 : ret = 0
    · rw [if_pos h0] at hv
      exact hin h0 i hi.1 hi.2 v hv
    · rw [if_neg h0] at hv
      cases hv
  · rw [if_neg hi] at hv
    rw [hout i hi]
    exact hd i v hv

theorem ledgerStep_defines {r : Spinor SpiBus × Contents} (hu : nor.Unlocks cfg)
    (hg : nor.toNorFlash.Geometry) (hsize : size < 0x100000000)
    (hr : r.1.Cached nor size ∧ r.1.Defines r.2)
    (hc : HalOp.InRange size call ∧ HalOp.Careful cfg r.1 call) :
    (ledgerStep cfg size r call).2.1.Cached nor size ∧
      (ledgerStep cfg size r call).2.1.Defines (ledgerStep cfg size r call).2.2 := by
  obtain ⟨st, k⟩ := r
  obtain ⟨hst, hd⟩ := hr
  obtain ⟨hle, hcare⟩ := hc
  rw [ledgerStep]
  cases call with
  | program addr buf =>
    rcases h : halSpinorProgramData cfg busPort addr buf st with ⟨ret, st'⟩
    obtain ⟨hst', hout, hin⟩ := halSpinorProgramData_cached hu hg hsize hst hle h
    simp only [halStep, h]
    refine ⟨hst', hd.after (fun i hi => (hout i hi).flushed) ?_⟩
    intro h0 i hi hi' v hv
    obtain ⟨w, hw, rfl⟩ := Option.map_eq_some_iff.1 hv
    rw [hin h0 i hi hi' (hcare i hi hi'), hd i w hw]
  | erase addr n =>
    rcases h : halSpinorEraseSector cfg busPort addr n st with ⟨ret, st'⟩
    obtain ⟨hst', hout, -, hin⟩ := halSpinorEraseSector_cached hu hg hsize hst hle h
    simp only [halStep, h]
    refine ⟨hst', hd.after (fun i hi => (hout i hi).flushed) ?_⟩
    intro h0 i hi hi' v hv
    rw [← Option.some.inj hv]
    exact hin h0 i hi hi' (hcare i hi hi')
  | read addr cnt =>
    rcases h : halSpinorReadData cfg busPort addr cnt st with ⟨⟨ret, d⟩, st'⟩
    obtain ⟨hst', hleaves, -⟩ := halSpinorReadData_cached hu hg hsize hst hle h
    simp only [halStep, h]
    exact ⟨hst', fun i v hv => (hleaves i).flushed.trans (hd i v hv)⟩
  | sync =>
    rcases h : halSpinorSync cfg busPort st with ⟨ret, st'⟩
    obtain ⟨hst', hleaves, -⟩ := halSpinorSync_cached hu hg hsize hst h
    simp only [halStep, h]
    exact ⟨hst', fun i v hv => (hleaves i).flushed.trans (hd i v hv)⟩
  | eraseChip =>
    rcases h : halSpinorEraseChip cfg busPort st with ⟨ret, st'⟩
    obtain ⟨hst', hout, -, hin⟩ := halSpinorEraseChip_cached hu hg hsize hst h
    simp only [halStep, h]
    refine ⟨hst', ?_⟩
    have hafter := hd.after (a := 0) (b := size) (f := fun _ => some erased)
      (fun i hi => (hout i (by omega)).flushed) (fun h0 i _ hi v hv => by
        rw [← Option.some.inj hv]
        exact (hin h0 hcare i hi).flushed)
    simp only [Nat.zero_le, true_and] at hafter
    exact hafter

theorem halStep_blank (hu : nor.Unlocks cfg) (hg : nor.toNorFlash.Geometry)
    (hsize : size < 0x100000000) (hst : st.Cached nor size) (hle : HalOp.InRange size call) :
    (halStep cfg st call).2.Cached nor size ∧
      ∀ i, ¬ call.Programs i → i < size → st.Blank i → (halStep cfg st call).2.Blank i := by
  cases call with
  | program addr buf =>
    rcases h : halSpinorProgramData cfg busPort addr buf st with ⟨ret, st'⟩
    obtain ⟨hst', hout, -⟩ := halSpinorProgramData_cached hu hg hsize hst hle h
    simp only [halStep, h]
    exact ⟨hst', fun i hi _ hb => (hout i hi).blank hb⟩
  | erase addr n =>
    rcases h : halSpinorEraseSector cfg busPort addr n st with ⟨ret, st'⟩
    obtain ⟨hst', -, hblank, -⟩ := halSpinorEraseSector_cached hu hg hsize hst hle h
    simp only [halStep, h]
    exact ⟨hst', fun i _ _ hb => hblank i hb⟩
  | read addr cnt =>
    rcases h : halSpinorReadData cfg busPort addr cnt st with ⟨⟨ret, d⟩, st'⟩
    obtain ⟨hst', hleaves, -⟩ := halSpinorReadData_cached hu hg hsize hst hle h
    simp only [halStep, h]
    exact ⟨hst', fun i _ _ hb => (hleaves i).blank hb⟩
  | sync =>
    rcases h : halSpinorSync cfg busPort st with ⟨ret, st'⟩
    obtain ⟨hst', hleaves, -⟩ := halSpinorSync_cached hu hg hsize hst h
    simp only [halStep, h]
    exact ⟨hst', fun i _ _ hb => (hleaves i).blank hb⟩
  | eraseChip =>
    rcases h : halSpinorEraseChip cfg busPort st with ⟨ret, st'⟩
    obtain ⟨hst', -, hblank, -⟩ := halSpinorEraseChip_cached hu hg hsize hst h
    simp only [halStep, h]
    exact ⟨hst', fun i _ _ hb => hblank i hb⟩

theorem run_blank (hu : nor.Unlocks cfg) (hg : nor.toNorFlash.Geometry)
    (hsize : size < 0x100000000) (hst : st.Cached nor size)
    (hle : ∀ call ∈ calls, HalOp.InRange size call) :
    (run (halStep cfg) st calls).2.Cached nor size ∧
      ∀ i, (∀ call ∈ calls, ¬ call.Programs i) → i < size → st.Blank i →
        (run (halStep cfg) st calls).2.Blank i := by
  induction calls generalizing st with
  | nil => exact ⟨hst, fun _ _ _ => id⟩
  | cons call calls ih =>
    obtain ⟨hst₁, hblank₁⟩ := halStep_blank hu hg hsize hst (hle call List.mem_cons_self)
    obtain ⟨hst₂, hblank₂⟩ := ih hst₁ fun call' h => hle call' (List.mem_cons_of_mem _ h)
    refine ⟨hst₂, ?_⟩
    intro i hno hi hb
    apply hblank₂ i (fun call' h => hno call' (List.mem_cons_of_mem _ h)) hi
    exact hblank₁ i (hno call List.mem_cons_self) hi hb

/-- The steps of a deinit after the flush do not reach the cells of the chip. -/
structure Platform.LeavesCells (p : Platform SpiBus) (nor : Nor SpiBus) : Prop where
  port : p.toSpiPort = busPort
  halSpiDeinit : ∀ b, (p.halSpiDeinit b).2.chip.mem = b.chip.mem
  set4BytesAddr : ∀ f, nor.factory.bind (·.set4BytesAddr) = some f →
    ∀ b, (f nor.toNorFlash false b).2.chip.mem = b.chip.mem

theorem norSet4byte_mem {p : Platform SpiBus} (hp : p.LeavesCells nor) (b : SpiBus) :
    (norSet4byte p nor false b).2.chip.mem = b.chip.mem := by
  rw [norSet4byte]
  cases hf : nor.factory.bind (·.set4BytesAddr) with
  | some f => exact hp.set4BytesAddr f hf b
  | none =>
    dsimp only
    rw [hp.port]
    rcases h : norSendCmd busPort norCmdEn4B b with ⟨ret, b'⟩
    obtain ⟨-, ⟨c, hc, hm, -⟩, -⟩ := norSendCmd_bus h
    rw [exec_other _ (by decide), or_self] at hc
    rw [hm, hc]

theorem norDeinit_mem {p : Platform SpiBus} (hp : p.LeavesCells st.nor)
    (h : norDeinit cfg p st = (ret, st')) : st'.dev.chip.mem = st.dev.chip.mem := by
  have hlock := norRelock_still cfg st.dev (fun _ _ => norWrUnlockAll_quiet)
  rw [norDeinit] at h
  cases hi : st.nor.info with
  | none =>
    rw [hi] at h
    obtain ⟨-, rfl⟩ := Prod.mk.inj h
    rfl
  | some info =>
    rw [hi] at h
    dsimp only at h
    have hnor : (if cfg.cache then norCacheExit st else st).nor = st.nor := by
      split <;> rfl
    have hdev : (if cfg.cache then norCacheExit st else st).dev = st.dev := by
      split <;> rfl
    rw [hnor, hdev, hp.port] at h
    obtain ⟨-, rfl⟩ := Prod.mk.inj h
    dsimp only
    rw [hp.halSpiDeinit]
    split
    · rw [norSet4byte_mem hp, hlock.mem]
    · exact hlock.mem

/-- In every run of careful calls what is acknowledged reaches the flash with a deinit whose flush
succeeds, and after a chip erase that leaves nothing held back only programs show. The flush does
both where the bus fails no more and the chip is ready. -/
theorem halSpinor_durable {p : Platform SpiBus} (hp : p.LeavesCells nor)
    (hu : nor.Unlocks cfg) (hg : nor.toNorFlash.Geometry) (hsize : size < 0x100000000)
    (hst : st.Cached nor size) (hclean : st.held.Clean)
    (hc : Along (ledgerStep cfg size)
      (fun r call => HalOp.InRange size call ∧ HalOp.Careful cfg r.1 call)
      (st, fun i => some (st.dev.chip.mem i)) calls) :
    let r := (run (ledgerStep cfg size) (st, fun i => some (st.dev.chip.mem i)) calls).2
    (∀ st', (halSpinorSync cfg busPort r.1).1 = 0 → halSpinorDeinit cfg p r.1 = (0, st') →
      ∀ i v, r.2 i = some v → st'.dev.chip.mem i = v) ∧
    (nor.toNorFlash.ErasesSectors → r.1.dev.Reliable → r.1.dev.chip.busy = 0 →
      (halSpinorSync cfg busPort r.1).1 = 0 ∧ r.1.FlushLeavesNothing cfg) ∧
    ∀ st₁, r.1.FlushLeavesNothing cfg → halSpinorEraseChip cfg busPort r.1 = (0, st₁) →
      ∀ later, (∀ call ∈ later, HalOp.InRange size call) →
        ∀ addr cnt d st₂, addr + cnt ≤ size →
          halSpinorReadData cfg busPort addr cnt (run (halStep cfg) st₁ later).2 =
            ((0, d), st₂) →
          d.length = cnt ∧ ∀ j (hj : j < d.length),
            (∀ call ∈ later, ¬ call.Programs (addr + j)) → d[j] = 0xFF := by
  have hstart : st.Cached nor size ∧ st.Defines fun i => some (st.dev.chip.mem i) := by
    refine ⟨hst, ?_⟩
    intro i v hv
    rw [Spinor.settled, hclean.flushed, Option.some.inj hv]
  obtain ⟨hst', hd⟩ := Runs.invariant
    (I := fun r : Spinor SpiBus × Contents => r.1.Cached nor size ∧ r.1.Defines r.2)
    (fun r call hr hc => ledgerStep_defines hu hg hsize hr hc) hstart hc
  refine ⟨?_, fun he hrel hidle => halSpinorSync_live hu hg he hsize hst' hrel hidle, ?_⟩
  · intro st₂ hsync hdeinit i v hv
    rw [halSpinorDeinit, hp.port] at hdeinit
    rcases h : halSpinorSync cfg busPort
      (run (ledgerStep cfg size) (st, fun i => some (st.dev.chip.mem i)) calls).2.1 with ⟨ret, st₁⟩
    rw [h] at hsync hdeinit
    obtain ⟨hst₁, -, hm⟩ := halSpinorSync_cached hu hg hsize hst' h
    rw [norDeinit_mem (hst₁.record ▸ hp) hdeinit, (hm hsync).2]
    exact hd i v hv
  · intro st₁ hflush hchip later hlater addr cnt d st₂ hle hread
    obtain ⟨hst₁, -, -, hblank⟩ := halSpinorEraseChip_cached hu hg hsize hst' hchip
    obtain ⟨hst₂, hrun⟩ := run_blank hu hg hsize hst₁ hlater
    obtain ⟨-, -, hd⟩ := halSpinorReadData_cached hu hg hsize hst₂ hle hread
    obtain ⟨hl, hd⟩ := hd rfl
    refine ⟨hl, ?_⟩
    intro j hj hno
    apply hd j hj
    exact hrun _ hno (by omega) (hblank rfl hflush _ (by omega))

/-- A driver with an empty cache on an erased w25q64jv. -/
def freshW25q64jv (faults : Nat → Option TransferFault) : Spinor SpiBus where
  nor := norW25q64jv
  fhead := .empty
  cache := some (.fresh norW25q64jv.toNorFlash 0)
  bitmapBlk := true
  lastWrite := 0
  dev := { SpiBus.atRest w25q64jv.id 0x800000 (fun _ => 0xFF) with faults := faults }

theorem freshW25q64jv_cached (faults : Nat → Option TransferFault) :
    (freshW25q64jv faults).Cached norW25q64jv 0x800000 :=
  ⟨rfl, ⟨_, rfl, NorCache.fresh_valid norW25q64jv_geometry _ _⟩, norW25q64jv_on rfl⟩

/-- The page program of the flush fails and the deinit answers 0. -/
theorem halSpinorDeinit_loses_write :
    ¬ ∀ (faults : Nat → Option TransferFault) (calls : List HalOp),
      let r := (run (ledgerStep ⟨false, true, true⟩ 0x800000)
        (freshW25q64jv faults, fun _ => some 0xFF) calls).2
      let done := halSpinorDeinit ⟨false, true, true⟩ (quietBoard fun _ => plainFactory) r.1
      done.1 = 0 → ∀ i v, r.2 i = some v → done.2.dev.chip.mem i = v := by
  intro h
  have hlost := h (fun i => if i = 4 then some (.after 0) else none)
    [.program 0 (List.replicate 256 0)] (by decide +kernel) 0 0 (by decide +kernel)
  exact absurd hlost (by decide +kernel)

theorem quietBoard_leavesCells (factory : FactoryName → NorFactory SpiBus) :
    (quietBoard factory).LeavesCells norW25q64jv :=
  ⟨rfl, fun _ => rfl, nofun⟩

/-- A page that was programmed, and is still held by the cache. -/
def heldW25q64jv : Spinor SpiBus × Contents :=
  (run (ledgerStep ⟨false, true, true⟩ 0x800000)
    (freshW25q64jv fun _ => none, fun i => some ((freshW25q64jv fun _ => none).dev.chip.mem i))
    [.program 0x300 (List.replicate 256 0x5A)]).2

set_option maxRecDepth 20000 in
theorem heldW25q64jv_reliable : heldW25q64jv.1.dev.Reliable := by
  have hfaults : heldW25q64jv.1.dev.faults = fun _ => none := rfl
  have hdelays : heldW25q64jv.1.dev.chip.delays = fun _ => 0 := rfl
  constructor
  · rw [hfaults]
    exact fun _ => rfl
  · rw [hdelays]
    exact fun _ => Nat.zero_le _
  · decide +kernel

theorem heldW25q64jv_careful :
    Along (ledgerStep ⟨false, true, true⟩ 0x800000)
      (fun r call => HalOp.InRange 0x800000 call ∧ HalOp.Careful ⟨false, true, true⟩ r.1 call)
      (freshW25q64jv fun _ => none, fun i => some ((freshW25q64jv fun _ => none).dev.chip.mem i))
      [.program 0x300 (List.replicate 256 0x5A)] :=
  ⟨⟨show 0x300 + (List.replicate 256 (0x5A : Byte)).length ≤ 0x800000 by decide +kernel,
    fun i _ _ h => Bool.noConfusion ((NorCache.fresh_clean _ _ i).1.symm.trans h)⟩, trivial⟩

/-- The deinit writes the page to the flash; a chip erase instead makes it read as erased. -/
theorem halSpinor_durable_w25q64jv :
    let cfg : Config := ⟨false, true, true⟩
    heldW25q64jv.1.dev.chip.mem 0x300 = 0xFF ∧
      (∃ st', halSpinorDeinit cfg (quietBoard fun _ => plainFactory) heldW25q64jv.1 = (0, st') ∧
        st'.dev.chip.mem 0x300 = 0x5A) ∧
      ∃ st₁ d st₂, halSpinorEraseChip cfg busPort heldW25q64jv.1 = (0, st₁) ∧
        halSpinorReadData cfg busPort 0x300 0x100 st₁ = ((0, d), st₂) ∧
        d.length = 0x100 ∧ ∀ j (hj : j < d.length), d[j] = 0xFF := by
  intro cfg
  have hall := halSpinor_durable (quietBoard_leavesCells fun _ => plainFactory)
    (Nor.unlocks_of_noLock rfl) norW25q64jv_geometry (by decide) (freshW25q64jv_cached _)
    (NorCache.fresh_clean _ _) heldW25q64jv_careful
  dsimp only at hall
  generalize hr : (run (ledgerStep _ _) (_, _) _).2 = r at hall
  have hheld : heldW25q64jv = r := hr
  obtain ⟨hdurable, hflush, herased⟩ := hall
  rw [← hheld] at hdurable hflush herased
  obtain ⟨hsync, hnothing⟩ :=
    hflush norW25q64jv_erases heldW25q64jv_reliable (by decide +kernel)
  refine ⟨by decide +kernel, ?_, ?_⟩
  · have hret : (halSpinorDeinit cfg (quietBoard fun _ => plainFactory) heldW25q64jv.1).1 = 0 := by
      decide +kernel
    rcases hdone : halSpinorDeinit cfg (quietBoard fun _ => plainFactory) heldW25q64jv.1
      with ⟨ret, st'⟩
    rw [hdone] at hret
    cases hret
    exact ⟨st', rfl, hdurable st' hsync hdone 0x300 0x5A (by decide +kernel)⟩
  · have hret : (halSpinorEraseChip cfg busPort heldW25q64jv.1).1 = 0 := by decide +kernel
    have hread : (halSpinorReadData cfg busPort 0x300 0x100
        (halSpinorEraseChip cfg busPort heldW25q64jv.1).2).1.1 = 0 := by decide +kernel
    rcases hchip : halSpinorEraseChip cfg busPort heldW25q64jv.1 with ⟨ret, st₁⟩
    rw [hchip] at hret hread
    rcases hd : halSpinorReadData cfg busPort 0x300 0x100 st₁ with ⟨⟨ret₂, d⟩, st₂⟩
    rw [hd] at hread
    cases hret
    cases hread
    obtain ⟨hlen, hblank⟩ := herased st₁ hnothing hchip []
      (fun _ h => (nomatch h)) 0x300 0x100 d st₂
      (by decide) hd
    exact ⟨st₁, d, st₂, rfl, hd, hlen, fun j hj => hblank j hj fun _ h => (nomatch h)⟩

end D1Flash
