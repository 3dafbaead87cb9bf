import D1Flash.Spinor.Init

namespace D1Flash
set_option autoImplicit true

structure HalSpinorInfo where
  sectorSize : Nat
  sectorCount : Nat
  pageSize : Nat
  programUnit : Nat

def halSpinorGetInfo (st : Spinor δ) : Option HalSpinorInfo :=
  st.nor.info.map fun _ => {
    sectorSize := st.nor.blkSize
    sectorCount := st.nor.totalSize / st.nor.blkSize
    pageSize := st.nor.pageSize
    programUnit := st.nor.pageSize }

/-- What a cache operation leaves in the globals. -/
def Spinor.setCache (st : Spinor δ) (c : NorCache) (s : δ) : Spinor δ :=
  { st with cache := some c, dev := s }

variable (cfg : Config) (p : SpiPort δ)

/-- The core operations on the chip of a driver state. -/
def Spinor.ops (st : Spinor δ) : NorOps δ := coreOps cfg p st.nor

/-- An initialised driver has a cache exactly when it is configured: the `#ifdef` of each function
below is the match on it. -/
def halSpinorReadData (addr cnt : Nat) (st : Spinor δ) : (Int × List Byte) × Spinor δ :=
  match st.cache with
  | some c =>
    match norCacheRead (st.ops cfg p) st.nor.toNorFlash addr cnt c st.dev with
    | (r, c, s) => (r, st.setCache c s)
  | none =>
    match norRead p st.nor addr cnt st.dev with
    | (r, s) => (r, st.onDev s)

def halSpinorProgramData (addr : Nat) (buf : List Byte) (st : Spinor δ) : Int × Spinor δ :=
  match st.cache with
  | some c =>
    match norCacheWrite (st.ops cfg p) st.nor.toNorFlash addr buf c st.dev with
    | (ret, c, s) => (ret, st.setCache c s)
  | none =>
    match norWrite cfg p st.nor addr buf st.dev with
    | (ret, s) => (ret, st.onDev s)

def halSpinorSync (st : Spinor δ) : Int × Spinor δ :=
  match st.cache with
  | some c =>
    match norCacheSync (st.ops cfg p) st.nor.toNorFlash c st.dev with
    | (ret, c, s) => (ret, st.setCache c s)
  | none => (0, st)

def halSpinorEraseSector (addr size : Nat) (st : Spinor δ) : Int × Spinor δ :=
  match st.cache with
  | some c =>
    match norCacheErase (st.ops cfg p) st.nor.toNorFlash addr size c st.dev with
    | (ret, c, s) => (ret, st.setCache c s)
  | none =>
    match norErase cfg p st.nor addr size st.dev with
    | (ret, s) => (ret, st.onDev s)

/-- The result of the sync is not looked at. -/
def halSpinorEraseChip (st : Spinor δ) : Int × Spinor δ :=
  match halSpinorSync cfg p st with
  | (_, st) =>
    match norErase cfg p st.nor 0 st.nor.totalSize st.dev with
    | (ret, s) => (ret, st.onDev s)

/-- The result of the sync is not looked at. -/
def halSpinorDeinit (p : Platform δ) (st : Spinor δ) : Int × Spinor δ :=
  match halSpinorSync cfg p.toSpiPort st with
  | (_, st) => norDeinit cfg p st

end D1Flash
