import D1Flash.Spinor.Cache

namespace D1Flash
set_option autoImplicit true

inductive FactoryName where
  | gd | mxic | winbond | xtx | esmt | fm | xmc | puya | zetta
  deriving DecidableEq, Repr

/-- `g_fhead` and the `next` pointers of the factories. -/
structure FactoryList (ι : Type) where
  head : Option ι
  next : ι → Option ι

namespace FactoryList

variable [DecidableEq ι]

def empty : FactoryList ι := ⟨none, fun _ => none⟩

/-- `p->next = f; f->next = NULL`, where no `p` is the list head. -/
def link (l : FactoryList ι) (p : Option ι) (f : ι) : FactoryList ι where
  head := if p = none then some f else l.head
  next i := if i = f then none else if p = some i then some f else l.next i

/-- `while (p->next) p = p->next`, from `p` on. -/
def last (l : FactoryList ι) : Nat → ι → ι
  | 0, p => p
  | fuel + 1, p =>
    match l.next p with
    | some q => last l fuel q
    | none => p

end FactoryList

def norRegisterFactory [DecidableEq ι] (fuel : Nat) (l : FactoryList ι) (f : ι) :
    FactoryList ι :=
  l.link (l.head.map (l.last fuel)) f

def factoryNames : List FactoryName :=
  [.gd, .mxic, .winbond, .xtx, .esmt, .fm, .xmc, .puya, .zetta]

/-- `nor_factory_register`; a walk meets every factory once. -/
def norFactoryRegister (l : FactoryList FactoryName) : FactoryList FactoryName :=
  factoryNames.foldl (norRegisterFactory factoryNames.length) l

/-- What the driver needs of the board. -/
structure Platform (δ : Type) extends SpiPort δ where
  halSemCreate : δ → Bool × δ
  awHalSpiInit : δ → Int × δ
  halSpiDeinit : δ → Int × δ
  malloc : Nat → δ → Bool × δ
  factory : FactoryName → NorFactory δ

/-- The driver's globals: `g_nor`, `g_fhead` and `g_nor_cache`, whose buffer is NULL when there
is no cache, with the state of the board. `bitmapBlk` says whether the pointer to the block bitmap
is not NULL. -/
structure Spinor (δ : Type) where
  nor : Nor δ
  fhead : FactoryList FactoryName
  cache : Option NorCache
  bitmapBlk : Bool
  lastWrite : Nat
  dev : δ

/-- The same globals on another state of the board. -/
def Spinor.onDev (st : Spinor δ) (s : δ) : Spinor δ := { st with dev := s }

@[simp] theorem Spinor.onDev_nor (st : Spinor δ) (s : δ) : (st.onDev s).nor = st.nor := rfl

@[simp] theorem Spinor.onDev_cache (st : Spinor δ) (s : δ) : (st.onDev s).cache = st.cache := rfl

@[simp] theorem Spinor.onDev_dev (st : Spinor δ) (s : δ) : (st.onDev s).dev = s := rfl

def Spinor.initial (dev : δ) : Spinor δ where
  nor := {
    cmdRead := 0, cmdWrite := 0, rCmdSlen := 0, wCmdSlen := 0, totalSize := 0, blkSize := 0
    pageSize := 0, addrWidth := 0, info := none, factory := none }
  fhead := .empty
  cache := none
  bitmapBlk := false
  lastWrite := 0
  dev := dev

/-- The entries of an id table up to the first with these bytes. -/
def findId (f : NorFactory δ) (id : List Byte) : Nat → Nat → Option NorInfo
  | 0, _ => none
  | n + 1, i => if (f.idt i).id = id then some (f.idt i) else findId f id n (i + 1)

/-- The factory walk of `match_nor`; the first factory of the id's maker decides. -/
def matchNorFrom (factory : FactoryName → NorFactory δ) (l : FactoryList FactoryName)
    (id : List Byte) : Nat → Option FactoryName → Option (NorFactory δ × NorInfo)
  | 0, _ => none
  | _ + 1, none => none
  | fuel + 1, some f =>
    if (factory f).factory ≠ id.headD 0 then matchNorFrom factory l id fuel (l.next f)
    else (findId (factory f) id (factory f).idtCnt 0).map fun info => (factory f, info)

/-- The sector size `nor_scan` advertises. -/
def scanBlkSize (cfg : Config) (info : NorInfo) : Option Nat :=
  if cfg.sectors4K then some sz4K
  else if info.has support64KEraseBlk then some norBlkSize
  else if info.has support32KEraseBlk then some norHalfBlkSize
  else if info.has support4KEraseBlk then some norPageSize
  else none

/-- The program property of `nor_scan`: command and single-line length. -/
def scanProgram (nor : NorFlash) (info : NorInfo) : Byte × Nat :=
  let slen := if nor.addrWidth = 4 then 5 else 4
  if info.has supportQuadWrite then
    if info.has useIoProgX4 then (cmd4Bytes nor norCmdQuadIoProg norCmdQuadIoProg4B, 1)
    else (cmd4Bytes nor norCmdQuadProg norCmdQuadProg4B, slen)
  else (cmd4Bytes nor norCmdProg norCmdProg4B, slen)

def scanRead (nor : NorFlash) (info : NorInfo) : Byte × Nat :=
  let slen := if nor.addrWidth = 4 then 6 else 5
  if info.has supportQuadRead then
    if info.has useIoReadX4 then (cmd4Bytes nor norCmdQuadIoRead norCmdQuadIoRead4B, 1)
    else (cmd4Bytes nor norCmdQuadRead norCmdQuadRead4B, slen)
  else if info.has supportDualRead then
    if info.has useIoReadX2 then (cmd4Bytes nor norCmdDualIoRead norCmdDualIoRead4B, 1)
    else (cmd4Bytes nor norCmdDualRead norCmdDualRead4B, slen)
  else (cmd4Bytes nor norCmdFastRead norCmdFastRead4B, slen)

def NorInfo.withGeneral (info : NorInfo) : NorInfo :=
  if info.flag = 0 then { info with flag := supportGeneral } else info

variable (cfg : Config) (p : Platform δ)

def norReset (s : δ) : Int × δ :=
  norSend p.toSpiPort 2 [norCmdResetEn, norCmdReset] s

def norReadId (s : δ) : (Int × List Byte) × δ :=
  match norWaitReady p.toSpiPort 0 500 s with
  | (ret, s) =>
    if ret ≠ 0 then ((-eBusy, []), s) else norTransfer p.toSpiPort 1 [norCmdRdid] true maxIdLen s

def norSet4byte (nor : Nor δ) (enable : Bool) (s : δ) : Int × δ :=
  match nor.factory.bind (·.set4BytesAddr) with
  | some set4BytesAddr => set4BytesAddr nor.toNorFlash enable s
  | none => norSendCmd p.toSpiPort norCmdEn4B s

def norSetQuadMode (nor : Nor δ) (s : δ) : Int × δ :=
  match nor.factory.bind (·.setQuadMode) with
  | some setQuadMode => setQuadMode nor.toNorFlash s
  | none => (0, s)

def scanFail (ret : Int) (st : Spinor δ) : Int × Spinor δ :=
  (ret, { st with nor := { st.nor with info := none } })

/-- The rest of `nor_scan` once the geometry stands: commands and quad mode. -/
def scanCommands (info : NorInfo) (st : Spinor δ) : Int × Spinor δ :=
  let (cmdWrite, wCmdSlen) := scanProgram st.nor.toNorFlash info
  let (cmdRead, rCmdSlen) := scanRead st.nor.toNorFlash info
  let st := { st with nor := { st.nor with cmdWrite, wCmdSlen, cmdRead, rCmdSlen } }
  if cmdBit cmdRead = 4 ∨ cmdBit cmdWrite = 4 then
    match norSetQuadMode st.nor st.dev with
    | (ret, s) =>
      if ret ≠ 0 then scanFail ret (st.onDev s) else (0, st.onDev s)
  else (0, st)

def norScan (st : Spinor δ) : Int × Spinor δ :=
  match norReadId p st.dev with
  | ((ret, id), s) =>
    let st := st.onDev s
    if ret ≠ 0 then scanFail ret st
    else
      match matchNorFrom p.factory st.fhead id (factoryNames.length + 1) st.fhead.head with
      | none => scanFail (-1) st
      | some (f, entry) =>
        let info := entry.withGeneral
        let nor := { st.nor with
          factory := some f, info := some info, totalSize := info.totalSize
          addrWidth := if info.totalSize > sz16M then 4 else 3 }
        let s := if info.totalSize > sz16M then (norSet4byte p nor true st.dev).2 else st.dev
        let st := { st with nor := { nor with pageSize := norPageSize }, dev := s }
        match scanBlkSize cfg info with
        | none => scanFail (-eInval) st
        | some blkSize => scanCommands info { st with nor := { st.nor with blkSize } }

/-- The steps of `nor_init`, in the order they are made. -/
inductive InitStep where
  | semCreate | spiInit | reset | factoryRegister | scan | factoryInit
  | wrLockInit | wrLockAll | wrUnlockAll | cacheInit
  deriving DecidableEq, Repr

/-- A step that only works on the board. -/
def devStep (f : Nor δ → δ → Int × δ) (st : Spinor δ) : Int × Spinor δ :=
  match f st.nor st.dev with
  | (ret, s) => (ret, st.onDev s)

def norLockInit (st : Spinor δ) : Int × Spinor δ :=
  devStep (fun _ s =>
    match p.halSemCreate s with
    | (ok, s) => (if ok then 0 else -1, s)) st

def norFactoryInit : Spinor δ → Int × Spinor δ :=
  devStep fun nor s =>
    match nor.factory.bind (·.init) with
    | some init => init nor.toNorFlash s
    | none => (0, s)

/-- `BITS_TO_LONGS(nr) * sizeof(long)` -/
def bitmapBytes (nr : Nat) : Nat := (nr + 63) / 64 * 8

def initCache (s : δ) : Int × δ :=
  match p.malloc cacheSize s with
  | (ok, s) => (if ok then 0 else -eNoMem, s)

/-- `init_bitmap`, with whether `bitmap_blk` is not NULL: behind its allocation the source tests
`blk_cnt`. -/
def initBitmap (st : Spinor δ) : (Int × Bool) × δ :=
  match p.malloc (bitmapBytes (cacheSize / st.nor.pageSize)) st.dev with
  | (ok, s) =>
    if !ok then ((-eNoMem, st.bitmapBlk), s)
    else
      match p.malloc (bitmapBytes (cacheSize / st.nor.blkSize)) s with
      | (ok, s) => if cacheSize / st.nor.blkSize = 0 then ((-eNoMem, ok), s) else ((0, ok), s)

/-- `nor_cache_init`. With a NULL `bitmap_blk` its `memset` goes to address 0, where the cache then
keeps the bitmap. -/
def norCacheInit (st : Spinor δ) : Int × Spinor δ :=
  if st.cache.isSome then (-eBusy, st)
  else
    match p.halSemCreate st.dev with
    | (ok, s) =>
      if !ok then (-1, st.onDev s)
      else
        match initCache p s with
        | (ret, s) =>
          if ret ≠ 0 then (ret, st.onDev s)
          else
            match initBitmap p (st.onDev s) with
            | ((ret, bitmapBlk), s) =>
              if ret ≠ 0 then (ret, { st.onDev s with bitmapBlk })
              else
                (0, { st with
                  cache := some (.fresh st.nor.toNorFlash st.lastWrite), bitmapBlk, dev := s })

theorem norCacheInit_nor (st : Spinor δ) : (norCacheInit p st).2.nor = st.nor := by
  rw [norCacheInit]
  repeat' split
  all_goals rfl

/-- The cache init reaches the board through the semaphore and the heap. -/
theorem norCacheInit_dev {P : δ → Prop} (hsem : ∀ s, P s → P (p.halSemCreate s).2)
    (hmalloc : ∀ n s, P s → P (p.malloc n s).2) (st : Spinor δ) (h : P st.dev) :
    P (norCacheInit p st).2.dev := by
  have hcache : ∀ s, P s → P (initCache p s).2 := fun s hs => hmalloc _ s hs
  have hbitmap : ∀ st : Spinor δ, P st.dev → P (initBitmap p st).2 := by
    intro st hs
    rw [initBitmap]
    dsimp only
    split
    · exact hmalloc _ _ hs
    · split <;> exact hmalloc _ _ (hmalloc _ _ hs)
  rw [norCacheInit]
  split
  · exact h
  dsimp only
  split
  · exact hsem _ h
  split
  · exact hcache _ (hsem _ h)
  split <;> exact hbitmap _ (hcache _ (hsem _ h))

/-- The steps of `nor_init` before the cache. -/
def coreSteps : List (InitStep × (Spinor δ → Int × Spinor δ)) :=
  [(.semCreate, norLockInit p),
    (.spiInit, devStep fun _ => p.awHalSpiInit),
    (.reset, devStep fun _ => norReset p),
    (.factoryRegister, fun st => (0, { st with fhead := norFactoryRegister st.fhead })),
    (.scan, norScan cfg p),
    (.factoryInit, norFactoryInit)] ++
  (if cfg.writeLock then
    [(.wrLockInit, devStep norWrLockInit), (.wrLockAll, devStep fun _ => norWrLockAll p.toSpiPort)]
  else []) ++
  [(.wrUnlockAll, devStep fun _ => norWrUnlockAll p.toSpiPort)]

def initSteps : List (InitStep × (Spinor δ → Int × Spinor δ)) :=
  coreSteps cfg p ++ (if cfg.cache then [(.cacheInit, norCacheInit p)] else [])

/-- Whether a step that has just answered 0 did its work: a cache init did when both bitmaps have
memory. -/
def InitStep.works (st : Spinor δ) : InitStep → Bool
  | .cacheInit => st.bitmapBlk
  | _ => true

/-- Steps in sequence with one exit: the first error is the result. The list is what completed. -/
def runSteps : List (InitStep × (Spinor δ → Int × Spinor δ)) → Spinor δ →
    (Int × List InitStep) × Spinor δ
  | [], st => ((0, []), st)
  | (name, step) :: steps, st =>
    match step st with
    | (ret, st) =>
      if ret ≠ 0 then ((ret, []), st)
      else
        match runSteps steps st with
        | ((ret, done), st') => ((ret, if name.works st then name :: done else done), st')

theorem runSteps_cons_ok {step : Spinor δ → Int × Spinor δ}
    (h : runSteps ((name, step) :: steps) st = ((0, done), st')) :
    ∃ st₁ done', step st = (0, st₁) ∧ runSteps steps st₁ = ((0, done'), st') ∧
      done = if name.works st₁ then name :: done' else done' := by
  rw [runSteps] at h
  rcases h₁ : step st with ⟨ret₁, st₁⟩
  rw [h₁] at h
  dsimp only at h
  by_cases h0 : ret₁ = 0
  · rw [if_neg (not_not.2 h0)] at h
    rcases h₂ : runSteps steps st₁ with ⟨⟨ret₂, done₂⟩, st₂⟩
    rw [h₂] at h
    obtain ⟨hr, rfl⟩ := Prod.mk.inj h
    obtain ⟨rfl, hd⟩ := Prod.mk.inj hr
    exact ⟨st₁, done₂, h0 ▸ rfl, h₂, hd.symm⟩
  · rw [if_pos h0] at h
    obtain ⟨hr, -⟩ := Prod.mk.inj h
    exact (h0 (Prod.mk.inj hr).1).elim

theorem runSteps_append {xs ys : List (InitStep × (Spinor δ → Int × Spinor δ))}
    (h : runSteps (xs ++ ys) st = ((0, done), st')) :
    ∃ done₁ st₁ done₂, runSteps xs st = ((0, done₁), st₁) ∧
      runSteps ys st₁ = ((0, done₂), st') ∧ done = done₁ ++ done₂ := by
  induction xs generalizing st done with
  | nil => exact ⟨[], st, done, rfl, h, rfl⟩
  | cons head xs ih =>
    obtain ⟨name, step⟩ := head
    obtain ⟨st₁, done', hstep, hrest, rfl⟩ := runSteps_cons_ok h
    obtain ⟨d₁, s₁, d₂, hx, hy, rfl⟩ := ih hrest
    refine ⟨if name.works st₁ then name :: d₁ else d₁, s₁, d₂, ?_, hy, ?_⟩
    · simp only [runSteps, hstep, hx, ne_eq, not_true_eq_false, if_false]
    · split <;> rfl

/-- `nor_init`, with the steps that this call completed. -/
def norInit (st : Spinor δ) : (Int × List InitStep) × Spinor δ :=
  if st.nor.info.isSome then ((0, []), st) else runSteps (initSteps cfg p) st

def norCacheExit (st : Spinor δ) : Spinor δ :=
  { st with
    cache := none
    bitmapBlk := false
    lastWrite := (st.cache.map (·.lastWrite)).getD st.lastWrite }

def norDeinit (st : Spinor δ) : Int × Spinor δ :=
  match st.nor.info with
  | none => (-eBusy, st)
  | some _ =>
    let st := if cfg.cache then norCacheExit st else st
    let s := if cfg.writeLock then (norWrUnlockAll p.toSpiPort st.dev).2 else st.dev
    let s := if st.nor.addrWidth = 4 then (norSet4byte p st.nor false s).2 else s
    (0, { st with nor := { st.nor with info := none }, dev := (p.halSpiDeinit s).2 })

end D1Flash
