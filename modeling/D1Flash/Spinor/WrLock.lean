import D1Flash.Spinor.Transfer

namespace D1Flash
set_option autoImplicit true

abbrev norCmdBlkLockAll : Byte := 0x7E
abbrev norCmdBlkUnlockAll : Byte := 0x98

/-- `struct nor_factory`. The id table is the memory at `idt`; it has `idtLen` entries. -/
structure NorFactory (δ : Type) where
  factory : Byte
  idtCnt : Nat
  idt : Nat → NorInfo
  idtLen : Nat
  init : Option (NorFlash → δ → Int × δ)
  initLock : Option (NorFlash → δ → Int × δ)
  lock : Option (NorFlash → Nat → Nat → δ → Int × δ)
  unlock : Option (NorFlash → Nat → Nat → δ → Int × δ)
  islock : Option (NorFlash → Nat → Nat → δ → Bool × δ)
  setQuadMode : Option (NorFlash → δ → Int × δ)
  set4BytesAddr : Option (NorFlash → Bool → δ → Int × δ)

/-- `struct nor_flash` with the factory it points to. -/
structure Nor (δ : Type) extends NorFlash where
  factory : Option (NorFactory δ)

/-- The protection unit of an address: sectors in the first and the last block, else a block. -/
def lockAlignSize (totalSize addr : Nat) : Nat :=
  if addr ≥ u32Sub totalSize sz64K ∨ addr < sz64K then sz4K else sz64K

/-- The loop of `nor_wr_lock`, `nor_wr_unlock` and `nor_wr_islock` over a factory hook. -/
def lockLoop (totalSize : Nat) (hook : Nat → Nat → δ → Int × δ) :
    Nat → Nat → Nat → δ → Int × δ
  | 0, _, _, s => (0, s)
  | fuel + 1, addr, len, s =>
    if len = 0 then (0, s)
    else
      let alignSize := lockAlignSize totalSize addr
      match hook (alignDown addr alignSize) alignSize s with
      | (ret, s) =>
        if ret ≠ 0 then (ret, s)
        else
          -- the second MIN of the source already sees the reduced length
          let len' := len - min alignSize len
          lockLoop totalSize hook fuel (u32 (addr + min alignSize len')) len' s

variable (p : SpiPort δ) (nor : Nor δ)

def norWrLockInit (s : δ) : Int × δ :=
  match nor.factory.bind (·.initLock) with
  | some initLock => initLock nor.toNorFlash s
  | none => (0, s)

def norWrLock (addr len : Nat) (s : δ) : Int × δ :=
  match nor.factory.bind (·.lock) with
  | some lock => lockLoop nor.totalSize (lock nor.toNorFlash) len addr len s
  | none => (0, s)

def norWrUnlock (addr len : Nat) (s : δ) : Int × δ :=
  match nor.factory.bind (·.unlock) with
  | some unlock => lockLoop nor.totalSize (unlock nor.toNorFlash) len addr len s
  | none => (0, s)

def norWrIslock (addr len : Nat) (s : δ) : Bool × δ :=
  match nor.factory.bind (·.islock) with
  | some islock =>
    let hook := fun addr len s =>
      match islock nor.toNorFlash addr len s with
      | (locked, s) => (if locked then (1 : Int) else 0, s)
    match lockLoop nor.totalSize hook len addr len s with
    | (ret, s) => (ret != 0, s)
  | none => (false, s)

def norWrUnlockAll (s : δ) : Int × δ :=
  match norWriteEnable p s with
  | (ret, s) => if ret ≠ 0 then (ret, s) else norSendCmd p norCmdBlkUnlockAll s

def norWrLockAll (s : δ) : Int × δ :=
  match norWriteEnable p s with
  | (ret, s) => if ret ≠ 0 then (ret, s) else norSendCmd p norCmdBlkLockAll s

end D1Flash
