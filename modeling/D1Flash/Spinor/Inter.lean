import Mathlib.Algebra.Group.Nat.Defs
import Mathlib.Tactic.Common

namespace D1Flash
set_option autoImplicit true

abbrev Byte := UInt8

/-- The value an `unsigned int` expression has. -/
def u32 (n : Nat) : Nat := n % 0x100000000

def u32Sub (a b : Nat) : Nat := u32 (a + (0x100000000 - u32 b))

/-- `ALIGN(x, a)` for a power of two. -/
def align (x a : Nat) : Nat := u32 (x + (a - 1)) / a * a

/-- `ALIGN_DOWN(x, a)` for a power of two. -/
def alignDown (x a : Nat) : Nat := align (u32Sub x (a - 1)) a

abbrev eBusy : Int := 16
abbrev eInval : Int := 22
abbrev eNoMem : Int := 12

abbrev sz4K : Nat := 0x1000
abbrev sz32K : Nat := 0x8000
abbrev sz64K : Nat := 0x10000
abbrev sz16M : Nat := 0x1000000

abbrev maxIdLen : Nat := 3
abbrev maxWaitLoop : Nat := 0xFFFFFFFF
abbrev norPageSize : Nat := 256
abbrev norHalfBlkSize : Nat := sz32K
abbrev norBlkSize : Nat := sz64K

/-- The build options the driver is compiled with. -/
structure Config where
  writeLock : Bool
  cache : Bool
  sectors4K : Bool

abbrev support4KEraseBlk : UInt32 := 0x1
abbrev support32KEraseBlk : UInt32 := 0x2
abbrev support64KEraseBlk : UInt32 := 0x4
abbrev supportDualRead : UInt32 := 0x8
abbrev supportQuadRead : UInt32 := 0x10
abbrev supportQuadWrite : UInt32 := 0x20
abbrev supportIndividualProtect : UInt32 := 0x40
abbrev supportGeneral : UInt32 := 0x3F
abbrev use4KErase : UInt32 := 0x100000
abbrev useIoProgX4 : UInt32 := 0x200000
abbrev useIoReadX2 : UInt32 := 0x400000
abbrev useIoReadX4 : UInt32 := 0x800000

/-- An entry of a factory's id table. -/
structure NorInfo where
  id : List Byte
  totalSize : Nat
  flag : UInt32
  totalSize_lt : totalSize < 0x100000000

instance : Inhabited NorInfo := ⟨⟨[], 0, 0, by decide⟩⟩

def NorInfo.has (info : NorInfo) (bit : UInt32) : Bool := info.flag &&& bit != 0

structure NorFlash where
  cmdRead : Byte
  cmdWrite : Byte
  rCmdSlen : Nat
  wCmdSlen : Nat
  totalSize : Nat
  blkSize : Nat
  pageSize : Nat
  addrWidth : Nat
  info : Option NorInfo

theorem u32_of_lt (h : n < 0x100000000) : u32 n = n := Nat.mod_eq_of_lt h

theorem u32_lt (n : Nat) : u32 n < 0x100000000 := Nat.mod_lt _ (by decide)

theorem page_rest (h : addr < 0x100000000) :
    u32Sub (align (u32 (addr + 1)) norPageSize) addr = norPageSize - addr % norPageSize := by
  simp only [u32Sub, align, u32, norPageSize]
  omega

theorem alignDown_64K (h : addr < 0x100000000) : alignDown addr sz64K = addr / sz64K * sz64K := by
  simp only [alignDown, align, u32Sub, u32, sz64K]
  omega

end D1Flash
