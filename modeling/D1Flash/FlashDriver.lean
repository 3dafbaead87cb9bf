import D1Flash.Drv.Common
import D1Flash.Spinor.HalSpinor

namespace D1Flash
set_option autoImplicit true

abbrev errorProgram : Int := -202
abbrev errorRead : Int := -203
abbrev errorErase : Int := -204
abbrev errorChipErase : Int := -205

variable (cfg : Config) (p : SpiPort δ)

def csiSpiflashRead (offset size : Nat) (st : Spinor δ) : (Int × List Byte) × Spinor δ :=
  match halSpinorReadData cfg p offset size st with
  | ((ret, data), st) => if ret ≠ 0 then ((csiError, data), st) else ((toI32 size, data), st)

def csiSpiflashProgram (offset : Nat) (data : List Byte) (st : Spinor δ) : Int × Spinor δ :=
  match halSpinorProgramData cfg p offset data st with
  | (ret, st) => if ret ≠ 0 then (csiError, st) else (toI32 data.length, st)

def csiSpiflashErase (offset size : Nat) (st : Spinor δ) : Int × Spinor δ :=
  match halSpinorGetInfo st with
  | none => (csiError, st)
  | some info =>
    if size % info.sectorSize ≠ 0 then (csiError, st)
    else
      match halSpinorEraseSector cfg p offset size st with
      | (ret, st) => if ret ≠ 0 then (csiError, st) else (csiOk, st)

/-- `flashProgram` on a source buffer of at least `length` bytes; `xip_addr` is 0. -/
def flashProgram (dst : Nat) (src : List Byte) (length : Int) (st : Spinor δ) : Int × Spinor δ :=
  if (src.take length.toNat).any (· != 0xFF) then
    match csiSpiflashProgram cfg p dst (src.take (toU32 length)) st with
    | (ret, st) => if ret < 0 then (errorProgram, st) else (0, st)
  else (0, st)

/-- `flashRead` with what it leaves in the buffer. -/
def flashRead (src : Nat) (length : Int) (st : Spinor δ) : (Int × List Byte) × Spinor δ :=
  match csiSpiflashRead cfg p src (toU32 length) st with
  | ((ret, data), st) => if ret < 0 then ((errorRead, data), st) else ((0, data), st)

def flashErase (dst : Nat) (length : Int) (st : Spinor δ) : Int × Spinor δ :=
  match csiSpiflashErase cfg p dst (toU32 length) st with
  | (ret, st) => if ret ≠ 0 then (errorErase, st) else (0, st)

def flashChipErase (st : Spinor δ) : Int × Spinor δ :=
  match halSpinorEraseChip cfg p st with
  | (ret, st) => if ret ≠ 0 then (errorChipErase, st) else (0, st)

end D1Flash
