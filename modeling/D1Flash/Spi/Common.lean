import D1Flash.Spinor.Inter

namespace D1Flash
set_option autoImplicit true

abbrev spiNbitsSingle : Nat := 1
abbrev spiNbitsDual : Nat := 2
abbrev spiNbitsQuad : Nat := 4

/-- `hal_spi_master_transfer_t`; a buffer pointer that is NULL is `none` or `false`. -/
structure HalSpiMasterTransfer where
  txBuf : Option (List Byte)
  txLen : Nat
  txSingleLen : Nat
  rxBuf : Bool
  rxLen : Nat
  txNbits : Nat
  rxNbits : Nat
  dummyByte : Nat

end D1Flash
