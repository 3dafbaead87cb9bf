import D1Flash.Gpio.HalGpio
import D1Flash.Lib.RegFile

namespace D1Flash
open BitField RegFile
set_option autoImplicit true

abbrev pinsPerBank : Nat := 32
abbrev muxRegsOffset : Nat := 0x0
abbrev muxPinsPerReg : Nat := 8
abbrev muxPinsBits : Nat := 4
abbrev muxPinsMask : BitVec 32 := 0x0f
abbrev dataRegsOffset : Nat := 0x10
abbrev dataPinsPerReg : Nat := 32
abbrev dataPinsBits : Nat := 1
abbrev dataPinsMask : BitVec 32 := 0x01
abbrev dlevelRegsOffset : Nat := 0x14
abbrev dlevelPinsPerReg : Nat := 8
abbrev dlevelPinsBits : Nat := 4
abbrev dlevelPinsMask : BitVec 32 := 0x0f
abbrev pullRegsOffset : Nat := 0x24
abbrev pullPinsPerReg : Nat := 16
abbrev pullPinsBits : Nat := 2
abbrev pullPinsMask : BitVec 32 := 0x03

def roundDown (x y : Nat) : Nat := x - x % y

/-- The register of a pin, where a bank has `pinsPerReg` pins in each register
from `regsOffset` on. -/
def gpioPinReg (regsOffset pinsPerReg pin : Nat) : Nat :=
  let pin := pin % bankBoundary
  let bank := pin / pinsPerBank
  roundDown (bank * bankMemSize + regsOffset + pin % pinsPerBank / pinsPerReg * 0x04) 4

def gpioPinOffset (pinsPerReg pinsBits pin : Nat) : Nat := pin % pinsPerReg * pinsBits

def gpioMuxOffset : Nat → Nat := gpioPinOffset muxPinsPerReg muxPinsBits

def gpioDataReg : Nat → Nat := gpioPinReg dataRegsOffset dataPinsPerReg

def gpioDataOffset : Nat → Nat := gpioPinOffset dataPinsPerReg dataPinsBits

def gpioDlevelReg : Nat → Nat := gpioPinReg dlevelRegsOffset dlevelPinsPerReg

def gpioDlevelOffset : Nat → Nat := gpioPinOffset dlevelPinsPerReg dlevelPinsBits

def gpioPullReg : Nat → Nat := gpioPinReg pullRegsOffset pullPinsPerReg

def gpioPullOffset : Nat → Nat := gpioPinOffset pullPinsPerReg pullPinsBits

/-- The parameters `gpio_pconf_reg` knows. -/
inductive PinConfigParam
  | func
  | dat
  | pud
  | drv
  deriving DecidableEq

/-- `GPIO_TYPE_FUNC` and so on. -/
def PinConfigParam.code : PinConfigParam → BitVec 64
  | .func => 0
  | .dat => 1
  | .pud => 2
  | .drv => 3

/-- The low eight bits; a number that is none of the four takes the `default` of every switch. -/
def pinconfToConfigParam (config : BitVec 64) : Option PinConfigParam :=
  [PinConfigParam.func, .dat, .pud, .drv].find? fun param => param.code == config &&& 0xff

def pinconfToConfigArgument (config : BitVec 64) : BitVec 32 :=
  ((config >>> 8) &&& 0xffffff).setWidth 32

/-- `GPIO_CFG_PACK` of an `unsigned long`, which is also `pinconf_to_config_packed`. -/
def gpioCfgPack (type value : BitVec 64) : BitVec 64 := (value <<< 8) ||| (type &&& 0xff)

/-- The register, the shift and the mask. -/
def gpioPconfReg (pin : Nat) : PinConfigParam → Nat × Nat × BitVec 32
  | .drv => (gpioDlevelReg pin, gpioDlevelOffset pin, dlevelPinsMask)
  | .pud => (gpioPullReg pin, gpioPullOffset pin, pullPinsMask)
  | .dat => (gpioDataReg pin, gpioDataOffset pin, dataPinsMask)
  | .func => (gpioMuxReg pin, gpioMuxOffset pin, muxPinsMask)

inductive GpioDomain
  | cpux
  | cpus
  deriving DecidableEq

def pinDomain (pin : Nat) : GpioDomain := if pin < bankBoundary then .cpux else .cpus

/-- `g_gpio_desc`: the words of each domain at its `membase`, `none` where the entry is NULL. -/
abbrev GpioDescs := GpioDomain → Option (Nat → BitVec 32)

def pinToGpioDesc (pin : Nat) (g : GpioDescs) : Option (Nat → BitVec 32) := g (pinDomain pin)

def gpioConfSet (pin : Nat) (config : BitVec 64) (g : GpioDescs) : Int × GpioDescs :=
  match pinToGpioDesc pin g with
  | none => (-1, g)
  | some regs =>
    match pinconfToConfigParam config with
    | none => (-1, g)
    | some param =>
      let arg := pinconfToConfigArgument config
      let (offset, shift, mask) := gpioPconfReg pin param
      let reg := regs offset &&& ~~~(mask <<< shift)
      (0, Function.update g (pinDomain pin)
        (some (Function.update regs offset (reg ||| arg <<< shift))))

/-- `gpio_conf_get`, with what it leaves in `*gpio_config`. -/
def gpioConfGet (pin : Nat) (config : BitVec 64) (g : GpioDescs) : Int × BitVec 64 :=
  match pinToGpioDesc pin g with
  | none => (-1, config)
  | some regs =>
    match pinconfToConfigParam config with
    | none => (-1, config)
    | some param =>
      let (offset, shift, mask) := gpioPconfReg pin param
      let val := (regs offset >>> shift) &&& mask
      (0, gpioCfgPack param.code (val.setWidth 64))

/-- The layout of a parameter: its first register in a bank, the pins of a register and the bits of
a pin. -/
def PinConfigParam.regsOffset : PinConfigParam → Nat
  | .func => 0x0
  | .dat => 0x10
  | .pud => 0x24
  | .drv => 0x14

def PinConfigParam.pinsPerReg : PinConfigParam → Nat
  | .func => 8
  | .dat => 32
  | .pud => 16
  | .drv => 8

def PinConfigParam.bits : PinConfigParam → Nat
  | .func => 4
  | .dat => 1
  | .pud => 2
  | .drv => 4

/-- The field of a parameter of a pin in the words of its domain. -/
def pinField (pin : Nat) (param : PinConfigParam) : Field where
  off := gpioPinReg param.regsOffset param.pinsPerReg pin
  shift := gpioPinOffset param.pinsPerReg param.bits pin
  width := param.bits

theorem gpioPinReg_eq (param : PinConfigParam) (pin : Nat) :
    gpioPinReg param.regsOffset param.pinsPerReg pin =
      pin % 352 / 32 * 48 + param.regsOffset + pin % 352 % 32 / param.pinsPerReg * 4 := by
  rw [gpioPinReg, roundDown, pinsPerBank, bankMemSize, bankBoundary]
  cases param <;> simp only [PinConfigParam.regsOffset, PinConfigParam.pinsPerReg] <;> omega

theorem gpioPconfReg_eq (pin : Nat) (param : PinConfigParam) :
    gpioPconfReg pin param =
      ((pinField pin param).off, (pinField pin param).shift,
        BitVec.allOnes 32 >>> (32 - (pinField pin param).width)) := by
  cases param with
  | func =>
    have hreg : gpioMuxReg pin = (pinField pin .func).off := (gpioPinReg_eq .func pin).symm
    rw [gpioPconfReg, hreg]
    rfl
  | dat => rfl
  | pud => rfl
  | drv => rfl

theorem pinField_fits (pin : Nat) (param : PinConfigParam) :
    (pinField pin param).shift + (pinField pin param).width ≤ 32 := by
  rw [pinField, gpioPinOffset]
  cases param <;> simp only [PinConfigParam.bits, PinConfigParam.pinsPerReg] <;> omega

/-- The fields of two pins of a domain, or of two parameters, have no bit in common. -/
theorem pinField_apart (hpin : pin % 352 = pin' % 352 → pin = pin')
    (h : (pin, param) ≠ (pin', param')) :
    (pinField pin param).Apart (pinField pin' param') := by
  apply Field.apart_of_ranges
  simp only [pinField, gpioPinReg_eq, gpioPinOffset]
  cases param <;> cases param' <;>
    simp only [PinConfigParam.regsOffset, PinConfigParam.pinsPerReg, PinConfigParam.bits, ne_eq,
      Prod.mk.injEq, reduceCtorEq, and_true, and_false] at h ⊢ <;>
    omega

theorem low_byte_getLsbD (hi : i < 64) : (0xff : BitVec 64).getLsbD i = decide (i < 8) := by
  have hmask := mask_getLsbD 0 8 hi (by decide)
  simpa using hmask

theorem gpioCfgPack_type (type value : BitVec 64) :
    gpioCfgPack type value &&& 0xff = type &&& 0xff := by
  apply BitVec.eq_of_getLsbD_eq
  intro i hi
  rw [gpioCfgPack, BitVec.getLsbD_and, BitVec.getLsbD_or, BitVec.getLsbD_and,
    BitVec.getLsbD_shiftLeft, low_byte_getLsbD hi]
  by_cases h8 : i < 8
  · simp [h8]
  · simp [h8]

theorem pinconfToConfigParam_pack (param : PinConfigParam) (value : BitVec 64) :
    pinconfToConfigParam (gpioCfgPack param.code value) = some param := by
  rw [pinconfToConfigParam, gpioCfgPack_type]
  cases param <;> rfl

theorem gpioCfgPack_value (type : BitVec 64) (v : BitVec 32) :
    gpioCfgPack type (v.setWidth 64) >>> 8 = v.setWidth 64 := by
  apply BitVec.eq_of_getLsbD_eq
  intro i hi
  rw [gpioCfgPack, BitVec.getLsbD_ushiftRight, BitVec.getLsbD_or, BitVec.getLsbD_and,
    BitVec.getLsbD_shiftLeft, Nat.add_sub_cancel_left]
  by_cases h64 : 8 + i < 64
  · rw [low_byte_getLsbD h64, decide_eq_false (by omega : ¬ 8 + i < 8), decide_eq_true h64,
      Bool.and_false, Bool.or_false]
    rfl
  · have hbit : (v.setWidth 64).getLsbD i = false := by
      rw [BitVec.getLsbD_setWidth, BitVec.getLsbD_of_ge v i (by omega), Bool.and_false]
    rw [hbit, BitVec.getLsbD_of_ge type _ (Nat.not_lt.1 h64), Bool.and_false, Bool.false_and,
      Bool.or_false]

theorem argument_mask (v : BitVec 32) (hv : v.toNat < 2 ^ 24) :
    v.setWidth 64 &&& (0xffffff : BitVec 64) = v.setWidth 64 := by
  apply BitVec.eq_of_toNat_eq
  rw [BitVec.toNat_and, BitVec.toNat_setWidth, Nat.mod_eq_of_lt (by omega)]
  exact (Nat.and_two_pow_sub_one_eq_mod v.toNat 24).trans (Nat.mod_eq_of_lt hv)

theorem pinconfToConfigArgument_pack (type : BitVec 64) (v : BitVec 32) (hv : v.toNat < 2 ^ 24) :
    pinconfToConfigArgument (gpioCfgPack type (v.setWidth 64)) = v := by
  rw [pinconfToConfigArgument, gpioCfgPack_value, argument_mask v hv,
    BitVec.setWidth_setWidth_of_le]
  · exact BitVec.setWidth_eq v
  · decide

def gpioCfgUnpackValue (cfg : BitVec 64) : BitVec 64 := (cfg &&& 0xFFFFFF00) >>> 8

theorem gpioCfgUnpackValue_pack (type : BitVec 64) (v : BitVec 32) (hv : v.toNat < 2 ^ 24) :
    gpioCfgUnpackValue (gpioCfgPack type (v.setWidth 64)) = v.setWidth 64 := by
  rw [gpioCfgUnpackValue, BitVec.ushiftRight_and_distrib, gpioCfgPack_value]
  exact argument_mask v hv

/-- `gpio_conf_set` of a parameter, with the word its callers pack. -/
def setConf (pin : Nat) (param : PinConfigParam) (v : BitVec 32) (g : GpioDescs) :
    Int × GpioDescs :=
  gpioConfSet pin (gpioCfgPack param.code (v.setWidth 64)) g

/-- `gpio_conf_get` of a parameter, with the word its callers pack. -/
def getConf (pin : Nat) (param : PinConfigParam) (g : GpioDescs) : Int × BitVec 64 :=
  gpioConfGet pin (gpioCfgPack param.code 0xffffff) g

theorem PinConfigParam.bits_le (param : PinConfigParam) : 2 ^ param.bits ≤ 2 ^ 24 := by
  cases param <;> decide

theorem setConf_eq (hg : g (pinDomain pin) = some regs) (param : PinConfigParam) (v : BitVec 32)
    (hv : v.toNat < 2 ^ param.bits) :
    setConf pin param v g =
      (0, Function.update g (pinDomain pin) (some ((pinField pin param).set v regs))) := by
  rw [setConf, gpioConfSet, pinToGpioDesc, hg]
  dsimp only
  rw [pinconfToConfigParam_pack]
  dsimp only
  rw [pinconfToConfigArgument_pack _ v (Nat.lt_of_lt_of_le hv param.bits_le), gpioPconfReg_eq]
  rfl

theorem getConf_eq (hg : g (pinDomain pin) = some regs) (param : PinConfigParam) :
    getConf pin param g =
      (0, gpioCfgPack param.code (((pinField pin param).get regs).setWidth 64)) := by
  rw [getConf, gpioConfGet, pinToGpioDesc, hg]
  dsimp only
  rw [pinconfToConfigParam_pack]
  dsimp only
  rw [gpioPconfReg_eq]
  rfl

/-- A bit of the register file of a domain, where it has one. -/
def confBit (g : GpioDescs) (domain : GpioDomain) (off i : Nat) : Option Bool :=
  (g domain).map fun regs => (regs off).getLsbD i

/-- The numbers of `gpio_pin_t`: PA0 to PO31. -/
abbrev gpioPins : Nat := 480

/-- A set of one field of a domain leaves every other field, commutes with its set, is read back,
and changes no other bit. -/
theorem gpioConf_independent (g : GpioDescs) (pin pin' : Nat) (param param' : PinConfigParam)
    (v v' : BitVec 32) (hp : pin < gpioPins) (hp' : pin' < gpioPins)
    (hdom : pinDomain pin' = pinDomain pin) (hg : (g (pinDomain pin)).isSome)
    (hne : (pin, param) ≠ (pin', param')) (hv : v.toNat < 2 ^ param.bits)
    (hv' : v'.toNat < 2 ^ param'.bits) :
    (setConf pin param v g).1 = 0 ∧
    getConf pin' param' (setConf pin param v g).2 = getConf pin' param' g ∧
    setConf pin' param' v' (setConf pin param v g).2 =
      setConf pin param v (setConf pin' param' v' g).2 ∧
    (getConf pin param (setConf pin param v g).2).1 = 0 ∧
    gpioCfgUnpackValue (getConf pin param (setConf pin param v g).2).2 = v.setWidth 64 ∧
    ∀ domain off i, ¬ (domain = pinDomain pin ∧ (pinField pin param).Has off i) →
      confBit (setConf pin param v g).2 domain off i = confBit g domain off i := by
  obtain ⟨regs, hregs⟩ := Option.isSome_iff_exists.1 hg
  have hfits := pinField_fits pin param
  have hfits' := pinField_fits pin' param'
  have happart : (pinField pin param).Apart (pinField pin' param') := by
    apply pinField_apart _ hne
    intro hmod
    simp only [pinDomain, gpioPins, bankBoundary] at hdom hp hp'
    split at hdom <;> split at hdom <;> first | omega | cases hdom
  have hset := setConf_eq hregs param v hv
  have hregs' : g (pinDomain pin') = some regs := hdom ▸ hregs
  have hset' := setConf_eq hregs' param' v' hv'
  have hnew : (setConf pin param v g).2 (pinDomain pin) =
    some ((pinField pin param).set v regs) := by
    rw [hset]
    exact Function.update_self _ _ _
  have hnew' : (setConf pin' param' v' g).2 (pinDomain pin) =
      some ((pinField pin' param').set v' regs) := by
    rw [hset', ← hdom]
    exact Function.update_self _ _ _
  refine ⟨by rw [hset], ?_, ?_, ?_, ?_, ?_⟩
  · rw [getConf_eq (hdom ▸ hnew), getConf_eq hregs',
      Field.get_set_apart happart regs hfits (by omega) hv]
  · rw [setConf_eq (hdom ▸ hnew) param' v' hv', setConf_eq hnew' param v hv, hset, hset', hdom]
    dsimp only
    rw [Function.update_idem, Function.update_idem, Field.set_comm happart regs hfits hfits' hv hv']
  · rw [getConf_eq hnew]
  · rw [getConf_eq hnew, Field.get_set _ _ hfits hv]
    exact gpioCfgUnpackValue_pack _ v (Nat.lt_of_lt_of_le hv param.bits_le)
  · intro domain off i hbit
    rw [confBit, confBit]
    by_cases hd : domain = pinDomain pin
    · rw [hd, hnew, hregs, Option.map_some, Option.map_some, Field.set_getLsbD _ _ hfits hv,
        if_neg fun h => hbit ⟨hd, h⟩]
    · rw [hset]
      dsimp only
      rw [Function.update_of_ne hd]

/-- The function and the drive level of two neighbours in bank B. -/
theorem gpioConf_independent_pb0_pb1 :
    let g : GpioDescs := fun domain => if domain = .cpux then some fun _ => 0x77777777 else none
    let g' := (setConf 32 .func 2 g).2
    (setConf 32 .func 2 g).1 = 0 ∧ getConf 33 .drv g' = getConf 33 .drv g ∧
      setConf 33 .drv 1 g' = setConf 32 .func 2 (setConf 33 .drv 1 g).2 ∧
      (getConf 32 .func g').1 = 0 ∧
      gpioCfgUnpackValue (getConf 32 .func g').2 = 2 ∧
      ∀ domain off i, ¬ (domain = .cpux ∧ (pinField 32 .func).Has off i) →
        confBit g' domain off i = confBit g domain off i := by
  intro g g'
  exact gpioConf_independent g 32 33 .func .drv 2 1 (by decide) (by decide) rfl rfl (by decide)
    (by decide) (by decide)

end D1Flash
