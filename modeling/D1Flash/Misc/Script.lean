import D1Flash.Drv.Common
import D1Flash.Lib.LittleEndian

namespace D1Flash
open LittleEndian (load)
open NorArray (put slice)
set_option autoImplicit true

abbrev dataTypeGpioWord : Nat := 4
abbrev scriptParserOk : Int := 0
abbrev scriptParserEmptyBuffer : Int := -1
abbrev scriptParserKeynameNull : Int := -2
abbrev scriptParserKeyNotFind : Int := -4

/-- `sizeof(script_head_t)`, of a main key and of a sub key, of a name and of `user_gpio_set_t`. -/
abbrev scriptHeadSize : Nat := 16
abbrev scriptKeySize : Nat := 40
abbrev scriptNameSize : Nat := 32
abbrev userGpioSetSize : Nat := 56

/-- A byte string in memory, from a pointer on. -/
abbrev CStr := Nat → UInt8

structure ScriptMainKey where
  mainName : CStr
  lenth : Int
  offset : Int

structure ScriptSubKey where
  subName : CStr
  offset : Int
  pattern : Int

/-- `script_parser_t`; the buffer is the memory around `script_mod_buf`. -/
structure ScriptParser where
  scriptModBuf : Option (Int → UInt8)
  scriptModBufSize : Int
  scriptMainKeyCount : Int

/-- `strlen` of a string that ends in `n` more bytes. -/
def strlen (s : CStr) : Nat → Nat → Nat
  | 0, k => k
  | n + 1, k => if s k = 0 then k else strlen s n (k + 1)

/-- Whether `strcmp` gives 0, where one of the strings ends in `n` more bytes. -/
def strcmpEq (a b : CStr) : Nat → Nat → Bool
  | 0, _ => false
  | n + 1, k => if a k ≠ b k then false else if a k = 0 then true else strcmpEq a b n (k + 1)

/-- The loop of `_test_str_length`, with `n` more turns. -/
def testStrLoop (str : CStr) : Nat → Nat → Nat
  | 0, length => length
  | n + 1, length =>
    if str length = 0 then length + 1
    else if length + 1 > 32 then 32
    else testStrLoop str n (length + 1)

def testStrLength (str : CStr) : Nat := testStrLoop str 33 0

/-- `main_char`, a name cut to 31 bytes. -/
def mainChar (mainName : CStr) : CStr :=
  if testStrLength mainName > 31 then
    fun k => if k < 31 ∧ ∀ i < k, mainName i ≠ 0 then mainName k else 0
  else mainName

section
variable (buf : Int → UInt8)

def readInt (a : Int) : Int := toI32 (load (fun k => buf (a + k)) 0 4)

/-- `offset << 2` of an `int`. -/
def shiftOffset (offset : Int) : Int := toI32 (toU32 (offset * 4))

def mainKey (i : Nat) : ScriptMainKey :=
  let a : Int := scriptHeadSize + i * scriptKeySize
  ⟨fun k => buf (a + k), readInt buf (a + 32), readInt buf (a + 36)⟩

def subKey (key : ScriptMainKey) (j : Nat) : ScriptSubKey :=
  let a : Int := shiftOffset key.offset + j * scriptKeySize
  ⟨fun k => buf (a + k), readInt buf (a + 32), readInt buf (a + 36)⟩

/-- `DATA_TYPE_GPIO_WORD == ((pattern >> 16) & 0xffff)`. -/
def ScriptSubKey.isGpio (sub : ScriptSubKey) : Bool :=
  toU32 sub.pattern / 0x10000 % 0x10000 = dataTypeGpioWord

/-- The names differ nowhere. -/
def ScriptMainKey.named (key : ScriptMainKey) (name : CStr) : Bool :=
  strcmpEq key.mainName name scriptNameSize 0

/-- `gpio_count++` of an `int32_t`. -/
def nextCount (gpioCount : Int) : Int := toI32 (toU32 (gpioCount + 1))

/-- The sub keys that are left, `n` from `j` on. -/
def countSubKeys (key : ScriptMainKey) : Nat → Nat → Int → Int
  | 0, _, gpioCount => gpioCount
  | n + 1, j, gpioCount =>
    if (subKey buf key j).isGpio then countSubKeys key n (j + 1) (nextCount gpioCount)
    else countSubKeys key n (j + 1) gpioCount

def countMainKeys (mainChar : CStr) : Nat → Nat → Int → Int
  | 0, _, gpioCount => gpioCount
  | n + 1, i, gpioCount =>
    let key := mainKey buf i
    if key.named mainChar then
      countMainKeys mainChar n (i + 1) (countSubKeys buf key key.lenth.toNat 0 gpioCount)
    else countMainKeys mainChar n (i + 1) gpioCount

end

/-- `script_parser_mainkey_get_gpio_count`; `none` is a null pointer. -/
def scriptParserMainkeyGetGpioCount (hparser : Option ScriptParser) (mainName : Option CStr) :
    Int :=
  match hparser with
  | none => scriptParserEmptyBuffer
  | some parser =>
    match parser.scriptModBuf with
    | none => scriptParserEmptyBuffer
    | some buf =>
      match mainName with
      | none => scriptParserKeynameNull
      | some mainName =>
        countMainKeys buf (mainChar mainName) parser.scriptMainKeyCount.toNat 0 0

/-- The caller's memory with the places that were written, each a start and a length, and how many
entries of the array were filled. -/
structure GpioArray where
  mem : Nat → UInt8
  writes : List (Nat × Nat)
  userIndex : Nat

def GpioArray.write (u : GpioArray) (a : Nat) (d : List UInt8) : GpioArray :=
  { u with mem := put u.mem a d, writes := u.writes ++ [(a, d.length)] }

section
variable (buf : Int → UInt8) (gpioCfg : Nat) (gpioCount : Nat)

/-- The `strncpy` of the name and the `memcpy` of the data into the next entry. -/
def GpioArray.fill (u : GpioArray) (sub : ScriptSubKey) : GpioArray :=
  let entry := gpioCfg + u.userIndex * userGpioSetSize
  let u := u.write entry (slice sub.subName 0 (strlen sub.subName scriptNameSize 0 + 1))
  let u := u.write (entry + 32)
    (slice (fun k => buf (shiftOffset sub.offset + k)) 0 (userGpioSetSize - 32))
  { u with userIndex := u.userIndex + 1 }

/-- The sub keys that are left, `n` from `j` on. -/
def fillSubKeys (key : ScriptMainKey) : Nat → Nat → GpioArray → GpioArray
  | 0, _, u => u
  | n + 1, j, u =>
    let sub := subKey buf key j
    if sub.isGpio then
      let u := u.fill buf gpioCfg sub
      -- the bound is tested after the entry is written
      if u.userIndex ≥ gpioCount then u else fillSubKeys key n (j + 1) u
    else fillSubKeys key n (j + 1) u

def fillMainKeys (mainChar : CStr) : Nat → Nat → GpioArray → Int × GpioArray
  | 0, _, u => (scriptParserKeyNotFind, u)
  | n + 1, i, u =>
    let key := mainKey buf i
    if key.named mainChar then
      (scriptParserOk,
        fillSubKeys buf gpioCfg gpioCount key key.lenth.toNat 0 { u with userIndex := 0 })
    else fillMainKeys mainChar n (i + 1) u

end

/-- `script_parser_mainkey_get_gpio_cfg`, for a `gpio_count` that is not negative. -/
def scriptParserMainkeyGetGpioCfg (hparser : Option ScriptParser) (mainName : Option CStr)
    (gpioCfg gpioCount : Nat) (u : GpioArray) : Int × GpioArray :=
  match hparser with
  | none => (scriptParserEmptyBuffer, u)
  | some parser =>
    match parser.scriptModBuf with
    | none => (scriptParserEmptyBuffer, u)
    | some buf =>
      match mainName with
      | none => (scriptParserKeynameNull, u)
      | some mainName =>
        let u := u.write gpioCfg (List.replicate (userGpioSetSize * gpioCount) 0)
        fillMainKeys buf gpioCfg gpioCount (mainChar mainName) parser.scriptMainKeyCount.toNat 0 u

end D1Flash
