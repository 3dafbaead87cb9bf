import D1Flash.Drv.Common

namespace D1Flash
set_option autoImplicit true

abbrev uartBusyTimeout : Nat := 0x70000000
abbrev dwUartUsrBusySet : UInt32 := 0x1
abbrev dwUartLcrDlabEn : UInt32 := 0x80
abbrev dwUartSupportRate : UInt32 := 0x10102
abbrev dwUartSupportFractionalBaudRate : UInt32 := 0x44570110

/-- The registers of a UART that a change of the baud rate uses; `dll` and `dlh` are the latches
behind the divisor latch bit. -/
structure DwUartRegs where
  lcr : UInt32
  dlh : UInt32
  dll : UInt32
  uartRate : UInt32
  ipId : UInt32

/-- What the status registers read while the driver waits: the `k`th reads of the first loop, and
those of `USR` in `dw_uart_wait_idle`. -/
structure UartWait where
  lsr : Nat → UInt32
  usr : Nat → UInt32
  idle : Nat → UInt32

/-- The loop of `dw_uart_wait_idle`, `n` turns before the timeout; it ends with `timecount`. -/
def waitIdleLoop (usr : Nat → UInt32) : Nat → Nat → Nat
  | 0, timecount => timecount
  | n + 1, timecount =>
    if usr timecount &&& dwUartUsrBusySet ≠ 0 then waitIdleLoop usr n (timecount + 1) else timecount

def dwUartWaitIdle (usr : Nat → UInt32) : Int :=
  if waitIdleLoop usr uartBusyTimeout 0 ≥ uartBusyTimeout then -1 else 0

/-- The loop of `dw_uart_wait_timeout`, `n` turns before the timeout. -/
def waitTimeoutLoop (w : UartWait) : Nat → Nat → Int
  | 0, _ => -1
  | n + 1, timecount =>
    if w.lsr timecount &&& 0x81 ≠ 0 ∨ w.usr timecount &&& 0x1 ≠ 0 then
      waitTimeoutLoop w n (timecount + 1)
    else 0

def dwUartWaitTimeout (w : UartWait) : Int :=
  let ret := waitTimeoutLoop w uartBusyTimeout 0
  if ret = 0 then dwUartWaitIdle w.idle else ret

theorem dwUartWaitTimeout_idle {w : UartWait} (hl : w.lsr 0 &&& 0x81 = 0)
    (hu : w.usr 0 &&& 0x1 = 0) (hi : w.idle 0 &&& dwUartUsrBusySet = 0) :
    dwUartWaitTimeout w = 0 := by
  have hfirst : waitTimeoutLoop w (0x6FFFFFFF + 1) 0 = 0 := by
    rw [waitTimeoutLoop, if_neg]
    rintro (h | h)
    · exact h hl
    · exact h hu
  have hidle : waitIdleLoop w.idle (0x6FFFFFFF + 1) 0 = 0 := by
    rw [waitIdleLoop, if_neg (not_not.2 hi)]
  have hbudget : uartBusyTimeout = 0x6FFFFFFF + 1 := rfl
  rw [dwUartWaitTimeout, dwUartWaitIdle, hbudget, hfirst, if_pos rfl, hidle, if_neg (by decide)]

/-- A division of `uint32_t`s; `none` is a division by zero. -/
def udiv (a b : UInt32) : Option UInt32 := if b = 0 then none else some (a / b)

/-- A number of tenths rounded to a whole number. -/
def roundTenths (q : UInt32) : UInt32 := if q % 10 ≥ 5 then q / 10 + 1 else q / 10

/-- `divisor` as `dw_uart_config_baudrate` computes it, and what it writes to `UART_RATE`. -/
def dwUartDivisor (ipId baud uartFreq : UInt32) : Option (UInt32 × Option UInt8) :=
  let first : Option UInt32 :=
    if baud ≠ 0 then (udiv (uartFreq * 10) baud).map fun q : UInt32 => q >>> 4 else some 1
  match first with
  | none => none
  | some divisor =>
    if ipId = dwUartSupportRate then
      let divisor := divisor / 10
      match udiv (uartFreq * 10) (baud * divisor) with
      | none => none
      | some uartRate =>
        some (divisor, some (roundTenths uartRate).toUInt8)
    else if ipId = dwUartSupportFractionalBaudRate then
      match udiv (uartFreq * 10) (baud <<< 4) with
      | none => none
      | some divisor =>
        let fractional := divisor % 10
        let divisor := divisor / 10
        some (divisor, some (16 * fractional / 10).toUInt8)
    else
      let divisor := roundTenths divisor
      let divisor := if divisor = 0 then 1 else divisor
      some (divisor, none)

/-- The writes of a divisor to its two latches. -/
def DwUartRegs.latch (regs : DwUartRegs) (divisor : UInt32) : DwUartRegs :=
  let regs := { regs with lcr := regs.lcr ||| dwUartLcrDlabEn }
  let regs := { regs with dlh := (divisor >>> 8) &&& 0xFF }
  let regs := { regs with dll := divisor &&& 0xFF }
  { regs with lcr := regs.lcr &&& ~~~dwUartLcrDlabEn }

/-- `dw_uart_config_baudrate`; `none` is a division by zero. -/
def dwUartConfigBaudrate (w : UartWait) (regs : DwUartRegs) (baud uartFreq : UInt32) :
    Option (Int × DwUartRegs) :=
  let ret := dwUartWaitTimeout w
  if ret = 0 then
    match dwUartDivisor regs.ipId baud uartFreq with
    | none => none
    | some (divisor, rate) =>
      let regs := match rate with
        | none => regs
        | some rate => { regs with uartRate := rate.toUInt32 }
      some (ret, regs.latch divisor)
  else some (ret, regs)

/-- Whether a variant counts as one with fractional support; it is left open for the one that has
only a rate register. -/
def FractionalIp (rateCounts : Bool) (ipId : UInt32) : Prop :=
  ipId = dwUartSupportFractionalBaudRate ∨ (ipId = dwUartSupportRate ∧ rateCounts = true)

/-- What a divisor has to be. -/
structure RightDivisor (rateCounts : Bool) (ipId baud uartFreq divisor : UInt32) : Prop where
  pos : divisor ≠ 0
  fits : divisor.toNat < 65536
  nearest : baud ≠ 0 → ¬ FractionalIp rateCounts ipId →
    ∃ q, Nearest q uartFreq.toNat (16 * baud.toNat) ∧ divisor.toNat = max 1 q

/-- The registers after a call that succeeded. -/
structure BaudRateSet (rateCounts : Bool) (ipId baud uartFreq divisor : UInt32)
    (regs : DwUartRegs) :
    Prop extends RightDivisor rateCounts ipId baud uartFreq divisor where
  latches : divisor.toNat = regs.dlh.toNat * 256 + regs.dll.toNat ∧
    regs.dlh.toNat < 256 ∧ regs.dll.toNat < 256
  access : regs.lcr &&& dwUartLcrDlabEn = 0

theorem nearest_sixteen :
    Nearest q f (16 * b) ↔ 16 * (b * q) ≤ f + 8 * b ∧ f ≤ 16 * (b * q) + 8 * b := by
  have h : q * (16 * b) = 16 * (b * q) := by rw [Nat.mul_comm, Nat.mul_assoc]
  rw [Nearest, h]
  omega

theorem nearest_least (h : f ≤ 24 * b) : ∃ q, Nearest q f (16 * b) ∧ 1 = max 1 q := by
  by_cases hlow : f ≤ 8 * b
  · exact ⟨0, nearest_sixteen.2 (by omega), rfl⟩
  · exact ⟨1, nearest_sixteen.2 (by omega), rfl⟩

theorem two_le_of_nearest (h : 24 * b < f) (hq : Nearest q f (16 * b)) : 2 ≤ q := by
  by_contra hlt
  have hle := Nat.mul_le_mul_left b (show q ≤ 1 by omega)
  have hn := nearest_sixteen.1 hq
  omega

theorem quotient_bounds (hc : 0 < b) (n : Nat) :
    160 * (b * (n / (160 * b))) ≤ n ∧ n < 160 * (b * (n / (160 * b))) + 160 * b := by
  have hlo := Nat.mul_div_le n (160 * b)
  have hhi := Nat.lt_mul_div_succ n (show 0 < 160 * b by omega)
  rw [Nat.mul_succ, Nat.mul_assoc] at hhi
  rw [Nat.mul_assoc] at hlo
  exact ⟨hlo, hhi⟩

theorem udiv_zero (h : b = 0) : udiv a b = none := if_pos h

theorem udiv_pos (h : b ≠ 0) : udiv a b = some (a / b) := if_neg h

theorem toNat_pos {z : UInt32} (h : z ≠ 0) : 0 < z.toNat :=
  Nat.pos_of_ne_zero fun h0 => h (UInt32.toNat_inj.1 h0)

theorem toNat_ten (f : UInt32) : (f * 10).toNat = 10 * f.toNat % 0x100000000 := by
  rw [UInt32.toNat_mul, Nat.mul_comm]
  rfl

theorem tenths_toNat (baud freq : UInt32) :
    ((freq * 10 / baud) >>> 4).toNat =
      10 * freq.toNat % 0x100000000 / (16 * baud.toNat) := by
  have hc : baud.toNat * 2 ^ 4 = 16 * baud.toNat := by omega
  rw [UInt32.toNat_shiftRight, UInt32.toNat_div, toNat_ten]
  show (10 * freq.toNat % 0x100000000 / baud.toNat) >>> 4 = _
  rw [Nat.shiftRight_eq_div_pow, Nat.div_div_eq_div_mul, hc]

theorem roundTenths_toNat (q : UInt32) : (roundTenths q).toNat = (q.toNat + 5) / 10 := by
  have hlt := q.toNat_lt
  have hmod : (q % 10).toNat = q.toNat % 10 := UInt32.toNat_mod q 10
  have hdiv : (q / 10).toNat = q.toNat / 10 := UInt32.toNat_div q 10
  have hle : q % 10 ≥ 5 ↔ 5 ≤ q.toNat % 10 := by
    rw [← hmod]
    exact UInt32.le_iff_toNat_le
  rw [roundTenths]
  split
  case isTrue h =>
    rw [hle] at h
    rw [UInt32.toNat_add, hdiv]
    show (q.toNat / 10 + 1) % 4294967296 = _
    omega
  case isFalse h =>
    rw [hle] at h
    rw [hdiv]
    omega

theorem dwUartDivisor_plain (baud freq : UInt32) (hr : ipId ≠ dwUartSupportRate)
    (hf : ipId ≠ dwUartSupportFractionalBaudRate) :
    ∃ divisor, dwUartDivisor ipId baud freq = some (divisor, none) ∧
      divisor.toNat =
        if baud = 0 then 1
        else max 1 ((10 * freq.toNat % 0x100000000 + 80 * baud.toNat) / (160 * baud.toNat)) := by
  by_cases hb : baud = 0
  · refine ⟨1, ?_, by rw [if_pos hb]; rfl⟩
    simp only [dwUartDivisor, hb, ne_eq, not_true_eq_false, if_false, if_neg hr, if_neg hf]
    rfl
  · have hpos := toNat_pos hb
    let q : UInt32 := (freq * 10 / baud) >>> 4
    refine ⟨if roundTenths q = 0 then 1 else roundTenths q, ?_, ?_⟩
    · simp only [dwUartDivisor, hb, ne_eq, not_false_eq_true, if_true, if_neg hr, if_neg hf,
        udiv_pos hb, Option.map_some, q]
    · have hround : (roundTenths q).toNat =
          (10 * freq.toNat % 0x100000000 + 80 * baud.toNat) / (160 * baud.toNat) := by
        have hsixteen : 0 < 16 * baud.toNat := by omega
        have h₁ : 5 * (16 * baud.toNat) = 80 * baud.toNat := by omega
        have h₂ : 16 * baud.toNat * 10 = 160 * baud.toNat := by omega
        rw [roundTenths_toNat, tenths_toNat, ← Nat.add_mul_div_right _ 5 hsixteen,
          Nat.div_div_eq_div_mul, h₁, h₂]
      rw [if_neg hb, ← hround]
      by_cases h0 : roundTenths q = 0
      · rw [if_pos h0, h0]
        rfl
      · have := toNat_pos h0
        rw [if_neg h0]
        omega

theorem rateProduct_toNat (hb : 0 < b.toNat) {d : UInt32}
    (hd : d.toNat = n % 0x100000000 / (160 * b.toNat)) :
    (b * d).toNat = b.toNat * d.toNat := by
  have hmod := Nat.mod_lt n (show 0 < 0x100000000 by decide)
  obtain ⟨hlo, -⟩ := quotient_bounds hb (n % 0x100000000)
  rw [← hd] at hlo
  have hlt : b.toNat * d.toNat < 2 ^ 32 := by omega
  rw [UInt32.toNat_mul, Nat.mod_eq_of_lt hlt]

theorem dwUartDivisor_rate (baud freq : UInt32) :
    dwUartDivisor dwUartSupportRate baud freq = none ∧
        (baud = 0 ∨ 10 * freq.toNat % 0x100000000 < 160 * baud.toNat) ∨
      ∃ divisor rate, dwUartDivisor dwUartSupportRate baud freq = some (divisor, rate) ∧
        divisor.toNat = 10 * freq.toNat % 0x100000000 / (160 * baud.toNat) ∧
        baud ≠ 0 ∧ 160 * baud.toNat ≤ 10 * freq.toNat % 0x100000000 := by
  by_cases hb : baud = 0
  · left
    refine ⟨?_, .inl hb⟩
    subst hb
    rfl
  · have hpos := toNat_pos hb
    let d : UInt32 := (freq * 10 / baud) >>> 4 / 10
    have hd : d.toNat = 10 * freq.toNat % 0x100000000 / (160 * baud.toNat) := by
      have hc : 16 * baud.toNat * 10 = 160 * baud.toNat := by omega
      rw [UInt32.toNat_div, tenths_toNat]
      show 10 * freq.toNat % 0x100000000 / (16 * baud.toNat) / 10 = _
      rw [Nat.div_div_eq_div_mul, hc]
    have hprod := rateProduct_toNat hpos hd
    have hstep : dwUartDivisor dwUartSupportRate baud freq =
        match udiv (freq * 10) (baud * d) with
        | none => none
        | some uartRate => some (d, some (roundTenths uartRate).toUInt8) := by
      simp only [dwUartDivisor, hb, ne_eq, not_false_eq_true, if_true, udiv_pos hb,
        Option.map_some, d]
    rw [hstep]
    by_cases h0 : d = 0
    · left
      have hzero : baud * d = 0 := by rw [h0, UInt32.mul_zero]
      rw [udiv_zero hzero]
      refine ⟨rfl, .inr ?_⟩
      rw [h0] at hd
      have hlt := (Nat.div_eq_zero_iff).1 hd.symm
      omega
    · right
      have hne : baud * d ≠ 0 := by
        intro hzero
        have hmul := Nat.mul_pos hpos (toNat_pos h0)
        rw [← hprod, hzero] at hmul
        exact Nat.lt_irrefl 0 hmul
      rw [udiv_pos hne]
      refine ⟨d, _, rfl, hd, hb, ?_⟩
      have hlt := toNat_pos h0
      rw [hd] at hlt
      exact (Nat.div_pos_iff.1 hlt).2

theorem dwUartDivisor_fractional (baud freq : UInt32) :
    let b := 16 * baud.toNat % 0x100000000
    dwUartDivisor dwUartSupportFractionalBaudRate baud freq = none ∧ b = 0 ∨
      ∃ divisor rate,
        dwUartDivisor dwUartSupportFractionalBaudRate baud freq = some (divisor, rate) ∧
          divisor.toNat = 10 * freq.toNat % 0x100000000 / (10 * b) ∧ b ≠ 0 := by
  intro b
  have hshift : (baud <<< 4).toNat = b := by
    rw [UInt32.toNat_shiftLeft]
    show baud.toNat <<< 4 % 2 ^ 32 = 16 * baud.toNat % 0x100000000
    rw [Nat.shiftLeft_eq, Nat.mul_comm]
  have hstep : dwUartDivisor dwUartSupportFractionalBaudRate baud freq =
      match udiv (freq * 10) (baud <<< 4) with
      | none => none
      | some divisor => some (divisor / 10, some (16 * (divisor % 10) / 10).toUInt8) := by
    by_cases hb : baud = 0
    · subst hb
      rfl
    · simp only [dwUartDivisor, hb, ne_eq, not_false_eq_true, if_true, udiv_pos hb, Option.map_some]
      rfl
  rw [hstep]
  by_cases h0 : baud <<< 4 = 0
  · rw [udiv_zero h0]
    refine .inl ⟨rfl, ?_⟩
    rw [← hshift, h0]
    rfl
  · rw [udiv_pos h0]
    refine .inr ⟨_, _, rfl, ?_, ?_⟩
    · rw [UInt32.toNat_div, UInt32.toNat_div, toNat_ten, hshift]
      show _ / b / 10 = _
      rw [Nat.div_div_eq_div_mul, Nat.mul_comm b 10]
    · rw [← hshift]
      exact Nat.ne_of_gt (toNat_pos h0)

/-- The rounded divisor, with its product cut to 32 bits, is right when nothing is cut, or when the
least divisor is the right one. -/
theorem plain_right_iff (hb : 0 < b) (hf : f < 0x100000000) :
    let d := max 1 ((10 * f % 0x100000000 + 80 * b) / (160 * b))
    (d < 65536 ∧ ∃ q, Nearest q f (16 * b) ∧ d = max 1 q) ↔
      f ≤ 24 * b ∨ (f ≤ 429496729 ∧ f < 1048568 * b) := by
  have hcut : 10 * f % 0x100000000 = 10 * f ∨
      (10 * f % 0x100000000 + 0x100000000 ≤ 10 * f ∧ 429496729 < f) := by omega
  have hmod := Nat.mod_lt (10 * f) (show 0 < 0x100000000 by decide)
  generalize 10 * f % 0x100000000 = n at *
  obtain ⟨hlo, hhi⟩ := quotient_bounds hb (n + 80 * b)
  generalize (n + 80 * b) / (160 * b) = d at *
  constructor
  · rintro ⟨hfit, q, hq, hd⟩
    by_cases hsmall : f ≤ 24 * b
    · exact .inl hsmall
    · have hle := two_le_of_nearest (Nat.lt_of_not_le hsmall) hq
      have hdq : d = q := by omega
      subst hdq
      have htwo := Nat.mul_le_mul_left b hle
      have hmax := Nat.mul_le_mul_left b (show d ≤ 65535 by omega)
      have hn := nearest_sixteen.1 hq
      omega
  · rintro (hsmall | ⟨hno, hfit⟩)
    · have hd : d ≤ 2 := by
        by_contra hlt
        have hle := Nat.mul_le_mul_left b (show 3 ≤ d by omega)
        omega
      refine ⟨by omega, ?_⟩
      by_cases htwo : d = 2
      · subst htwo
        exact ⟨2, nearest_sixteen.2 (by omega), rfl⟩
      · have hone : max 1 d = 1 := by omega
        rw [hone]
        exact nearest_least hsmall
    · have hd : d < 65536 := by
        by_contra hlt
        have hle := Nat.mul_le_mul_left b (show 65536 ≤ d by omega)
        omega
      exact ⟨by omega, d, nearest_sixteen.2 (by omega), rfl⟩

theorem rate_nearest_iff (hb : 0 < b) (hf : f < 0x100000000)
    (hlow : 160 * b ≤ 10 * f % 0x100000000) :
    let d := 10 * f % 0x100000000 / (160 * b)
    (d < 65536 ∧ ∃ q, Nearest q f (16 * b) ∧ d = max 1 q) ↔
      f ≤ 429496729 ∧ 16 * b ≤ f ∧ f < 1048576 * b ∧ f % (16 * b) ≤ 8 * b := by
  have hcut : 10 * f % 0x100000000 = 10 * f ∨
      (10 * f % 0x100000000 + 0x100000000 ≤ 10 * f ∧ 429496729 < f) := by omega
  have hmod := Nat.mod_lt (10 * f) (show 0 < 0x100000000 by decide)
  generalize 10 * f % 0x100000000 = n at *
  obtain ⟨hlo, hhi⟩ := quotient_bounds hb n
  generalize n / (160 * b) = d at *
  have hpos : 1 ≤ d := by
    by_contra hlt
    have hle := Nat.mul_le_mul_left b (show d ≤ 0 by omega)
    omega
  have hmodq : f / (16 * b) = d → f % (16 * b) = f - 16 * (b * d) := by
    intro h
    have hdiv := Nat.div_add_mod f (16 * b)
    rw [h, Nat.mul_assoc] at hdiv
    omega
  have hquot : n = 10 * f → f / (16 * b) = d := by
    intro h
    apply Nat.div_eq_of_lt_le
    · rw [Nat.mul_comm, Nat.mul_assoc]
      omega
    · rw [Nat.mul_comm, Nat.mul_succ, Nat.mul_assoc]
      omega
  constructor
  · rintro ⟨hfit, q, hq, hd⟩
    have hn := nearest_sixteen.1 hq
    have hdq : d = q := by
      rcases Nat.eq_zero_or_pos q with h0 | hq
      · subst h0
        omega
      · omega
    subst hdq
    have hmax := Nat.mul_le_mul_left b (show d ≤ 65535 by omega)
    have hno : n = 10 * f := by omega
    rw [hmodq (hquot hno)]
    omega
  · rintro ⟨hno, hone, hfit, hrem⟩
    have hn : n = 10 * f := by omega
    rw [hmodq (hquot hn)] at hrem
    have hd : d < 65536 := by
      by_contra hlt
      have hle := Nat.mul_le_mul_left b (show 65536 ≤ d by omega)
      omega
    exact ⟨hd, d, nearest_sixteen.2 (by omega), by omega⟩

theorem DwUartRegs.latch_access (regs : DwUartRegs) (divisor : UInt32) :
    (regs.latch divisor).lcr &&& dwUartLcrDlabEn = 0 := by
  show (regs.lcr ||| dwUartLcrDlabEn) &&& ~~~dwUartLcrDlabEn &&& dwUartLcrDlabEn = 0
  rw [UInt32.and_assoc]
  have h : ~~~dwUartLcrDlabEn &&& dwUartLcrDlabEn = 0 := by decide
  rw [h, UInt32.and_zero]

theorem DwUartRegs.latch_bytes (regs : DwUartRegs) (divisor : UInt32) :
    (regs.latch divisor).dlh.toNat = divisor.toNat / 256 % 256 ∧
      (regs.latch divisor).dll.toNat = divisor.toNat % 256 := by
  have hand : ∀ z : UInt32, (z &&& 0xFF).toNat = z.toNat % 256 := by
    intro z
    rw [UInt32.toNat_and]
    exact Nat.and_two_pow_sub_one_eq_mod z.toNat 8
  refine ⟨?_, hand divisor⟩
  show ((divisor >>> 8) &&& 0xFF).toNat = _
  rw [hand, UInt32.toNat_shiftRight]
  show divisor.toNat >>> 8 % 256 = _
  rw [Nat.shiftRight_eq_div_pow]

/-- The inputs on which `dw_uart_config_baudrate` computes a right divisor. -/
def DivisorRight (rateCounts : Bool) (ipId baud uartFreq : UInt32) : Prop :=
  let b := baud.toNat
  let f := uartFreq.toNat
  let tenFold := 10 * f % 0x100000000
  if ipId = dwUartSupportRate then
    if rateCounts then 0 < b ∧ 160 * b ≤ tenFold ∧ tenFold < 10485760 * b
    else 0 < b ∧ f ≤ 429496729 ∧ 16 * b ≤ f ∧ f < 1048576 * b ∧ f % (16 * b) ≤ 8 * b
  else if ipId = dwUartSupportFractionalBaudRate then
    let b16 := 16 * b % 0x100000000
    b16 ≠ 0 ∧ 10 * b16 ≤ tenFold ∧ tenFold < 655360 * b16
  else b = 0 ∨ f ≤ 24 * b ∨ (f ≤ 429496729 ∧ f < 1048568 * b)

variable {rateCounts : Bool} {ipId baud uartFreq : UInt32}

theorem right_none_iff (h : dwUartDivisor ipId baud uartFreq = none) {P : Prop} (hp : ¬ P) :
    (∃ divisor rate, dwUartDivisor ipId baud uartFreq = some (divisor, rate) ∧
      RightDivisor rateCounts ipId baud uartFreq divisor) ↔ P := by
  constructor
  · rintro ⟨divisor, rate, hsome, -⟩
    rw [h] at hsome
    cases hsome
  · exact fun hc => (hp hc).elim

theorem right_some_iff (h : dwUartDivisor ipId baud uartFreq = some (d, rate)) :
    (∃ divisor rate, dwUartDivisor ipId baud uartFreq = some (divisor, rate) ∧
      RightDivisor rateCounts ipId baud uartFreq divisor) ↔
    RightDivisor rateCounts ipId baud uartFreq d := by
  constructor
  · rintro ⟨divisor, rate', hsome, hr⟩
    rw [h] at hsome
    cases hsome
    exact hr
  · exact fun hr => ⟨d, rate, h, hr⟩

theorem fractionalIp_rate : FractionalIp rateCounts dwUartSupportRate ↔ rateCounts = true := by
  have hne : dwUartSupportRate ≠ dwUartSupportFractionalBaudRate := by decide
  constructor
  · rintro (h | h)
    · exact (hne h).elim
    · exact h.2
  · exact fun h => .inr ⟨rfl, h⟩

theorem dwUartDivisor_rate_right (rateCounts : Bool) (baud uartFreq : UInt32) :
    (∃ divisor rate, dwUartDivisor dwUartSupportRate baud uartFreq = some (divisor, rate) ∧
      RightDivisor rateCounts dwUartSupportRate baud uartFreq divisor) ↔
    DivisorRight rateCounts dwUartSupportRate baud uartFreq := by
  rw [DivisorRight]
  dsimp only
  rw [if_pos rfl]
  rcases dwUartDivisor_rate baud uartFreq with ⟨hnone, hbad⟩ | ⟨d, rate, hsome, hd, hb, hlow⟩
  · have hbad' : baud.toNat = 0 ∨ 10 * uartFreq.toNat % 0x100000000 < 160 * baud.toNat :=
      hbad.imp_left fun h => congrArg UInt32.toNat h
    apply right_none_iff hnone
    cases rateCounts with
    | true =>
      rw [if_pos rfl]
      omega
    | false =>
      rw [if_neg Bool.false_ne_true]
      rintro ⟨hpos, hno, hone, -⟩
      rw [Nat.mod_eq_of_lt (by omega)] at hbad'
      omega
  · rw [right_some_iff hsome]
    have hpos := toNat_pos hb
    have hdpos : 0 < d.toNat := by
      rw [hd]
      exact Nat.div_pos hlow (by omega)
    have hne : d ≠ 0 := by
      rintro rfl
      exact Nat.lt_irrefl 0 hdpos
    have hfit : d.toNat < 65536 ↔ 10 * uartFreq.toNat % 0x100000000 < 10485760 * baud.toNat := by
      rw [hd, Nat.div_lt_iff_lt_mul (by omega)]
      omega
    cases rateCounts with
    | true =>
      rw [if_pos rfl]
      constructor
      · exact fun h => ⟨hpos, hlow, hfit.1 h.fits⟩
      · exact fun h => ⟨hne, hfit.2 h.2.2, fun _ hn => (hn (fractionalIp_rate.2 rfl)).elim⟩
    | false =>
      rw [if_neg Bool.false_ne_true]
      have hiff := rate_nearest_iff hpos uartFreq.toNat_lt hlow
      rw [← hd] at hiff
      have hplain : ¬ FractionalIp false dwUartSupportRate := fun h => nomatch fractionalIp_rate.1 h
      constructor
      · exact fun h => ⟨hpos, hiff.1 ⟨h.fits, h.nearest hb hplain⟩⟩
      · rintro ⟨-, h⟩
        obtain ⟨hf, hq⟩ := hiff.2 h
        exact ⟨hne, hf, fun _ _ => hq⟩

theorem dwUartDivisor_fractional_right (rateCounts : Bool) (baud uartFreq : UInt32) :
    (∃ divisor rate,
      dwUartDivisor dwUartSupportFractionalBaudRate baud uartFreq = some (divisor, rate) ∧
        RightDivisor rateCounts dwUartSupportFractionalBaudRate baud uartFreq divisor) ↔
    DivisorRight rateCounts dwUartSupportFractionalBaudRate baud uartFreq := by
  rw [DivisorRight]
  dsimp only
  rw [if_neg (by decide), if_pos rfl]
  rcases dwUartDivisor_fractional baud uartFreq with ⟨hnone, hb⟩ | ⟨d, rate, hsome, hd, hb⟩
  · exact right_none_iff hnone fun h => h.1 hb
  · rw [right_some_iff hsome]
    have hpos : 0 < 10 * (16 * baud.toNat % 0x100000000) := by omega
    have hne : d ≠ 0 ↔
        10 * (16 * baud.toNat % 0x100000000) ≤ 10 * uartFreq.toNat % 0x100000000 := by
      rw [ne_eq, ← UInt32.toNat_inj, UInt32.toNat_zero, hd, Nat.div_eq_zero_iff_lt hpos,
        Nat.not_lt]
    have hfit : d.toNat < 65536 ↔
        10 * uartFreq.toNat % 0x100000000 < 655360 * (16 * baud.toNat % 0x100000000) := by
      rw [hd, Nat.div_lt_iff_lt_mul hpos]
      omega
    constructor
    · exact fun h => ⟨hb, hne.1 h.pos, hfit.1 h.fits⟩
    · exact fun h => ⟨hne.2 h.2.1, hfit.2 h.2.2, fun _ hn => (hn (.inl rfl)).elim⟩

theorem dwUartDivisor_plain_right (rateCounts : Bool) (hr : ipId ≠ dwUartSupportRate)
    (hf : ipId ≠ dwUartSupportFractionalBaudRate) (baud uartFreq : UInt32) :
    (∃ divisor rate, dwUartDivisor ipId baud uartFreq = some (divisor, rate) ∧
      RightDivisor rateCounts ipId baud uartFreq divisor) ↔
    DivisorRight rateCounts ipId baud uartFreq := by
  rw [DivisorRight]
  dsimp only
  rw [if_neg hr, if_neg hf]
  obtain ⟨d, hsome, hd⟩ := dwUartDivisor_plain baud uartFreq hr hf
  rw [right_some_iff hsome]
  have hplain : ¬ FractionalIp rateCounts ipId := fun h => h.elim hf fun h => hr h.1
  have hne : d ≠ 0 := by
    rintro rfl
    rw [UInt32.toNat_zero] at hd
    split at hd
    · cases hd
    · omega
  by_cases hb : baud = 0
  · rw [if_pos hb] at hd
    have h0 : baud.toNat = 0 := congrArg UInt32.toNat hb
    constructor
    · exact fun _ => .inl h0
    · exact fun _ => ⟨hne, by omega, fun h => (h hb).elim⟩
  · rw [if_neg hb] at hd
    have hiff := plain_right_iff (toNat_pos hb) uartFreq.toNat_lt
    rw [← hd] at hiff
    constructor
    · exact fun h => .inr (hiff.1 ⟨h.fits, h.nearest hb hplain⟩)
    · intro h
      obtain ⟨hfit, hq⟩ := hiff.2 (h.resolve_left (Nat.ne_of_gt (toNat_pos hb)))
      exact ⟨hne, hfit, fun _ _ => hq⟩

theorem dwUartDivisor_right_iff (rateCounts : Bool) (ipId baud uartFreq : UInt32) :
    (∃ divisor rate, dwUartDivisor ipId baud uartFreq = some (divisor, rate) ∧
      RightDivisor rateCounts ipId baud uartFreq divisor) ↔
    DivisorRight rateCounts ipId baud uartFreq := by
  by_cases hr : ipId = dwUartSupportRate
  · rw [hr]
    exact dwUartDivisor_rate_right rateCounts baud uartFreq
  · by_cases hf : ipId = dwUartSupportFractionalBaudRate
    · rw [hf]
      exact dwUartDivisor_fractional_right rateCounts baud uartFreq
    · exact dwUartDivisor_plain_right rateCounts hr hf baud uartFreq

theorem RightDivisor.latch (h : RightDivisor rateCounts ipId baud uartFreq divisor)
    (regs : DwUartRegs) :
    BaudRateSet rateCounts ipId baud uartFreq divisor (regs.latch divisor) where
  toRightDivisor := h
  latches := by
    obtain ⟨hh, hl⟩ := regs.latch_bytes divisor
    have hfit := h.fits
    rw [hh, hl]
    omega
  access := regs.latch_access divisor

/-- What is asked of a call: no division by zero, and where it returns 0 the right divisor in the
latches, which are closed again. -/
def ConfiguresRight (rateCounts : Bool) (w : UartWait) (regs : DwUartRegs)
    (baud uartFreq : UInt32) :
    Prop :=
  ∃ ret regs', dwUartConfigBaudrate w regs baud uartFreq = some (ret, regs') ∧
    (ret = 0 → ∃ divisor rate, dwUartDivisor regs.ipId baud uartFreq = some (divisor, rate) ∧
      BaudRateSet rateCounts regs.ipId baud uartFreq divisor regs')

/-- A call is right exactly when the UART stays busy, or the divisor of its variant is right. -/
theorem dwUartConfigBaudrate_right_iff (rateCounts : Bool) (w : UartWait) (regs : DwUartRegs)
    (baud uartFreq : UInt32) :
    ConfiguresRight rateCounts w regs baud uartFreq ↔
      dwUartWaitTimeout w ≠ 0 ∨ DivisorRight rateCounts regs.ipId baud uartFreq := by
  rw [ConfiguresRight, dwUartConfigBaudrate]
  dsimp only
  by_cases hidle : dwUartWaitTimeout w = 0
  · rw [if_pos hidle, ← dwUartDivisor_right_iff]
    constructor
    · rintro ⟨ret, regs', hcall, hset⟩
      right
      cases hd : dwUartDivisor regs.ipId baud uartFreq with
      | none =>
        rw [hd] at hcall
        cases hcall
      | some d =>
        rw [hd] at hcall
        cases hcall
        obtain ⟨divisor, rate, hdiv, hright⟩ := hset hidle
        exact ⟨divisor, rate, hd.symm.trans hdiv, hright.toRightDivisor⟩
    · rintro (hbusy | ⟨divisor, rate, hdiv, hright⟩)
      · exact (hbusy hidle).elim
      · rw [hdiv]
        exact ⟨_, _, rfl, fun _ => ⟨divisor, rate, rfl, hright.latch _⟩⟩
  · rw [if_neg hidle]
    constructor
    · exact fun _ => .inl hidle
    · exact fun _ => ⟨_, _, rfl, fun h => (hidle h).elim⟩

/-- The variant with a rate register divides by zero when the rate is 0. -/
theorem dwUartConfigBaudrate_zero_baud :
    let w : UartWait := ⟨fun _ => 0, fun _ => 0, fun _ => 0⟩
    let regs : DwUartRegs := ⟨3, 0, 0, 0, dwUartSupportRate⟩
    ¬ ConfiguresRight true w regs 0 24000000 ∧ ¬ ConfiguresRight false w regs 0 24000000 := by
  intro w regs
  have hidle : dwUartWaitTimeout w = 0 :=
    dwUartWaitTimeout_idle (by decide) (by decide) (by decide)
  have hnone : dwUartConfigBaudrate w regs 0 24000000 = none := by
    rw [dwUartConfigBaudrate, if_pos hidle]
    rfl
  constructor
  · rintro ⟨ret, regs', h, -⟩
    rw [hnone] at h
    cases h
  · rintro ⟨ret, regs', h, -⟩
    rw [hnone] at h
    cases h

end D1Flash
