import Mathlib.Data.List.Range

namespace D1Flash
set_option autoImplicit true

/-- `struct rtc_time`, less the fields the driver leaves alone. -/
structure RtcTime where
  tmSec : Int
  tmMin : Int
  tmHour : Int
  tmMday : Int
  tmMon : Int
  tmYear : Int
  deriving DecidableEq

/-- `data_year_param`. -/
abbrev rtcMinYear : Nat := 1970
abbrev rtcMaxYear : Nat := 2097

def sunxiMaskDh : BitVec 32 := 0x1f
def sunxiMaskSm : BitVec 32 := 0x3f

def sunxiGet (x mask : BitVec 32) (shift : Nat) : BitVec 32 := (x &&& mask <<< shift) >>> shift

def sunxiSet (x mask : BitVec 32) (shift : Nat) : BitVec 32 := (x &&& mask) <<< shift

def sunxiTimeGetSecValue (x : BitVec 32) : BitVec 32 := sunxiGet x sunxiMaskSm 0
def sunxiTimeGetMinValue (x : BitVec 32) : BitVec 32 := sunxiGet x sunxiMaskSm 8
def sunxiTimeGetHourValue (x : BitVec 32) : BitVec 32 := sunxiGet x sunxiMaskDh 16

def sunxiTimeSetSecValue (x : BitVec 32) : BitVec 32 := sunxiTimeGetSecValue x
def sunxiTimeSetMinValue (x : BitVec 32) : BitVec 32 := sunxiSet x sunxiMaskSm 8
def sunxiTimeSetHourValue (x : BitVec 32) : BitVec 32 := sunxiSet x sunxiMaskDh 16

def sunxiLoscCtrlRtcHmsAcc : BitVec 32 := 1 <<< 8
def sunxiLoscCtrlRtcYmdAcc : BitVec 32 := 1 <<< 7

def isLeapYear (year : Nat) : Bool := (year % 4 = 0 ∧ year % 100 ≠ 0) ∨ year % 400 = 0

/-- `month_days`: its two rows of 13, as they lie in memory. -/
def monthDays : List Int :=
  [0, 31, 28, 31, 30, 31, 30, 31, 31, 30, 31, 30, 31,
   0, 31, 29, 31, 30, 31, 30, 31, 31, 30, 31, 30, 31]

/-- The value of `month_days[leap][i]`. An index past its row goes on in memory; past the array
the access is undefined. -/
def monthDaysAt (leap i : Nat) : Option Int := monthDays[13 * leap + i]?

/-- An access `month_days[leap][i]` that stays inside the table. -/
def InTable (a : Nat × Nat) : Prop := a.1 < 2 ∧ a.2 < 13

/-- The controller and the static variables of `hal_rtc_day_to_ymd`. -/
structure RtcDev where
  ymd : BitVec 32
  hms : BitVec 32
  lastDate : BitVec 32
  lastYear : Int
  lastMon : Int
  lastMday : Int

/-- A date the driver decoded, and the accesses of `month_days` made for it. -/
structure RtcDate where
  year : Int
  mon : Int
  mday : Int
  reads : List (Nat × Nat)

/-- The loop over the years. `turns` bounds it. -/
def yearLoop : Nat → Nat → Int → Option (Nat × Int)
  | 0, _, _ => none
  | turns + 1, year, date =>
    if isLeapYear year then
      if date > 366 then yearLoop turns (year + 1) (date - 366) else some (year, date)
    else
      if date > 365 then yearLoop turns (year + 1) (date - 365) else some (year, date)

/-- The loop over the months. It cannot take more turns than the array is long. -/
def monthLoop (leap : Nat) : Nat → Nat → Int → Option (Nat × Int)
  | 0, _, _ => none
  | turns + 1, i, date =>
    match monthDaysAt leap i with
    | none => none
    | some days => if date > days then monthLoop leap turns (i + 1) (date - days)
        else some (i, date)

/-- `hal_rtc_day_to_ymd`. It is `none` where the code reads past `month_days` or does not end. -/
def halRtcDayToYmd (minYear : Nat) (udate : BitVec 32) (s : RtcDev) : Option (RtcDate × RtcDev) :=
  if udate = s.lastDate then
    some ({ year := s.lastYear, mon := s.lastMon, mday := s.lastMday, reads := [] }, s)
  else
    let date := udate.toInt
    match yearLoop (date.toNat / 365 + 1) minYear date with
    | none => none
    | some (year, date) =>
      let tmYear : Int := year - 1900
      -- the year counted from 1900, not the year itself
      let leap := (isLeapYear (BitVec.ofInt 32 tmYear).toNat).toNat
      match monthLoop leap monthDays.length 1 date with
      | none => none
      | some (i, date) =>
        some ({ year := tmYear, mon := i, mday := date,
                reads := (List.range' 1 i).map fun j => (leap, j) },
          { s with lastYear := tmYear, lastMon := i, lastMday := date })

/-- What one turn of the loop in `hal_rtc_gettime` reads: both registers, and both again. -/
structure RtcPass where
  date : BitVec 32
  time : BitVec 32
  dateAgain : BitVec 32
  timeAgain : BitVec 32

/-- The turns up to the first in which nothing changes. -/
def readStable : List RtcPass → Option (BitVec 32 × BitVec 32)
  | [] => none
  | p :: ps =>
    if p.date ≠ p.dateAgain ∨ p.time ≠ p.timeAgain then readStable ps else some (p.date, p.time)

/-- What a call returns: its value, the time it leaves, the accesses of `month_days` it made,
and the device. -/
structure RtcResult where
  ret : Int
  tm : RtcTime
  reads : List (Nat × Nat)
  dev : RtcDev

def halRtcGettime (passes : List RtcPass) (s : RtcDev) : Option RtcResult :=
  match readStable passes with
  | none => none
  | some (date, time) =>
    match halRtcDayToYmd rtcMinYear date s with
    | none => none
    | some (d, s) =>
      some {
        ret := 0
        tm := {
          tmSec := (sunxiTimeGetSecValue time).toInt
          tmMin := (sunxiTimeGetMinValue time).toInt
          tmHour := (sunxiTimeGetHourValue time).toInt
          tmMday := d.mday
          tmMon := d.mon - 1
          tmYear := d.year }
        reads := d.reads
        dev := s }

/-- `hal_rtc_wait`, of what it reads from `SUNXI_LOSC_CTRL`. -/
def halRtcWait (reg mask : BitVec 32) : Int := if reg &&& mask ≠ mask then 0 else -1

/-- The loop that counts the days of the months before. -/
def addMonths (leap : Nat) (date : BitVec 32) : List Nat → Option (BitVec 32)
  | [] => some date
  | i :: is =>
    match monthDaysAt leap i with
    | none => none
    | some days => addMonths leap (date + BitVec.ofInt 32 days) is

/-- The loop that counts the days of the years before, downwards. -/
def addYears (date : BitVec 32) : List Nat → BitVec 32
  | [] => date
  | i :: is => addYears (if isLeapYear i then date + 366 else date + 365) is

/-- The words `hal_rtc_settime` writes, the waits between them reading `losc`. -/
def setRegs (time date : BitVec 32) (losc : Nat → BitVec 32) (s : RtcDev) : Int × RtcDev :=
  if halRtcWait (losc 0) sunxiLoscCtrlRtcHmsAcc ≠ 0 then (-1, s)
  else
    let s := { s with hms := 0 }
    if halRtcWait (losc 1) sunxiLoscCtrlRtcHmsAcc ≠ 0 then (-1, s)
    else
      let s := { s with hms := time }
      if halRtcWait (losc 2) sunxiLoscCtrlRtcHmsAcc ≠ 0 then (-1, s)
      else if halRtcWait (losc 3) sunxiLoscCtrlRtcYmdAcc ≠ 0 then (-1, s)
      else
        let s := { s with ymd := date }
        if halRtcWait (losc 4) sunxiLoscCtrlRtcYmdAcc ≠ 0 then (-1, s) else (0, s)

def halRtcSettime (tm : RtcTime) (losc : Nat → BitVec 32) (s : RtcDev) : Option RtcResult :=
  let year := tm.tmYear + 1900
  -- an `int` compared with an `unsigned int`
  let uyear := (BitVec.ofInt 32 year).toNat
  if uyear < rtcMinYear ∨ uyear > rtcMaxYear then
    some { ret := -1, tm := tm, reads := [], dev := s }
  else
    let tmMon := tm.tmMon + 1
    let leap := (isLeapYear uyear).toNat
    let months := List.range' 1 (tmMon - 1).toNat
    match addMonths leap (BitVec.ofInt 32 tm.tmMday) months with
    | none => none
    | some date =>
      let date := addYears date (List.range' rtcMinYear (uyear - rtcMinYear)).reverse
      let time := sunxiTimeSetSecValue (BitVec.ofInt 32 tm.tmSec) |||
        sunxiTimeSetMinValue (BitVec.ofInt 32 tm.tmMin) |||
        sunxiTimeSetHourValue (BitVec.ofInt 32 tm.tmHour)
      let r := setRegs time date losc s
      some { ret := r.1, tm := { tm with tmMon := tmMon }, reads := months.map fun i => (leap, i),
             dev := r.2 }

end D1Flash
