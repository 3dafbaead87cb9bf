import D1Flash.Rtc.RtcLib

namespace D1Flash
open Bins
set_option autoImplicit true

def secInDay : Int := 86400

/-- The alarm registers, by their offset. Two names of the map are one register each. -/
def sunxiAlrmDay : Nat := 0x20
def sunxiAlrmCounter : Nat := 0x20
def sunxiAlrmCurrent : Nat := 0x24
def sunxiAlrmHms : Nat := 0x24
def sunxiAlrmEn : Nat := 0x28
def sunxiAlrmIrqEn : Nat := 0x2c
def sunxiAlrmIrqSta : Nat := 0x30

def sunxiAlrmEnCntEn : BitVec 32 := 1
def sunxiAlrmIrqEnCntIrqEn : BitVec 32 := 1
def sunxiAlrmIrqStaCntIrqPend : BitVec 32 := 1

def sunxiAlrmGetSecValue (x : BitVec 32) : BitVec 32 := sunxiGet x sunxiMaskSm 0

def sunxiAlrmSetSecValue (x : BitVec 32) : BitVec 32 := sunxiAlrmGetSecValue x
def sunxiAlrmSetMinValue (x : BitVec 32) : BitVec 32 := sunxiSet x sunxiMaskSm 8
def sunxiAlrmSetHourValue (x : BitVec 32) : BitVec 32 := sunxiSet x sunxiMaskDh 16

/-- The clock, the alarm registers, and the words written to them, the last one first. -/
structure RtcSys where
  dev : RtcDev
  regs : Nat → BitVec 32
  writes : List (Nat × BitVec 32)

namespace RtcSys

def halReadl (s : RtcSys) (off : Nat) : BitVec 32 := s.regs off

def halWritel (s : RtcSys) (v : BitVec 32) (off : Nat) : RtcSys :=
  { s with regs := Function.update s.regs off v, writes := (off, v) :: s.writes }

theorem halWritel_self (s : RtcSys) (v : BitVec 32) (off : Nat) :
    (s.halWritel v off).regs off = v :=
  Function.update_self ..

theorem halWritel_of_ne (s : RtcSys) (v : BitVec 32) {off off' : Nat} (h : off' ≠ off) :
    (s.halWritel v off).regs off' = s.regs off' := Function.update_of_ne h ..

end RtcSys

/-- `struct rtc_wkalrm`, less the field the driver leaves alone. -/
structure RtcWkalrm where
  enabled : BitVec 8
  time : RtcTime
  deriving DecidableEq

/-- What a call on the alarm returns, and what it leaves. -/
structure AlarmResult where
  ret : Int
  wkalrm : RtcWkalrm
  sys : RtcSys

def halRtcSetaie (enable : Bool) (s : RtcSys) : RtcSys :=
  if enable then
    let alrmVal := s.halReadl sunxiAlrmEn ||| sunxiAlrmEnCntEn
    let alrmIrqVal := s.halReadl sunxiAlrmIrqEn ||| sunxiAlrmIrqEnCntIrqEn
    (s.halWritel alrmVal sunxiAlrmEn).halWritel alrmIrqVal sunxiAlrmIrqEn
  else
    let s := s.halWritel sunxiAlrmIrqStaCntIrqPend sunxiAlrmIrqSta
    (s.halWritel 0 sunxiAlrmEn).halWritel 0 sunxiAlrmIrqEn

/-- The tail of `hal_rtc_setalarm`: what it writes for an alarm that it accepts. -/
def programAlarm (timeGapDay : BitVec 64) (w : RtcWkalrm) (s : RtcSys) : RtcSys :=
  let s := halRtcSetaie false s
  let s := s.halWritel 0 sunxiAlrmDay
  let s := s.halWritel 0 sunxiAlrmHms
  let s := s.halWritel ((timeGapDay + s.dev.ymd.setWidth 64).setWidth 32) sunxiAlrmDay
  let alrm := sunxiAlrmSetSecValue (.ofInt 32 w.time.tmSec) |||
    sunxiAlrmSetMinValue (.ofInt 32 w.time.tmMin) |||
    sunxiAlrmSetHourValue (.ofInt 32 w.time.tmHour)
  let s := s.halWritel alrm sunxiAlrmHms
  let s := s.halWritel 0 sunxiAlrmIrqEn
  let s := s.halWritel sunxiAlrmIrqEnCntIrqEn sunxiAlrmIrqEn
  halRtcSetaie (w.enabled ≠ 0) s

def halRtcSetalarm (passes : List RtcPass) (w : RtcWkalrm) (s : RtcSys) : Option AlarmResult :=
  match halRtcGettime passes s.dev with
  | none => none
  | some q =>
    let s := { s with dev := q.dev }
    if q.ret < 0 then some { ret := -1, wkalrm := w, sys := s }
    else
      let diff := rtcTmSub w.time q.tm
      if diff ≤ 0 then some { ret := -1, wkalrm := w, sys := s }
      else if diff > 255 * secInDay then some { ret := -1, wkalrm := w, sys := s }
      else
        -- the difference of two days of a month, as an `unsigned long`
        let timeGapDay := BitVec.ofInt 64 (w.time.tmMday - q.tm.tmMday)
        some { ret := 0, wkalrm := w, sys := programAlarm timeGapDay w s }

/-- What the getter leaves for an alarm that is disabled. -/
def disabledTime : RtcTime :=
  { tmSec := -1, tmMin := -1, tmHour := -1, tmMday := -1, tmMon := -1, tmYear := -1 }

def halRtcGetalarm (passes : List RtcPass) (w : RtcWkalrm) (s : RtcSys) : Option AlarmResult :=
  let alarmCnt := s.halReadl sunxiAlrmCounter
  let alarmCur := s.halReadl sunxiAlrmCurrent
  if alarmCur > alarmCnt then
    some { ret := 0, wkalrm := { enabled := 0, time := disabledTime }, sys := s }
  else
    match halRtcGettime passes s.dev with
    | none => none
    | some q =>
      let s := { s with dev := q.dev }
      if q.ret ≠ 0 then some { ret := -1, wkalrm := { w with time := q.tm }, sys := s }
      else
        let alarmSeconds := BitVec.ofInt 64 (rtcTmToTime64 q.tm) + (alarmCnt - alarmCur).setWidth 64
        let time := rtcTime64ToTm alarmSeconds.toInt
        let alrmEn := s.halReadl sunxiAlrmIrqEn
        let enabled := if alrmEn &&& sunxiAlrmEnCntEn ≠ 0 then 1 else w.enabled
        some { ret := 0, wkalrm := { enabled, time }, sys := s }

theorem gettime_frame (h : halRtcGettime passes d = some q) :
    q.ret = 0 ∧ q.dev.ymd = d.ymd ∧ q.dev.hms = d.hms := by
  unfold halRtcGettime at h
  split at h
  · cases h
  · split at h
    · cases h
    · next hd =>
      cases h
      unfold halRtcDayToYmd at hd
      split at hd
      · cases hd
        exact ⟨rfl, rfl, rfl⟩
      · dsimp only at hd
        split at hd
        · cases hd
        · split at hd
          · cases hd
          · cases hd
            exact ⟨rfl, rfl, rfl⟩

def alarmDay (ymd : BitVec 32) (alarm now : RtcTime) : BitVec 32 :=
  .ofInt 32 (alarm.tmMday - now.tmMday) + ymd

theorem setaie_regs (enable : Bool) (s : RtcSys) (h : off = sunxiAlrmDay ∨ off = sunxiAlrmHms) :
    (halRtcSetaie enable s).regs off = s.regs off := by
  have hne : off ≠ sunxiAlrmEn ∧ off ≠ sunxiAlrmIrqEn ∧ off ≠ sunxiAlrmIrqSta := by
    rcases h with rfl | rfl <;> decide
  obtain ⟨hen, hirq, hsta⟩ := hne
  cases enable with
  | true =>
    rw [halRtcSetaie, if_pos rfl]
    dsimp only
    rw [RtcSys.halWritel_of_ne _ _ hirq, RtcSys.halWritel_of_ne _ _ hen]
  | false =>
    rw [halRtcSetaie, if_neg Bool.false_ne_true]
    dsimp only
    rw [RtcSys.halWritel_of_ne _ _ hirq, RtcSys.halWritel_of_ne _ _ hen,
      RtcSys.halWritel_of_ne _ _ hsta]

theorem setaie_dev (enable : Bool) (s : RtcSys) : (halRtcSetaie enable s).dev = s.dev := by
  cases enable with
  | true => rfl
  | false => rfl

theorem programAlarm_regs (w : RtcWkalrm) (now : RtcTime) (s : RtcSys) :
    let t := programAlarm (.ofInt 64 (w.time.tmMday - now.tmMday)) w s
    t.regs sunxiAlrmDay = alarmDay s.dev.ymd w.time now ∧ t.regs sunxiAlrmHms = w.time.word ∧
      (w.enabled ≠ 0 → t.regs sunxiAlrmIrqEn &&& sunxiAlrmEnCntEn ≠ 0) ∧ t.dev = s.dev := by
  have hgap : (BitVec.ofInt 64 (w.time.tmMday - now.tmMday) + s.dev.ymd.setWidth 64).setWidth 32 =
      alarmDay s.dev.ymd w.time now := by
    rw [BitVec.setWidth_add _ _ (by decide), alarmDay]
    congr 1
    · apply BitVec.eq_of_toNat_eq
      simp only [BitVec.toNat_setWidth, BitVec.toNat_ofInt]
      omega
    · exact BitVec.setWidth_setWidth_of_le _ (by decide)
  have hday : sunxiAlrmDay ≠ sunxiAlrmIrqEn ∧ sunxiAlrmDay ≠ sunxiAlrmHms := by decide
  have hhms : sunxiAlrmHms ≠ sunxiAlrmIrqEn := by decide
  dsimp only
  unfold programAlarm
  dsimp only
  refine ⟨?_, ?_, ?_, ?_⟩
  · rw [setaie_regs _ _ (.inl rfl), RtcSys.halWritel_of_ne _ _ hday.1,
      RtcSys.halWritel_of_ne _ _ hday.1, RtcSys.halWritel_of_ne _ _ hday.2, RtcSys.halWritel_self]
    exact hgap
  · rw [setaie_regs _ _ (.inr rfl), RtcSys.halWritel_of_ne _ _ hhms,
      RtcSys.halWritel_of_ne _ _ hhms, RtcSys.halWritel_self]
    rfl
  · intro hen
    have htrue : decide (w.enabled ≠ 0) = true := decide_eq_true hen
    rw [htrue, halRtcSetaie, if_pos rfl]
    dsimp only
    rw [RtcSys.halWritel_self, RtcSys.halReadl, RtcSys.halWritel_self]
    decide
  · apply (setaie_dev _ _).trans
    exact setaie_dev false s

theorem setalarm_eq (hq : halRtcGettime passes s.dev = some q) (w : RtcWkalrm) :
    halRtcSetalarm passes w s = some (
      if 0 < rtcTmSub w.time q.tm ∧ rtcTmSub w.time q.tm ≤ 255 * secInDay then
        { ret := 0, wkalrm := w,
          sys := programAlarm (.ofInt 64 (w.time.tmMday - q.tm.tmMday)) w { s with dev := q.dev } }
      else { ret := -1, wkalrm := w, sys := { s with dev := q.dev } }) := by
  have hret := (gettime_frame hq).1
  unfold halRtcSetalarm
  rw [hq]
  dsimp only
  rw [hret, if_neg (by decide)]
  by_cases hpast : rtcTmSub w.time q.tm ≤ 0
  · rw [if_pos hpast, if_neg fun h => absurd h.1 (Int.not_lt.2 hpast)]
  · rw [if_neg hpast]
    by_cases hfar : rtcTmSub w.time q.tm > 255 * secInDay
    · rw [if_pos hfar, if_neg fun h => absurd h.2 (Int.not_le.2 hfar)]
    · rw [if_neg hfar, if_pos ⟨Int.not_le.1 hpast, Int.not_lt.1 hfar⟩]

/-- The alarm is within the 255 days that follow. -/
def InReach (now alarm : RtcTime) : Prop :=
  0 < alarm.seconds - now.seconds ∧ alarm.seconds - now.seconds ≤ 255 * secInDay

/-- The day register has the day that `hal_rtc_settime` writes for the date of the alarm, the time
register its time of day. -/
def AlarmProgrammed (alarm : RtcTime) (s : RtcSys) (r : AlarmResult) : Prop :=
  r.ret = 0 ∧
    (∃ p, halRtcSettime alarm (fun _ => 0) s.dev = some p ∧ p.ret = 0 ∧
      r.sys.regs sunxiAlrmDay = p.dev.ymd) ∧
    (sunxiTimeGetSecValue (r.sys.regs sunxiAlrmHms)).toInt = alarm.tmSec ∧
      (sunxiTimeGetMinValue (r.sys.regs sunxiAlrmHms)).toInt = alarm.tmMin ∧
      (sunxiTimeGetHourValue (r.sys.regs sunxiAlrmHms)).toInt = alarm.tmHour

/-- An alarm in reach is programmed, another one refused without a write. -/
def SetalarmKept (now alarm : RtcTime) (s : RtcSys) (r : Option AlarmResult) : Prop :=
  ∃ p, r = some p ∧ (InReach now alarm → AlarmProgrammed alarm s p) ∧
    (¬ InReach now alarm → p.ret = -1 ∧ p.sys.writes = s.writes ∧ p.sys.regs = s.regs)

theorem month_start_inj (ha : ValidDay y m d) (hb : ValidDay y' m' d') :
    dayNumber y m d - d = dayNumber y' m' d' - d' ↔ y = y' ∧ m = m' := by
  constructor
  · intro h
    have hfirst : 0 < (1 : Int) ∧ 1 ≤ monthLen (isLeapYear y) m :=
      ⟨by decide, Int.le_trans ha.mday.1 ha.mday.2⟩
    have hfirst' : 0 < (1 : Int) ∧ 1 ≤ monthLen (isLeapYear y') m' :=
      ⟨by decide, Int.le_trans hb.mday.1 hb.mday.2⟩
    have hone : dayNumber y m 1 = dayNumber y' m' 1 := by
      unfold dayNumber at h ⊢
      omega
    obtain ⟨hy, hin⟩ := before_inj yearLen_nonneg (day_in_year ha.mon hfirst)
      (day_in_year hb.mon hfirst') ha.year.1 hb.year.1 hone
    rw [← hy] at hin hfirst'
    exact ⟨hy, (before_inj (monthLen_nonneg _) hfirst hfirst' ha.mon.1 hb.mon.1 hin).1⟩
  · rintro ⟨rfl, rfl⟩
    unfold dayNumber
    omega

/-- The word for the day is the number of the alarm's day only in the month of the current one. -/
theorem alarmDay_iff (hnow : now.Valid) (ha : alarm.Valid)
    (hday : ymd = .ofInt 32 (dayNumber now.year now.month now.tmMday)) :
    alarmDay ymd alarm now = .ofInt 32 (dayNumber alarm.year alarm.month alarm.tmMday) ↔
      now.year = alarm.year ∧ now.month = alarm.month := by
  obtain ⟨h0, hlt, hle⟩ := hnow.day.dayNumber_bounds
  obtain ⟨h0', hlt', hle'⟩ := ha.day.dayNumber_bounds
  have hstart : 0 ≤ dayNumber now.year now.month now.tmMday - now.tmMday := by
    have hyears := before_nonneg (a := rtcMinYear) (b := now.year) yearLen_nonneg
    have hmonths := before_nonneg (a := 1) (b := now.month) (monthLen_nonneg (isLeapYear now.year))
    unfold dayNumber
    omega
  have hmday := ha.day.mday
  have hmday' := hnow.day.mday.1
  have hlen : monthLen (isLeapYear alarm.year) alarm.month ≤ 366 := by
    have hin := (day_in_year (y := alarm.year) ha.day.mon ⟨Int.lt_of_lt_of_le hmday.1 hmday.2,
      Int.le_refl _⟩).2
    have hnn := before_nonneg (a := 1) (b := alarm.month) (monthLen_nonneg (isLeapYear alarm.year))
    have hyear := yearLen_le alarm.year
    omega
  have hupper : dayNumber now.year now.month now.tmMday < 0x40000000 := by
    obtain ⟨-, hin⟩ := hnow.day.in_year
    have hy := hnow.day.year
    have hle := before_le yearLen_le rtcMinYear (now.year - rtcMinYear)
    have hyear := yearLen_le now.year
    have hn : now.year - rtcMinYear ≤ 127 := Nat.sub_le_of_le_add hy.2
    rw [Nat.add_sub_cancel' hy.1] at hle
    unfold dayNumber
    omega
  rw [← month_start_inj hnow.day ha.day, alarmDay, hday, ← BitVec.ofInt_add]
  constructor
  · intro h
    have hint := congrArg BitVec.toInt h
    rw [BitVec.toInt_ofInt_eq_self (by decide) (by omega) (by omega),
      BitVec.toInt_ofInt_eq_self (by decide) (by omega) (by omega)] at hint
    omega
  · intro h
    have hsum : alarm.tmMday - now.tmMday + dayNumber now.year now.month now.tmMday =
        dayNumber alarm.year alarm.month alarm.tmMday := by omega
    rw [hsum]

/-- Of a time that the driver reads right, with the day register at its day. -/
theorem setalarm_kept_iff (hnow : now.Valid) (ha : alarm.Valid)
    (hq : halRtcGettime passes s.dev = some q) (htm : q.tm = now)
    (hday : s.dev.ymd = .ofInt 32 (dayNumber now.year now.month now.tmMday)) (enabled : BitVec 8) :
    SetalarmKept now alarm s (halRtcSetalarm passes { enabled, time := alarm } s) ↔
      ¬ InReach now alarm ∨ now.year = alarm.year ∧ now.month = alarm.month := by
  have hsub : rtcTmSub alarm now = alarm.seconds - now.seconds := by
    have hY := ha.year.2
    have hY' := hnow.year.2
    rw [rtcTmSub, ha.proper.toTime64 (by omega), hnow.proper.toTime64 (by omega)]
  rw [setalarm_eq hq, htm]
  dsimp only
  rw [hsub]
  by_cases hreach : InReach now alarm
  · have hin : 0 < alarm.seconds - now.seconds ∧
        alarm.seconds - now.seconds ≤ 255 * secInDay := hreach
    rw [if_pos hin]
    obtain ⟨hd, hhms, -, -⟩ := programAlarm_regs { enabled, time := alarm } now
      { s with dev := q.dev }
    have hymd := (gettime_frame hq).2.1
    dsimp only at hd hhms
    rw [hymd] at hd
    have hset := ha.settime (fun _ => 0) s.dev
    have hregs : ∀ time date : BitVec 32, setRegs time date (fun _ => 0) s.dev =
        (0, { s.dev with hms := time, ymd := date }) := fun _ _ => rfl
    rw [hregs] at hset
    rw [or_iff_right (not_not.2 hreach), ← alarmDay_iff hnow ha hday]
    constructor
    · rintro ⟨p, hp, hkept, -⟩
      cases hp
      obtain ⟨-, ⟨p, hp, -, hreg⟩, -⟩ := hkept hreach
      rw [hset] at hp
      cases hp
      exact hd.symm.trans hreg
    · intro hgood
      refine ⟨_, rfl, fun _ => ?_, fun hout => absurd hreach hout⟩
      refine ⟨rfl, ⟨_, hset, rfl, hd.trans hgood⟩, ?_⟩
      dsimp only
      rw [hhms]
      exact ha.word_fields
  · have hout : ¬ (0 < alarm.seconds - now.seconds ∧
        alarm.seconds - now.seconds ≤ 255 * secInDay) := hreach
    rw [if_neg hout]
    apply iff_of_true _ (.inl hreach)
    exact ⟨_, rfl, fun hin => absurd hin hreach, fun _ => ⟨rfl, rfl, rfl⟩⟩

/-- A day at the beginning of 1970, at noon. -/
def noonOf (mon mday : Int) : RtcTime :=
  { tmSec := 0, tmMin := 0, tmHour := 12, tmMday := mday, tmMon := mon, tmYear := 70 }

/-- The clock at noon of a day, the alarm registers all 0. -/
def sysAtNoon (day : BitVec 32) : RtcSys :=
  { dev := .boot day 0xc0000, regs := fun _ => 0, writes := [] }

/-- From 1 January to 2 January. -/
theorem setalarm_kept_next_day : SetalarmKept (noonOf 0 1) (noonOf 0 2) (sysAtNoon 1)
    (halRtcSetalarm [(sysAtNoon 1).dev.steady] { enabled := 1, time := noonOf 0 2 }
      (sysAtNoon 1)) := by
  have hnow : (noonOf 0 1).Valid := by constructor <;> decide
  have ha : (noonOf 0 2).Valid := by constructor <;> decide
  have hread : (halRtcGettime [(sysAtNoon 1).dev.steady] (sysAtNoon 1).dev).map RtcResult.tm =
      some (noonOf 0 1) := by decide
  obtain ⟨q, hq, htm⟩ := Option.map_eq_some_iff.1 hread
  exact (setalarm_kept_iff hnow ha hq htm (by decide) 1).2 (.inr (by decide))

/-- From 31 January to 1 February the day register gets 1, not 32. -/
theorem setalarm_month_end : ¬ SetalarmKept (noonOf 0 31) (noonOf 1 1) (sysAtNoon 31)
    (halRtcSetalarm [(sysAtNoon 31).dev.steady] { enabled := 1, time := noonOf 1 1 }
      (sysAtNoon 31)) := by
  have hreach : InReach (noonOf 0 31) (noonOf 1 1) := by
    unfold InReach
    decide
  have hset : (halRtcSetalarm [(sysAtNoon 31).dev.steady] { enabled := 1, time := noonOf 1 1 }
      (sysAtNoon 31)).map (fun r => r.sys.regs sunxiAlrmDay) = some 1 := by decide
  have hday : (halRtcSettime (noonOf 1 1) (fun _ => 0) (sysAtNoon 31).dev).map
      (fun p => p.dev.ymd) = some 32 := by decide
  rintro ⟨r, hr, hkept, -⟩
  obtain ⟨-, ⟨p, hp, -, hreg⟩, -⟩ := hkept hreach
  rw [hr, Option.map_some, hreg] at hset
  rw [hp, Option.map_some] at hday
  cases hset.symm.trans hday

theorem sunxiGet_le (x mask : BitVec 32) (shift : Nat) :
    (sunxiGet x mask shift).toNat ≤ mask.toNat := by
  have hand : (x &&& mask <<< shift).toNat ≤ mask.toNat * 2 ^ shift := by
    rw [BitVec.toNat_and, BitVec.toNat_shiftLeft, Nat.shiftLeft_eq]
    exact Nat.le_trans Nat.and_le_right (Nat.mod_le _ _)
  rw [sunxiGet, BitVec.toNat_ushiftRight, Nat.shiftRight_eq_div_pow]
  exact Nat.div_le_of_le_mul (by rwa [Nat.mul_comm])

theorem monthLen_le (leap : Bool) (i : Nat) : monthLen leap i ≤ 31 := by
  have hall : ∀ d ∈ monthDays, d ≤ 31 := by decide
  unfold monthLen monthDaysAt
  cases h : monthDays[13 * leap.toNat + i]? with
  | none => exact (by decide : (0 : Int) ≤ 31)
  | some d => exact hall d (List.mem_of_getElem? h)

/-- The month loop goes two places past December at most. -/
theorem monthLoop_bounds {leap : Bool} (h : monthLoop leap.toNat turns 1 date = some (i, r))
    (h0 : 0 < date) (hle : date ≤ 366) : 1 ≤ i ∧ i ≤ 14 ∧ 0 < r ∧ r ≤ 31 := by
  have hl := locate_of_monthLoop h
  obtain ⟨hi, hn, hr⟩ := locate_spec hl
  have hpos := locate_pos hl h0
  have hall : 366 ≤ before (monthLen leap) 1 15 := by cases leap <;> decide
  refine ⟨hi, ?_, hpos, Int.le_trans hr (monthLen_le leap i)⟩
  by_contra hgt
  have hmono := before_mono (monthLen_nonneg leap) (a := 1) (b := 15) (c := i) (by omega)
  omega

theorem mktimeDays_bounds (hy : 1970 ≤ y ∧ y ≤ 2097) (hm : 1 ≤ m ∧ m ≤ 14) (hd : 1 ≤ d ∧ d ≤ 31) :
    0 ≤ mktimeDays y m d ∧ mktimeDays y m d ≤ 50000 := by
  unfold mktimeDays marchYear marchMonth leaps
  split <;> omega

/-- The seconds of any time the driver reads while the day register holds a day it has. -/
theorem gettime_seconds (h : ValidDay y m d) (hymd : dev.ymd = .ofInt 32 (dayNumber y m d))
    (hlast : dev.lastDate = 0) (hst : readStable passes = some (dev.ymd, dev.hms))
    (hq : halRtcGettime passes dev = some q) :
    0 ≤ rtcTmToTime64 q.tm ∧ rtcTmToTime64 q.tm < 2 ^ 33 := by
  obtain ⟨hin0, hin⟩ := h.in_year
  have hlen := yearLen_le y
  rw [halRtcGettime, hst] at hq
  dsimp only at hq
  rw [hymd, h.decode hlast] at hq
  dsimp only at hq
  generalize (isLeapYear y && decide (y ≠ 2000)) = leap at hq
  cases hl : monthLoop leap.toNat monthDays.length 1
      (before (monthLen (isLeapYear y)) 1 m + d) with
  | none =>
    rw [hl] at hq
    cases hq
  | some p =>
    obtain ⟨i, r⟩ := p
    rw [hl] at hq
    cases hq
    obtain ⟨hi1, hi14, hr0, hr⟩ := monthLoop_bounds hl hin0 (Int.le_trans hin hlen)
    obtain ⟨mday, rfl⟩ := Int.eq_ofNat_of_zero_le (Int.le_of_lt hr0)
    have hyear : (y : Int) - 1900 + 1900 = y := by omega
    have hmon : (i : Int) - 1 + 1 = i := by omega
    have hs := sunxiGet_le dev.hms sunxiMaskSm 0
    have hmin := sunxiGet_le dev.hms sunxiMaskSm 8
    have hhour := sunxiGet_le dev.hms sunxiMaskDh 16
    have hsm : sunxiMaskSm.toNat = 63 := rfl
    have hdh : sunxiMaskDh.toNat = 31 := rfl
    have hofNat : ∀ x : BitVec 32, BitVec.ofInt 32 x.toInt = .ofNat 32 x.toNat := fun x => by
      rw [BitVec.ofInt_toInt, BitVec.ofNat_toNat, BitVec.setWidth_eq]
    obtain ⟨hd0, hd'⟩ := mktimeDays_bounds (d := mday) h.year ⟨hi1, hi14⟩ ⟨by omega, by omega⟩
    have hy := h.year
    unfold rtcMinYear rtcMaxYear at hy
    unfold rtcTmToTime64
    dsimp only
    rw [hyear, hmon, hofNat, hofNat, hofNat, BitVec.ofInt_natCast, BitVec.ofInt_natCast,
      BitVec.ofInt_natCast, mktime64_eq ⟨by omega, by omega⟩ ⟨hi1, hi14⟩ (by omega)
        (BitVec.isLt _) (BitVec.isLt _) (BitVec.isLt _)]
    unfold sunxiTimeGetSecValue sunxiTimeGetMinValue sunxiTimeGetHourValue
    omega

theorem setalarm_accepted (h : halRtcSetalarm passes w s = some r) (hret : r.ret = 0)
    (hq : halRtcGettime passes s.dev = some q) :
    r.sys.regs sunxiAlrmDay = alarmDay s.dev.ymd w.time q.tm ∧
      r.sys.regs sunxiAlrmHms = w.time.word ∧
      (w.enabled ≠ 0 → r.sys.regs sunxiAlrmIrqEn &&& sunxiAlrmEnCntEn ≠ 0) := by
  rw [setalarm_eq hq] at h
  split at h
  · cases h
    obtain ⟨hd, hhms, hen, -⟩ := programAlarm_regs w q.tm { s with dev := q.dev }
    have hymd := (gettime_frame hq).2.1
    dsimp only at hd hhms
    rw [hymd] at hd
    exact ⟨hd, hhms, hen⟩
  · cases h
    cases hret

/-- The call returns 0 and this alarm. -/
def GetsAlarm (w : RtcWkalrm) (r : Option AlarmResult) : Prop :=
  ∃ p, r = some p ∧ p.ret = 0 ∧ p.wkalrm = w

theorem alarmSeconds_toInt {a : Int} (h0 : 0 ≤ a) (ha : a < 2 ^ 33) (x : BitVec 32) :
    (BitVec.ofInt 64 a + x.setWidth 64).toInt = a + x.toNat := by
  obtain ⟨n, rfl⟩ := Int.eq_ofNat_of_zero_le h0
  have hx := x.isLt
  have hnat : (BitVec.ofInt 64 (n : Int) + x.setWidth 64).toNat = n + x.toNat := by
    rw [BitVec.ofInt_natCast, BitVec.toNat_add, BitVec.toNat_ofNat, BitVec.toNat_setWidth]
    omega
  rw [BitVec.toInt_eq_toNat_of_lt (by omega), hnat]
  rfl

/-- What an alarm reads as that was set with the interrupt enabled, at any current time: the
getter takes the day for a count of seconds and the time of day for its current value. -/
theorem alarm_round_trip_iff (h : halRtcSetalarm passes { enabled, time := alarm } s = some r)
    (hret : r.ret = 0) (hen : enabled ≠ 0) (ha : alarm.Proper)
    (hq : halRtcGettime passes s.dev = some q) (hd : ValidDay y m d)
    (hymd : dev.ymd = .ofInt 32 (dayNumber y m d)) (hlast : dev.lastDate = 0)
    (hst : readStable passes' = some (dev.ymd, dev.hms))
    (hq' : halRtcGettime passes' dev = some q') (w : RtcWkalrm) :
    GetsAlarm { enabled := 1, time := alarm } (halRtcGetalarm passes' w { r.sys with dev }) ↔
      alarm.word ≤ alarmDay s.dev.ymd alarm q.tm ∧
        rtcTmToTime64 q'.tm + (alarmDay s.dev.ymd alarm q.tm - alarm.word).toNat =
          alarm.seconds := by
  obtain ⟨hcnt, hcur, hirq⟩ := setalarm_accepted h hret hq
  obtain ⟨ht0, ht⟩ := gettime_seconds hd hymd hlast hst hq'
  have hret' := (gettime_frame hq').1
  have hcnt' : RtcSys.halReadl { r.sys with dev } sunxiAlrmCounter =
      alarmDay s.dev.ymd alarm q.tm := hcnt
  have hcur' : RtcSys.halReadl { r.sys with dev } sunxiAlrmCurrent = alarm.word := hcur
  unfold halRtcGetalarm
  rw [hcnt', hcur']
  dsimp only
  by_cases hgt : alarm.word > alarmDay s.dev.ymd alarm q.tm
  · -- read as disabled, all fields -1
    rw [if_pos hgt]
    apply iff_of_false
    · rintro ⟨p, hp, -, hw⟩
      cases hp
      have hsec := congrArg (fun w : RtcWkalrm => w.time.tmSec) hw
      have hneg : (-1 : Int) = alarm.tmSec := hsec
      have hs := ha.sec.1
      omega
    · exact fun hle => absurd hle.1 (BitVec.not_le.2 hgt)
  · rw [if_neg hgt, hq']
    dsimp only
    rw [hret', if_neg (not_not.2 rfl), alarmSeconds_toInt ht0 ht,
      and_iff_right (BitVec.not_lt.1 hgt)]
    have hlt := (alarmDay s.dev.ymd alarm q.tm - alarm.word).isLt
    rw [← ha.ofTime64 (by omega) (by omega)]
    have hirq' : RtcSys.halReadl { r.sys with dev := q'.dev } sunxiAlrmIrqEn &&&
        sunxiAlrmEnCntEn ≠ 0 := hirq hen
    constructor
    · rintro ⟨p, hp, -, hw⟩
      cases hp
      have htime := congrArg RtcWkalrm.time hw
      exact htime
    · intro htime
      refine ⟨_, rfl, rfl, ?_⟩
      dsimp only
      rw [htime, if_pos hirq']

/-- The first midnight of 1970, and the clock two seconds before it. -/
def firstMidnight : RtcTime :=
  { tmSec := 0, tmMin := 0, tmHour := 0, tmMday := 2, tmMon := 0, tmYear := 70 }

def sysAtEvening : RtcSys :=
  { dev := .boot 1 0x173b3a, regs := fun _ => 0, writes := [] }

/-- The day word 2 and the word 0 for midnight are two seconds apart. -/
theorem alarm_round_trip_midnight : ∃ r,
    halRtcSetalarm [sysAtEvening.dev.steady] { enabled := 1, time := firstMidnight } sysAtEvening =
        some r ∧ r.ret = 0 ∧
      GetsAlarm { enabled := 1, time := firstMidnight } (halRtcGetalarm [sysAtEvening.dev.steady]
        { enabled := 0, time := firstMidnight } { r.sys with dev := sysAtEvening.dev }) := by
  have ha : firstMidnight.Proper := by constructor <;> decide
  have hset : (halRtcSetalarm [sysAtEvening.dev.steady] { enabled := 1, time := firstMidnight }
      sysAtEvening).map AlarmResult.ret = some 0 := by decide
  obtain ⟨r, hr, hret⟩ := Option.map_eq_some_iff.1 hset
  have hread : (halRtcGettime [sysAtEvening.dev.steady] sysAtEvening.dev).map RtcResult.tm =
      some { firstMidnight with tmMday := 1, tmHour := 23, tmMin := 59, tmSec := 58 } := by decide
  obtain ⟨q, hq, htm⟩ := Option.map_eq_some_iff.1 hread
  have hday : ValidDay 1970 1 1 := by constructor <;> decide
  have hstable : readStable [sysAtEvening.dev.steady] =
      some (sysAtEvening.dev.ymd, sysAtEvening.dev.hms) := by decide
  refine ⟨r, hr, hret, ?_⟩
  apply (alarm_round_trip_iff hr hret (by decide) ha hq hday (by decide) rfl hstable hq _).2
  rw [htm]
  decide

/-- From noon to the noon of the next day, read back at once. -/
theorem alarm_read_as_disabled :
    ((halRtcSetalarm [(sysAtNoon 1).dev.steady] { enabled := 1, time := noonOf 0 2 }
        (sysAtNoon 1)).bind fun r =>
      (halRtcGetalarm [(sysAtNoon 1).dev.steady] { enabled := 1, time := noonOf 0 2 }
        { r.sys with dev := (sysAtNoon 1).dev }).map fun p => (r.ret, p.ret, p.wkalrm)) =
      some (0, 0, { enabled := 0, time := disabledTime }) := by
  decide

end D1Flash
