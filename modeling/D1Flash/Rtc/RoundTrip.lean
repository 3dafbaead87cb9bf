import D1Flash.Lib.Bins
import D1Flash.Lib.Runs
import D1Flash.Rtc.HalRtc
import Mathlib.Tactic.IntervalCases

namespace D1Flash
open Bins Runs
set_option autoImplicit true

/-! The Gregorian calendar. -/

def daysInMonth (leap : Bool) (mon : Int) : Int :=
  if mon = 1 then (if leap then 29 else 28)
  else if mon = 3 ∨ mon = 5 ∨ mon = 8 ∨ mon = 10 then 30
  else 31

/-- The year itself, and the month counted from 1. -/
def RtcTime.year (tm : RtcTime) : Nat := (tm.tmYear + 1900).toNat

def RtcTime.month (tm : RtcTime) : Nat := (tm.tmMon + 1).toNat

/-- A date of the years 1970 to 2097 and a time of day, in the ranges of `struct rtc_time`. -/
structure RtcTime.Valid (tm : RtcTime) : Prop where
  year : 1970 ≤ tm.tmYear + 1900 ∧ tm.tmYear + 1900 ≤ 2097
  mon : 0 ≤ tm.tmMon ∧ tm.tmMon ≤ 11
  mday : 1 ≤ tm.tmMday ∧ tm.tmMday ≤ daysInMonth (isLeapYear tm.year) tm.tmMon
  hour : 0 ≤ tm.tmHour ∧ tm.tmHour ≤ 23
  min : 0 ≤ tm.tmMin ∧ tm.tmMin ≤ 59
  sec : 0 ≤ tm.tmSec ∧ tm.tmSec ≤ 59

def yearLen (year : Nat) : Int := if isLeapYear year then 366 else 365

def monthLen (leap : Bool) (i : Nat) : Int := (monthDaysAt leap.toNat i).getD 0

theorem yearLen_ge (year : Nat) : 365 ≤ yearLen year := by
  unfold yearLen
  split <;> omega

theorem yearLen_le (year : Nat) : yearLen year ≤ 366 := by
  unfold yearLen
  split <;> omega

theorem yearLen_nonneg (year : Nat) : 0 ≤ yearLen year :=
  Int.le_trans (by decide) (yearLen_ge year)

/-- An access of the array has a value, in its row or past it. -/
theorem monthDaysAt_eq (leap : Bool) (hi : 13 * leap.toNat + i < monthDays.length) :
    monthDaysAt leap.toNat i = some (monthLen leap i) := by
  unfold monthLen monthDaysAt
  rw [List.getElem?_eq_getElem hi]
  rfl

theorem in_array (leap : Bool) (hi : i ≤ 12) : 13 * leap.toNat + i < monthDays.length := by
  have hl := Bool.toNat_lt leap
  have hlen : monthDays.length = 26 := rfl
  omega

theorem monthDays_nonneg : ∀ d ∈ monthDays, 0 ≤ d := by decide

theorem monthLen_nonneg (leap : Bool) (i : Nat) : 0 ≤ monthLen leap i := by
  unfold monthLen monthDaysAt
  cases h : monthDays[13 * leap.toNat + i]? with
  | none => exact Int.le_refl 0
  | some d => exact monthDays_nonneg d (List.mem_of_getElem? h)

theorem monthLen_eq_daysInMonth (leap : Bool) (hm : 0 ≤ mon ∧ mon ≤ 11) :
    monthLen leap (mon.toNat + 1) = daysInMonth leap mon := by
  obtain ⟨h0, h11⟩ := hm
  cases leap <;> interval_cases mon <;> rfl

theorem before_thirteen (year : Nat) :
    before (monthLen (isLeapYear year)) 1 13 = yearLen year := by
  unfold yearLen
  cases isLeapYear year <;> rfl

/-- The two rows of the table part at the end of February. -/
theorem before_rows_eq_iff (hm : 1 ≤ m ∧ m ≤ 12) :
    before (monthLen false) 1 m = before (monthLen true) 1 m ↔ m ≤ 2 := by
  obtain ⟨h1, h12⟩ := hm
  interval_cases m <;> decide

theorem monthLen_rows (hm : 1 ≤ m ∧ m ≤ 2) : monthLen false m = if m = 1 then 31 else 28 := by
  obtain ⟨h1, h2⟩ := hm
  interval_cases m <;> rfl

/-! The loops are walks over bins. -/

theorem yearLoop_eq_locate : yearLoop turns year date = locate yearLen turns year date := by
  induction turns generalizing year date with
  | zero => rfl
  | succ turns ih =>
    rw [yearLoop, locate]
    unfold yearLen
    cases isLeapYear year <;> simp only [Bool.false_eq_true, if_false, if_true, ih] <;> rfl

theorem locate_of_monthLoop (h : monthLoop leap.toNat turns i date = some (k, r)) :
    locate (monthLen leap) turns i date = some (k, r) := by
  induction turns generalizing i date with
  | zero => cases h
  | succ turns ih =>
    rw [monthLoop] at h
    cases hd : monthDaysAt leap.toNat i with
    | none => rw [hd] at h; cases h
    | some days =>
      have hl : monthLen leap i = days := by rw [monthLen, hd, Option.getD_some]
      rw [hd] at h
      rw [locate, hl]
      dsimp only at h
      split at h
      · next hgt => rw [if_pos hgt]; exact ih h
      · next hgt => rw [if_neg hgt]; exact h

theorem monthLoop_of_locate (h : locate (monthLen leap) turns i date = some (k, r))
    (hk : 13 * leap.toNat + k < monthDays.length) :
    monthLoop leap.toNat turns i date = some (k, r) := by
  induction turns generalizing i date with
  | zero => cases h
  | succ turns ih =>
    have hik := (locate_spec h).1
    rw [monthLoop, monthDaysAt_eq leap (by omega)]
    rw [locate] at h
    dsimp only
    split at h
    · next hgt => rw [if_pos hgt]; exact ih h
    · next hgt => rw [if_neg hgt]; exact h

theorem addMonths_eq (leap : Bool) (hm : i + n ≤ 13) :
    addMonths leap.toNat date (List.range' i n) =
      some (date + BitVec.ofInt 32 (before (monthLen leap) i (i + n))) := by
  induction n generalizing i date with
  | zero => simp [addMonths]
  | succ n ih =>
    have hf := before_first (monthLen leap) (Nat.lt_add_of_pos_right (n := i) n.succ_pos)
    have hin : i + 1 + n = i + (n + 1) := by omega
    rw [List.range'_succ, addMonths, monthDaysAt_eq leap (in_array leap (by omega))]
    dsimp only
    rw [ih (by omega), hf, hin, BitVec.ofInt_add, BitVec.add_assoc]

theorem addYears_eq (date : BitVec 32) (n : Nat) :
    addYears date (List.range' a n).reverse = date +
    BitVec.ofInt 32 (before yearLen a (a + n)) := by
  induction n generalizing date with
  | zero => simp [addYears]
  | succ n ih =>
    have hstep : (if isLeapYear (a + n) then date + 366 else date + 365) =
        date + BitVec.ofInt 32 (yearLen (a + n)) := by
      unfold yearLen
      cases isLeapYear (a + n) <;> rfl
    rw [List.range'_concat, List.reverse_append, List.reverse_singleton, List.singleton_append,
      Nat.one_mul, addYears, hstep, ih, ← Nat.add_assoc, before_last yearLen (Nat.le_add_right a n),
      BitVec.ofInt_add, BitVec.add_assoc, BitVec.add_comm (BitVec.ofInt 32 (yearLen (a + n)))]

/-! The two directions. -/

/-- The number of a day, counted from 1 on 1 January 1970. -/
def dayNumber (y m : Nat) (d : Int) : Int :=
  before yearLen rtcMinYear y + (before (monthLen (isLeapYear y)) 1 m + d)

/-- A day of a year the device has. -/
structure ValidDay (y m : Nat) (d : Int) : Prop where
  year : rtcMinYear ≤ y ∧ y ≤ rtcMaxYear
  mon : 1 ≤ m ∧ m ≤ 12
  mday : 0 < d ∧ d ≤ monthLen (isLeapYear y) m

theorem day_in_year (hm : 1 ≤ m ∧ m ≤ 12) (hd : 0 < d ∧ d ≤ monthLen (isLeapYear y) m) :
    0 < before (monthLen (isLeapYear y)) 1 m + d ∧
      before (monthLen (isLeapYear y)) 1 m + d ≤ yearLen y := by
  obtain ⟨hm1, hm12⟩ := hm
  obtain ⟨hd0, hd⟩ := hd
  have hnn := before_nonneg (a := 1) (b := m) (monthLen_nonneg (isLeapYear y))
  have hl := before_last (monthLen (isLeapYear y)) hm1
  have hle : before (monthLen (isLeapYear y)) 1 (m + 1) ≤ yearLen y := by
    rw [← before_thirteen]
    exact before_mono (monthLen_nonneg _) (by omega)
  omega

theorem ValidDay.in_year (h : ValidDay y m d) :
    0 < before (monthLen (isLeapYear y)) 1 m + d ∧
      before (monthLen (isLeapYear y)) 1 m + d ≤ yearLen y :=
  day_in_year h.mon h.mday

theorem ValidDay.dayNumber_bounds (h : ValidDay y m d) :
    0 < dayNumber y m d ∧ dayNumber y m d < 0x80000000 ∧
      (y - rtcMinYear : Nat) * 365 < dayNumber y m d := by
  obtain ⟨hy, hY⟩ := h.year
  obtain ⟨h0, hle⟩ := h.in_year
  have hge := le_before yearLen_ge rtcMinYear (y - rtcMinYear)
  have hle' := before_le yearLen_le rtcMinYear (y - rtcMinYear)
  have hlen := yearLen_le y
  have hn : y - rtcMinYear ≤ 127 := Nat.sub_le_of_le_add hY
  rw [Nat.add_sub_cancel' hy] at hge hle'
  unfold dayNumber
  omega

/-- The leap rule of a year counted from 1900 is off for 2000 alone. -/
theorem isLeapYear_from_1900 (hy : rtcMinYear ≤ y ∧ y ≤ rtcMaxYear) :
    isLeapYear (y - 1900) = (isLeapYear y && y ≠ 2000) := by
  obtain ⟨hlo, hhi⟩ := hy
  obtain ⟨k, rfl⟩ := Nat.exists_eq_add_of_le hlo
  have hk : k < 128 := by
    apply Nat.lt_of_add_lt_add_left (n := rtcMinYear)
    exact Nat.lt_succ_of_le hhi
  have hall : ∀ k < 128, isLeapYear (rtcMinYear + k - 1900) =
      (isLeapYear (rtcMinYear + k) && rtcMinYear + k ≠ 2000) := by decide
  exact hall k hk

theorem leap_of_decoded (hy : rtcMinYear ≤ y ∧ y ≤ rtcMaxYear) :
    isLeapYear (BitVec.ofInt 32 ((y : Int) - 1900)).toNat = (isLeapYear y && y ≠ 2000) := by
  have h1900 : 1900 ≤ y := Nat.le_trans (by decide) hy.1
  have hlt : y - 1900 < 2 ^ 32 := by
    apply Nat.lt_of_le_of_lt (Nat.sub_le y 1900)
    exact Nat.lt_of_le_of_lt hy.2 (by decide)
  have hcast : (y : Int) - 1900 = ((y - 1900 : Nat) : Int) := by omega
  rw [hcast, BitVec.ofInt_natCast, BitVec.toNat_ofNat, Nat.mod_eq_of_lt hlt,
    isLeapYear_from_1900 hy]

theorem ValidDay.yearLoop (h : ValidDay y m d) :
    yearLoop ((dayNumber y m d).toNat / 365 + 1) rtcMinYear (dayNumber y m d) =
      some (y, before (monthLen (isLeapYear y)) 1 m + d) := by
  obtain ⟨hd0, hdy⟩ := h.in_year
  obtain ⟨hn0, -, hn⟩ := h.dayNumber_bounds
  rw [yearLoop_eq_locate, dayNumber]
  apply locate_before yearLen_nonneg hd0 hdy h.year.1
  rw [← dayNumber]
  omega

/-- With the row of the other kind of year the month loop finds the day up to 28 February. -/
theorem monthLoop_iff {leap leap' : Bool} (hm : 1 ≤ m ∧ m ≤ 12)
    (hd : 0 < d ∧ d ≤ monthLen leap m) :
    monthLoop leap'.toNat monthDays.length 1 (before (monthLen leap) 1 m + d) = some (m, d) ↔
      before (monthLen leap') 1 m = before (monthLen leap) 1 m ∧ d ≤ monthLen leap' m := by
  constructor
  · intro h
    obtain ⟨-, hn, hle⟩ := locate_spec (locate_of_monthLoop h)
    exact ⟨by omega, hle⟩
  · rintro ⟨hb, hle⟩
    apply monthLoop_of_locate _ (in_array leap' hm.2)
    rw [← hb]
    apply locate_before (monthLen_nonneg leap') hd.1 hle hm.1
    exact Nat.lt_of_le_of_lt hm.2 (by decide)

/-- The days of 2000 from 29 February on. -/
def LateIn2000 (y m : Nat) (d : Int) : Prop := y = 2000 ∧ (2 < m ∨ m = 2 ∧ d = 29)

theorem ValidDay.rows_agree_iff (h : ValidDay y m d) :
    before (monthLen (isLeapYear y && y ≠ 2000)) 1 m = before (monthLen (isLeapYear y)) 1 m ∧
        d ≤ monthLen (isLeapYear y && y ≠ 2000) m ↔
      ¬ LateIn2000 y m d := by
  obtain ⟨hm1, hm12⟩ := h.mon
  obtain ⟨hd0, hd⟩ := h.mday
  unfold LateIn2000
  by_cases hy : y = 2000
  · cases hy
    have hfalse : (isLeapYear 2000 && 2000 ≠ 2000) = false := rfl
    have htrue : isLeapYear 2000 = true := rfl
    rw [htrue] at hd
    rw [hfalse, htrue, before_rows_eq_iff h.mon]
    by_cases hm : m ≤ 2
    · have hf := monthLen_rows ⟨hm1, hm⟩
      interval_cases m
      · have h31 : d ≤ 31 := hd
        omega
      · have h29 : d ≤ 29 := hd
        omega
    · omega
  · have hrow : (isLeapYear y && y ≠ 2000) = isLeapYear y := by
      rw [decide_eq_true hy, Bool.and_true]
    rw [hrow]
    exact ⟨fun _ hl => hy hl.1, fun _ => ⟨rfl, hd⟩⟩

/-! The time of day. -/

def timeWord (sec min hour : BitVec 32) : BitVec 32 :=
  sunxiTimeSetSecValue sec ||| sunxiTimeSetMinValue min ||| sunxiTimeSetHourValue hour

theorem sunxiGet_or (x y mask : BitVec 32) (shift : Nat) :
    sunxiGet (x ||| y) mask shift = sunxiGet x mask shift ||| sunxiGet y mask shift := by
  simp only [sunxiGet, BitVec.and_or_distrib_right, BitVec.ushiftRight_or_distrib]

theorem getters_sec : ∀ s < 60,
    sunxiTimeGetSecValue (sunxiTimeSetSecValue (.ofNat 32 s)) = .ofNat 32 s ∧
    sunxiTimeGetMinValue (sunxiTimeSetSecValue (.ofNat 32 s)) = 0 ∧
    sunxiTimeGetHourValue (sunxiTimeSetSecValue (.ofNat 32 s)) = 0 := by decide

theorem getters_min : ∀ m < 60, sunxiTimeGetSecValue (sunxiTimeSetMinValue (.ofNat 32 m)) = 0 ∧
    sunxiTimeGetMinValue (sunxiTimeSetMinValue (.ofNat 32 m)) = .ofNat 32 m ∧
    sunxiTimeGetHourValue (sunxiTimeSetMinValue (.ofNat 32 m)) = 0 := by decide

theorem getters_hour : ∀ h < 24, sunxiTimeGetSecValue (sunxiTimeSetHourValue (.ofNat 32 h)) = 0 ∧
    sunxiTimeGetMinValue (sunxiTimeSetHourValue (.ofNat 32 h)) = 0 ∧
    sunxiTimeGetHourValue (sunxiTimeSetHourValue (.ofNat 32 h)) = .ofNat 32 h := by decide

theorem timeWord_fields (hs : s < 60) (hm : m < 60) (hh : h < 24) :
    let t := timeWord (.ofNat 32 s) (.ofNat 32 m) (.ofNat 32 h)
    sunxiTimeGetSecValue t = .ofNat 32 s ∧ sunxiTimeGetMinValue t = .ofNat 32 m ∧
      sunxiTimeGetHourValue t = .ofNat 32 h := by
  obtain ⟨hss, hsm, hsh⟩ := getters_sec s hs
  obtain ⟨hms, hmm, hmh⟩ := getters_min m hm
  obtain ⟨hhs, hhm, hhh⟩ := getters_hour h hh
  have hsec (x y : BitVec 32) : sunxiTimeGetSecValue (x ||| y) =
    sunxiTimeGetSecValue x ||| sunxiTimeGetSecValue y := sunxiGet_or x y _ _
  have hmin (x y : BitVec 32) : sunxiTimeGetMinValue (x ||| y) =
    sunxiTimeGetMinValue x ||| sunxiTimeGetMinValue y := sunxiGet_or x y _ _
  have hhour (x y : BitVec 32) : sunxiTimeGetHourValue (x ||| y) =
    sunxiTimeGetHourValue x ||| sunxiTimeGetHourValue y := sunxiGet_or x y _ _
  dsimp only [timeWord]
  rw [hsec, hsec, hmin, hmin, hhour, hhour, hss, hms, hhs, hsm, hmm, hhm, hsh, hmh, hhh]
  exact ⟨by simp, by simp, by simp⟩

theorem toInt_ofNat_small (hn : n < 60) : (BitVec.ofNat 32 n).toInt = n := by
  have hlt : n < 2 ^ 31 := Nat.lt_trans hn (by decide)
  rw [BitVec.toInt_ofNat', Int.bmod_eq_of_le] <;> omega

/-! What the two calls do with a valid date. -/

theorem RtcTime.Valid.day (hv : Valid tm) : ValidDay tm.year tm.month tm.tmMday := by
  obtain ⟨hy, hY⟩ := hv.year
  obtain ⟨hm, hM⟩ := hv.mon
  obtain ⟨hd, hD⟩ := hv.mday
  have hmon : tm.month = tm.tmMon.toNat + 1 := by
    unfold RtcTime.month
    omega
  refine ⟨⟨?_, ?_⟩, by omega, by omega, ?_⟩
  · unfold RtcTime.year rtcMinYear
    omega
  · unfold RtcTime.year rtcMaxYear
    omega
  · rw [hmon, monthLen_eq_daysInMonth _ hv.mon]
    exact hD

theorem setRegs_ok (h : (setRegs time date losc s).1 = 0) :
    (setRegs time date losc s).2 = { s with hms := time, ymd := date } := by
  unfold setRegs at h ⊢
  split at h
  · cases h
  · next h0 =>
    rw [if_neg h0]
    dsimp only at h ⊢
    split at h
    · cases h
    · next h1 =>
      rw [if_neg h1]
      split at h
      · cases h
      · next h2 =>
        rw [if_neg h2]
        split at h
        · cases h
        · next h3 =>
          rw [if_neg h3]
          split at h
          · cases h
          · next h4 => rw [if_neg h4]

/-- The word a valid time of day is written as. -/
def RtcTime.word (tm : RtcTime) : BitVec 32 :=
  timeWord (.ofInt 32 tm.tmSec) (.ofInt 32 tm.tmMin) (.ofInt 32 tm.tmHour)

theorem RtcTime.Valid.settime (hv : Valid tm) (losc : Nat → BitVec 32) (s : RtcDev) :
    halRtcSettime tm losc s =
      let r := setRegs tm.word (.ofInt 32 (dayNumber tm.year tm.month tm.tmMday)) losc s
      some {
        ret := r.1
        tm := { tm with tmMon := tm.tmMon + 1 }
        reads := (List.range' 1 (tm.month - 1)).map fun i => ((isLeapYear tm.year).toNat, i)
        dev := r.2 } := by
  have hday := hv.day
  obtain ⟨hm1, hm12⟩ := hday.mon
  obtain ⟨hy, hY⟩ := hday.year
  have hyear : (BitVec.ofInt 32 (tm.tmYear + 1900)).toNat = tm.year := by
    have hcast : tm.tmYear + 1900 = (tm.year : Int) := by
      have hlo := hv.year.1
      unfold RtcTime.year
      omega
    rw [hcast, BitVec.ofInt_natCast, BitVec.toNat_ofNat, Nat.mod_eq_of_lt]
    exact Nat.lt_of_le_of_lt hY (by decide)
  have hmonths : (tm.tmMon + 1 - 1).toNat = tm.month - 1 := by
    unfold RtcTime.month
    omega
  have hdate : addYears (BitVec.ofInt 32 tm.tmMday + BitVec.ofInt 32
        (before (monthLen (isLeapYear tm.year)) 1 (1 + (tm.month - 1))))
      (List.range' rtcMinYear (tm.year - rtcMinYear)).reverse =
      .ofInt 32 (dayNumber tm.year tm.month tm.tmMday) := by
    rw [addYears_eq, Nat.add_sub_cancel' hm1, Nat.add_sub_cancel' hy, dayNumber,
      BitVec.ofInt_add, BitVec.ofInt_add, BitVec.add_comm (BitVec.ofInt 32 tm.tmMday)]
    exact BitVec.add_comm _ _
  have hrange : ¬ (tm.year < rtcMinYear ∨ tm.year > rtcMaxYear) := by
    rintro (hlt | hgt)
    · exact Nat.not_lt.2 hy hlt
    · exact Nat.not_lt.2 hY hgt
  unfold halRtcSettime
  dsimp only
  rw [hyear, if_neg hrange, hmonths, addMonths_eq _ (by omega)]
  dsimp only
  rw [hdate]
  rfl

theorem RtcTime.Valid.word_fields (hv : Valid tm) :
    (sunxiTimeGetSecValue tm.word).toInt = tm.tmSec ∧
      (sunxiTimeGetMinValue tm.word).toInt = tm.tmMin ∧
      (sunxiTimeGetHourValue tm.word).toInt = tm.tmHour := by
  obtain ⟨hs0, hs⟩ := hv.sec
  obtain ⟨hm0, hm⟩ := hv.min
  obtain ⟨hh0, hh⟩ := hv.hour
  obtain ⟨sec, hsec⟩ := Int.eq_ofNat_of_zero_le hs0
  obtain ⟨min, hmin⟩ := Int.eq_ofNat_of_zero_le hm0
  obtain ⟨hour, hhour⟩ := Int.eq_ofNat_of_zero_le hh0
  rw [hsec] at hs
  rw [hmin] at hm
  rw [hhour] at hh
  obtain ⟨hS, hM, hH⟩ := timeWord_fields (s := sec) (m := min) (h := hour) (by omega) (by omega)
    (by omega)
  rw [RtcTime.word, hsec, hmin, hhour, BitVec.ofInt_natCast, BitVec.ofInt_natCast,
    BitVec.ofInt_natCast, hS, hM, hH]
  exact ⟨toInt_ofNat_small (by omega), toInt_ofNat_small (by omega), toInt_ofNat_small (by omega)⟩

theorem ValidDay.decode (h : ValidDay y m d) (hlast : s.lastDate = 0) :
    halRtcDayToYmd rtcMinYear (.ofInt 32 (dayNumber y m d)) s =
      let leap := (isLeapYear y && y ≠ 2000).toNat
      (monthLoop leap monthDays.length 1 (before (monthLen (isLeapYear y)) 1 m + d)).map fun p =>
        ({ year := y - 1900, mon := p.1, mday := p.2,
           reads := (List.range' 1 p.1).map fun j => (leap, j) },
          { s with lastYear := y - 1900, lastMon := p.1, lastMday := p.2 }) := by
  obtain ⟨h0, hlt, -⟩ := h.dayNumber_bounds
  have hint : (BitVec.ofInt 32 (dayNumber y m d)).toInt = dayNumber y m d :=
    BitVec.toInt_ofInt_eq_self (by decide) (by omega) (by omega)
  have hne : BitVec.ofInt 32 (dayNumber y m d) ≠ s.lastDate := by
    intro he
    rw [he, hlast] at hint
    have hz : (0 : Int) = dayNumber y m d := hint
    omega
  rw [halRtcDayToYmd, if_neg hne]
  dsimp only
  rw [hint, h.yearLoop]
  dsimp only
  rw [leap_of_decoded h.year]
  cases monthLoop (isLeapYear y && y ≠ 2000).toNat monthDays.length 1
    (before (monthLen (isLeapYear y)) 1 m + d) with
  | none => rfl
  | some p => rfl

/-- The decoding of a valid day gives it back, the year from 1900 on, unless the rows part. -/
theorem ValidDay.dayToYmd (h : ValidDay y m d) (hlast : s.lastDate = 0) :
    (∃ r s', halRtcDayToYmd rtcMinYear (.ofInt 32 (dayNumber y m d)) s = some (r, s') ∧
        r.year = y - 1900 ∧ r.mon = m ∧ r.mday = d ∧ ∀ a ∈ r.reads, InTable a) ↔
      ¬ LateIn2000 y m d := by
  rw [← h.rows_agree_iff, ← monthLoop_iff h.mon h.mday, h.decode hlast]
  dsimp only
  cases hl : monthLoop (isLeapYear y && y ≠ 2000).toNat monthDays.length 1
    (before (monthLen (isLeapYear y)) 1 m + d) with
  | none => exact ⟨fun ⟨_, _, he, _⟩ => (nomatch he), fun he => (nomatch he)⟩
  | some p =>
    obtain ⟨i, date⟩ := p
    constructor
    · rintro ⟨r, s', he, -, hm, hd, -⟩
      cases he
      dsimp only at hm hd
      rw [hd, Int.natCast_inj.1 hm]
    · intro he
      cases he
      refine ⟨_, _, rfl, rfl, rfl, rfl, ?_⟩
      intro a ha
      obtain ⟨j, hj, rfl⟩ := List.mem_map.1 ha
      have hj' := List.mem_range'_1.1 hj
      have hm := h.mon.2
      exact ⟨Bool.toNat_lt _, by omega⟩

/-- Whatever the register holds, the decoding ends inside the array: the row of a common year is
left for the next one by at most two places. -/
theorem halRtcDayToYmd_returns (udate : BitVec 32) (s : RtcDev) :
    ∃ p, halRtcDayToYmd rtcMinYear udate s = some p := by
  unfold halRtcDayToYmd
  split
  · exact ⟨_, rfl⟩
  · dsimp only
    have hle := le_before yearLen_ge rtcMinYear (udate.toInt.toNat / 365 + 1)
    rw [← Nat.add_assoc] at hle
    obtain ⟨y, r, hl, -⟩ := locate_ends yearLen (n := udate.toInt) rtcMinYear
      (udate.toInt.toNat / 365) (by omega)
    have hr := Int.le_trans (locate_spec hl).2.2 (yearLen_le y)
    rw [yearLoop_eq_locate, hl]
    dsimp only
    generalize isLeapYear (BitVec.ofInt 32 ((y : Int) - 1900)).toNat = leap
    have hm : ∃ q, monthLoop leap.toNat monthDays.length 1 r = some q := by
      cases leap with
      | false =>
        have hall : before (monthLen false) 1 (1 + 13 + 1) = 396 := rfl
        obtain ⟨k, d, hk, hk14⟩ := locate_ends (monthLen false) (n := r) 1 13 (by omega)
        exact ⟨_, monthLoop_of_locate (locate_more hk (by decide)) (Nat.lt_of_le_of_lt
          (Nat.add_le_add_left hk14 _) (by decide))⟩
      | true =>
        have hall : before (monthLen true) 1 (1 + 11 + 1) = 366 := rfl
        obtain ⟨k, d, hk, hk12⟩ := locate_ends (monthLen true) (n := r) 1 11 (by omega)
        exact ⟨_, monthLoop_of_locate (locate_more hk (by decide)) (in_array true hk12)⟩
    obtain ⟨q, hq⟩ := hm
    rw [hq]
    exact ⟨_, rfl⟩

/-! Runs of calls. -/

inductive RtcCall
  | gettime (passes : List RtcPass)
  | settime (tm : RtcTime) (losc : Nat → BitVec 32)

/-- A call. One that does not return leaves the device as it is. -/
def rtcStep (s : RtcDev) (c : RtcCall) : Option RtcResult × RtcDev :=
  let r := match c with
    | .gettime passes => halRtcGettime passes s
    | .settime tm losc => halRtcSettime tm losc s
  (r, (r.map RtcResult.dev).getD s)

/-- The static variables before the first call, over whatever the registers hold. -/
def RtcDev.boot (ymd hms : BitVec 32) : RtcDev :=
  { ymd := ymd, hms := hms, lastDate := 0, lastYear := 0, lastMon := 0, lastMday := 0 }

/-- A turn of the loop in `hal_rtc_gettime` that finds the registers as they are. -/
def RtcDev.steady (s : RtcDev) : RtcPass :=
  { date := s.ymd, time := s.hms, dateAgain := s.ymd, timeAgain := s.hms }

theorem halRtcDayToYmd_lastDate (h : halRtcDayToYmd minYear udate s = some (d, s')) :
    s'.lastDate = s.lastDate := by
  unfold halRtcDayToYmd at h
  split at h
  · cases h
    rfl
  · dsimp only at h
    split at h
    · cases h
    · split at h
      · cases h
      · cases h
        rfl

theorem setRegs_lastDate (time date : BitVec 32) (losc : Nat → BitVec 32) (s : RtcDev) :
    (setRegs time date losc s).2.lastDate = s.lastDate := by
  unfold setRegs
  split
  · rfl
  · dsimp only
    split
    · rfl
    · split
      · rfl
      · split
        · rfl
        · split <;> rfl

theorem rtcStep_lastDate (s : RtcDev) (c : RtcCall) : (rtcStep s c).2.lastDate = s.lastDate := by
  cases c with
  | gettime passes =>
    dsimp only [rtcStep, halRtcGettime]
    cases readStable passes with
    | none => rfl
    | some p =>
      dsimp only
      cases hd : halRtcDayToYmd rtcMinYear p.1 s with
      | none => rfl
      | some q => exact halRtcDayToYmd_lastDate hd
  | settime tm losc =>
    dsimp only [rtcStep, halRtcSettime]
    split
    · rfl
    · split
      · rfl
      · exact setRegs_lastDate _ _ losc s

/-- The time set comes back, with every access of `month_days` inside the table. -/
def RoundTrips (tm : RtcTime) (r : RtcResult) : Prop :=
  ∃ q, halRtcGettime [r.dev.steady] r.dev = some q ∧ q.ret = 0 ∧ q.tm = tm ∧
    ∀ a ∈ r.reads ++ q.reads, InTable a

theorem gettime_steady (s : RtcDev) : halRtcGettime [s.steady] s =
    (halRtcDayToYmd rtcMinYear s.ymd s).map fun p => {
      ret := 0
      tm := {
        tmSec := (sunxiTimeGetSecValue s.hms).toInt
        tmMin := (sunxiTimeGetMinValue s.hms).toInt
        tmHour := (sunxiTimeGetHourValue s.hms).toInt
        tmMday := p.1.mday
        tmMon := p.1.mon - 1
        tmYear := p.1.year }
      reads := p.1.reads
      dev := p.2 } := by
  have hs : readStable [s.steady] = some (s.ymd, s.hms) := if_neg (by simp [RtcDev.steady])
  rw [halRtcGettime, hs]
  dsimp only
  cases halRtcDayToYmd rtcMinYear s.ymd s with
  | none => rfl
  | some p => rfl

/-- The device holds a valid time: reading it is decoding its date. -/
theorem RtcTime.Valid.gettime (hv : Valid tm) (hw : s.hms = tm.word) :
    (∃ q, halRtcGettime [s.steady] s = some q ∧ q.ret = 0 ∧ q.tm = tm ∧
      ∀ a ∈ q.reads, InTable a) ↔
    ∃ d s', halRtcDayToYmd rtcMinYear s.ymd s = some (d, s') ∧ d.year = tm.year - 1900 ∧
      d.mon = tm.month ∧ d.mday = tm.tmMday ∧ ∀ a ∈ d.reads, InTable a := by
  obtain ⟨hsec, hmin, hhour⟩ := hv.word_fields
  have hyear : (tm.year : Int) = tm.tmYear + 1900 := by
    have hlo := hv.year.1
    unfold RtcTime.year
    omega
  have hmonth : (tm.month : Int) = tm.tmMon + 1 := by
    have hlo := hv.mon.1
    unfold RtcTime.month
    omega
  rw [gettime_steady, hw, hsec, hmin, hhour]
  cases halRtcDayToYmd rtcMinYear s.ymd s with
  | none => exact ⟨fun ⟨_, he, _⟩ => (nomatch he), fun ⟨_, _, he, _⟩ => (nomatch he)⟩
  | some p =>
    obtain ⟨d, s'⟩ := p
    constructor
    · rintro ⟨q, he, -, htm, hr⟩
      cases he
      have hy := congrArg RtcTime.tmYear htm
      have hm := congrArg RtcTime.tmMon htm
      have hd := congrArg RtcTime.tmMday htm
      dsimp only at hy hm hd
      exact ⟨d, s', rfl, by omega, by omega, hd, hr⟩
    · rintro ⟨d', s'', he, hy, hm, hd, hr⟩
      cases he
      have hy' : d.year = tm.tmYear := by omega
      have hm' : d.mon - 1 = tm.tmMon := by omega
      exact ⟨_, rfl, rfl, by dsimp only; rw [hy', hm', hd], hr⟩

/-- A valid time that was set comes back unless it is one of the last days of 2000, whatever
calls came before. -/
theorem rtc_round_trip (hv : tm.Valid) (ymd hms : BitVec 32) (calls : List RtcCall)
    (losc : Nat → BitVec 32) :
    ∃ r, halRtcSettime tm losc (run rtcStep (.boot ymd hms) calls).2 = some r ∧
      (r.ret = 0 → (RoundTrips tm r ↔ ¬ LateIn2000 tm.year tm.month tm.tmMday)) := by
  have hlast : (run rtcStep (.boot ymd hms) calls).2.lastDate = 0 :=
    invariant (G := fun _ _ => True) (I := fun s => s.lastDate = 0)
      (fun s c hs _ => (rtcStep_lastDate s c).trans hs) rfl (along_of_forall fun _ _ _ => trivial)
  generalize (run rtcStep (.boot ymd hms) calls).2 = s at hlast ⊢
  refine ⟨_, hv.settime losc s, fun hret => ?_⟩
  dsimp only at hret
  have hdev := setRegs_ok hret
  have hreads : ∀ a ∈ (List.range' 1 (tm.month - 1)).map
      (fun i => ((isLeapYear tm.year).toNat, i)), InTable a := by
    intro a ha
    obtain ⟨i, hi, rfl⟩ := List.mem_map.1 ha
    have hi' := List.mem_range'_1.1 hi
    have hm := hv.day.mon.2
    exact ⟨Bool.toNat_lt _, by omega⟩
  unfold RoundTrips
  dsimp only
  simp only [List.mem_append, or_imp, forall_and]
  let t : RtcDev :=
    { s with hms := tm.word, ymd := .ofInt 32 (dayNumber tm.year tm.month tm.tmMday) }
  have hg := (hv.gettime (s := t) rfl).trans (hv.day.dayToYmd (s := t) hlast)
  rw [hdev, ← hg]
  constructor
  · rintro ⟨q, hq, h0, htm, -, hr⟩
    exact ⟨q, hq, h0, htm, hr⟩
  · rintro ⟨q, hq, h0, htm, hr⟩
    exact ⟨q, hq, h0, htm, hreads, hr⟩

def newYearsEve2000 : RtcTime :=
  { tmSec := 0, tmMin := 0, tmHour := 12, tmMday := 31, tmMon := 11, tmYear := 100 }

def leapDay2096 : RtcTime :=
  { tmSec := 59, tmMin := 59, tmHour := 23, tmMday := 29, tmMon := 1, tmYear := 196 }

theorem rtc_round_trip_leap_day : ∃ r, halRtcSettime leapDay2096 (fun _ => 0) (.boot 0 0) = some r ∧
    r.ret = 0 ∧ RoundTrips leapDay2096 r := by
  have hv : leapDay2096.Valid := by constructor <;> decide
  obtain ⟨r, hr, hi⟩ := rtc_round_trip hv 0 0 [] fun _ => 0
  have hret : r.ret = 0 := by
    have h0 : (halRtcSettime leapDay2096 (fun _ => 0) (.boot 0 0)).map RtcResult.ret = some 0 := by
      decide
    rw [show halRtcSettime leapDay2096 (fun _ => 0) (.boot 0 0) = some r from hr] at h0
    exact Option.some.inj h0
  refine ⟨r, hr, hret, (hi hret).2 ?_⟩
  rintro ⟨hy, -⟩
  revert hy
  decide

/-- The last day of 2000 comes back as another one. -/
theorem rtc_round_trip_new_years_eve :
    ∃ r, halRtcSettime newYearsEve2000 (fun _ => 0) (.boot 0 0) = some r ∧
      r.ret = 0 ∧ ¬ RoundTrips newYearsEve2000 r := by
  refine ⟨_, rfl, by decide, ?_⟩
  rintro ⟨q, hq, -, htm, -⟩
  have hdec := congrArg (Option.map RtcResult.tm) hq
  rw [Option.map_some, htm] at hdec
  revert hdec
  decide

end D1Flash
