import D1Flash.Rtc.RoundTrip

namespace D1Flash
open Bins
set_option autoImplicit true

def rtcDaysInMonth : List Int := [31, 28, 31, 30, 31, 30, 31, 31, 30, 31, 30, 31]

/-- `rtc_month_days`, for a month below 12. -/
def rtcMonthDays (month year : Nat) : Int :=
  rtcDaysInMonth.getD month 0 + if isLeapYear year ∧ month = 1 then 1 else 0

def leapsThruEndOf (y : BitVec 32) : BitVec 32 := y / 4 - y / 100 + y / 400

def mktime64 (year0 mon0 day hour min sec : BitVec 32) : Int :=
  let mon := mon0 - 2
  -- February is put last
  let p := if mon.toInt ≤ 0 then (year0 - 1, mon + 12) else (year0, mon)
  let days : Int := (p.1 / 4 - p.1 / 100 + p.1 / 400 + 367 * p.2 / 12 + day).toNat +
    (p.1 * 365).toNat - 719499
  ((days * 24 + hour.toNat) * 60 + min.toNat) * 60 + sec.toNat

def rtcTmToTime64 (tm : RtcTime) : Int :=
  mktime64 (.ofInt 32 (tm.tmYear + 1900)) (.ofInt 32 (tm.tmMon + 1)) (.ofInt 32 tm.tmMday)
    (.ofInt 32 tm.tmHour) (.ofInt 32 tm.tmMin) (.ofInt 32 tm.tmSec)

def rtcTmSub (lhs rhs : RtcTime) : Int := rtcTmToTime64 lhs - rtcTmToTime64 rhs

/-- `div_s64_rem` by 86400. -/
def divS64Rem (dividend : Int) : Int × BitVec 32 :=
  if dividend < 0 then (-(-dividend / 86400), -BitVec.ofInt 32 (-dividend % 86400))
  else (dividend / 86400, .ofInt 32 (dividend % 86400))

/-- The loop over the months of `rtc_time64_to_tm`. -/
def rtcMonthLoop (year : Nat) : Nat → Nat → Int → Nat × Int
  | 0, month, days => (month, days)
  | turns + 1, month, days =>
    let newdays := days - rtcMonthDays month year
    if newdays < 0 then (month, days) else rtcMonthLoop year turns (month + 1) newdays

/-- The head of `rtc_time64_to_tm`: the year of a day, and the days before it in the year. -/
def rtcYearOf (days : Int) : BitVec 32 × Int :=
  let year := BitVec.ofInt 32 (1970 + days.tdiv 365)
  let days := (BitVec.ofInt 32 days -
    ((year - 1970) * 365 + leapsThruEndOf (year - 1) - leapsThruEndOf (1970 - 1))).toInt
  if days < 0 then
    let year := year - 1
    (year, days + (365 + (isLeapYear year.toNat).toNat))
  else (year, days)

def rtcTime64ToTm (time : Int) : RtcTime :=
  let q := divS64Rem time
  let secs := q.2
  let p := rtcYearOf (BitVec.ofInt 32 q.1).toInt
  let r := rtcMonthLoop p.1.toNat 11 0 p.2
  let hour := secs / 3600
  let secs := secs - hour * 3600
  let min := secs / 60
  { tmSec := (secs - min * 60).toInt, tmMin := min.toInt, tmHour := hour.toInt,
    tmMday := r.2 + 1, tmMon := r.1, tmYear := (p.1 - 1900).toInt }

/-- The leap years up to the end of a year. -/
def leaps (y : Nat) : Nat := y / 4 - y / 100 + y / 400

theorem leaps_succ (y : Nat) : leaps (y + 1) = leaps y + (isLeapYear (y + 1)).toNat := by
  have h400 : 400 ∣ y + 1 → 100 ∣ y + 1 := Nat.dvd_trans (by decide)
  have h100 : 100 ∣ y + 1 → 4 ∣ y + 1 := Nat.dvd_trans (by decide)
  have hle : y / 100 ≤ y / 4 := Nat.div_le_div_left (by decide) (by decide)
  unfold leaps isLeapYear
  simp only [Nat.succ_div, ← Nat.dvd_iff_mod_eq_zero, ne_eq]
  by_cases hd : 4 ∣ y + 1
  · by_cases hd' : 100 ∣ y + 1
    · by_cases hd'' : 400 ∣ y + 1
      · simp only [hd, hd', hd'', if_true, not_true_eq_false, and_false, or_true, decide_true,
          Bool.toNat_true]
        omega
      · simp only [hd, hd', hd'', if_true, if_false, not_true_eq_false, and_false, or_self,
          decide_false, Bool.toNat_false]
        omega
    · simp only [hd, hd', mt h400 hd', if_true, if_false, not_false_eq_true, and_true, or_false,
        decide_true, Bool.toNat_true]
      omega
  · have hd' := mt h100 hd
    simp only [hd, hd', mt h400 hd', if_false, false_and, or_self, decide_false,
      Bool.toNat_false]
    omega

theorem yearLen_eq_add (y : Nat) : yearLen y = 365 + ((isLeapYear y).toNat : Int) := by
  rw [yearLen]
  cases isLeapYear y with
  | true => rfl
  | false => rfl

theorem yearLen_eq (y : Nat) : yearLen (y + 1) = 365 + (leaps (y + 1) - leaps y : Int) := by
  rw [yearLen_eq_add, leaps_succ]
  omega

theorem before_years (k : Nat) :
    before yearLen rtcMinYear (rtcMinYear + k) = 365 * k + leaps (1969 + k) - 477 := by
  induction k with
  | zero =>
    have h477 : (leaps 1969 : Int) = 477 := rfl
    rw [Nat.add_zero, before_self, Nat.add_zero, h477]
    rfl
  | succ k ih =>
    have hy : rtcMinYear + k = 1969 + k + 1 := by
      unfold rtcMinYear
      omega
    have hlen := yearLen_eq (1969 + k)
    rw [← Nat.add_assoc, before_last yearLen (Nat.le_add_right _ k), ih, hy, hlen]
    have hk : 1969 + k + 1 = 1969 + (k + 1) := by omega
    rw [hk]
    push_cast
    omega

/-- A date and a time of day from 1970 on, in the ranges of `struct rtc_time`. -/
structure RtcTime.Proper (tm : RtcTime) : Prop where
  year : 1970 ≤ tm.tmYear + 1900
  mon : 0 ≤ tm.tmMon ∧ tm.tmMon ≤ 11
  mday : 1 ≤ tm.tmMday ∧ tm.tmMday ≤ daysInMonth (isLeapYear tm.year) tm.tmMon
  hour : 0 ≤ tm.tmHour ∧ tm.tmHour ≤ 23
  min : 0 ≤ tm.tmMin ∧ tm.tmMin ≤ 59
  sec : 0 ≤ tm.tmSec ∧ tm.tmSec ≤ 59

theorem RtcTime.Valid.proper (hv : Valid tm) : Proper tm :=
  ⟨hv.year.1, hv.mon, hv.mday, hv.hour, hv.min, hv.sec⟩

/-- The seconds from 1 January 1970 on. -/
def RtcTime.seconds (tm : RtcTime) : Int :=
  (((dayNumber tm.year tm.month tm.tmMday - 1) * 24 + tm.tmHour) * 60 + tm.tmMin) * 60 + tm.tmSec

theorem RtcTime.Proper.day (hp : Proper tm) :
    rtcMinYear ≤ tm.year ∧ (1 ≤ tm.month ∧ tm.month ≤ 12) ∧
    0 < tm.tmMday ∧ tm.tmMday ≤ monthLen (isLeapYear tm.year) tm.month := by
  obtain ⟨hm, hM⟩ := hp.mon
  obtain ⟨hd, hD⟩ := hp.mday
  have hy := hp.year
  have hmon : tm.month = tm.tmMon.toNat + 1 := by
    unfold RtcTime.month
    omega
  refine ⟨?_, by omega, by omega, ?_⟩
  · unfold RtcTime.year rtcMinYear
    omega
  · rw [hmon, monthLen_eq_daysInMonth _ hp.mon]
    exact hD

theorem RtcTime.Proper.seconds_inj (ha : Proper a) (hb : Proper b) (h : a.seconds = b.seconds) :
    a = b := by
  obtain ⟨hya, hma, hda⟩ := ha.day
  obtain ⟨hyb, hmb, hdb⟩ := hb.day
  obtain ⟨hha, hha'⟩ := ha.hour
  obtain ⟨hmina, hmina'⟩ := ha.min
  obtain ⟨hsa, hsa'⟩ := ha.sec
  obtain ⟨hhb, hhb'⟩ := hb.hour
  obtain ⟨hminb, hminb'⟩ := hb.min
  obtain ⟨hsb, hsb'⟩ := hb.sec
  unfold RtcTime.seconds at h
  have hday : dayNumber a.year a.month a.tmMday = dayNumber b.year b.month b.tmMday := by omega
  have hhour : a.tmHour = b.tmHour := by omega
  have hmin : a.tmMin = b.tmMin := by omega
  have hsec : a.tmSec = b.tmSec := by omega
  obtain ⟨hyear, hin⟩ := before_inj yearLen_nonneg (day_in_year hma hda) (day_in_year hmb hdb)
    hya hyb hday
  rw [← hyear] at hin hdb
  obtain ⟨hmonth, hmday⟩ := before_inj (monthLen_nonneg _) hda hdb hma.1 hmb.1 hin
  have hy : a.tmYear = b.tmYear := by
    have := ha.year
    have := hb.year
    unfold RtcTime.year at hyear
    omega
  have hm : a.tmMon = b.tmMon := by
    have := ha.mon
    have := hb.mon
    unfold RtcTime.month at hmonth
    omega
  cases a
  cases b
  dsimp only at hhour hmin hsec hmday hy hm
  subst hhour hmin hsec hmday hy hm
  rfl

/-- The months as `mktime64` counts them: its year, and its month from March on. -/
def marchYear (y m : Nat) : Nat := if m ≤ 2 then y - 1 else y

def marchMonth (m : Nat) : Nat := if m ≤ 2 then m + 10 else m - 2

/-- The days up to a date, by the formula of `mktime64`. -/
def mktimeDays (y m d : Nat) : Int :=
  leaps (marchYear y m) + 367 * marchMonth m / 12 + d + 365 * marchYear y m - 719499

theorem marchSplit (hy : 1 ≤ y) (hm : 1 ≤ m ∧ m ≤ 14) :
    (if (BitVec.ofNat 32 m - 2).toInt ≤ 0 then
        (BitVec.ofNat 32 y - 1, BitVec.ofNat 32 m - 2 + 12) else (.ofNat 32 y, .ofNat 32 m - 2)) =
      (.ofNat 32 (marchYear y m), .ofNat 32 (marchMonth m)) := by
  obtain ⟨hm1, hm14⟩ := hm
  have hpred : BitVec.ofNat 32 y - 1 = .ofNat 32 (y - 1) := by
    apply BitVec.eq_of_toNat_eq
    simp only [BitVec.ofNat_eq_ofNat, BitVec.toNat_sub, BitVec.toNat_ofNat]
    omega
  rw [hpred]
  interval_cases m <;> rfl

theorem leapsThruEndOf_toNat (hy : y < 2 ^ 31) :
    (leapsThruEndOf (.ofNat 32 y)).toNat = leaps y := by
  unfold leapsThruEndOf leaps
  simp only [BitVec.ofNat_eq_ofNat, BitVec.toNat_add, BitVec.toNat_sub, BitVec.toNat_udiv,
    BitVec.toNat_ofNat, Nat.reducePow, Nat.reduceMod]
  omega

theorem mktime64_eq (hy : 1 ≤ y ∧ y ≤ 100000) (hm : 1 ≤ m ∧ m ≤ 14) (hd : d ≤ 31)
    (hh : h < 2 ^ 32) (hmin : mi < 2 ^ 32) (hs : s < 2 ^ 32) :
    mktime64 (.ofNat 32 y) (.ofNat 32 m) (.ofNat 32 d) (.ofNat 32 h) (.ofNat 32 mi) (.ofNat 32 s) =
      ((mktimeDays y m d * 24 + h) * 60 + mi) * 60 + s := by
  have hyear : marchYear y m ≤ 100000 := by
    unfold marchYear
    split <;> omega
  have hmonth : marchMonth m ≤ 12 := by
    unfold marchMonth
    split <;> omega
  have hleaps := leapsThruEndOf_toNat (y := marchYear y m) (by omega)
  have hle : leaps (marchYear y m) ≤ 100000 := by
    unfold leaps
    omega
  have hterm : (367 * BitVec.ofNat 32 (marchMonth m) / 12).toNat = 367 * marchMonth m / 12 := by
    simp only [BitVec.ofNat_eq_ofNat, BitVec.toNat_udiv, BitVec.toNat_mul, BitVec.toNat_ofNat,
      Nat.reducePow, Nat.reduceMod]
    omega
  have hsum : (leapsThruEndOf (.ofNat 32 (marchYear y m)) +
      367 * BitVec.ofNat 32 (marchMonth m) / 12 + BitVec.ofNat 32 d).toNat =
        leaps (marchYear y m) + 367 * marchMonth m / 12 + d := by
    rw [BitVec.toNat_add, BitVec.toNat_add, hleaps, hterm, BitVec.toNat_ofNat]
    omega
  have hdays : (BitVec.ofNat 32 (marchYear y m) * 365).toNat = 365 * marchYear y m := by
    simp only [BitVec.ofNat_eq_ofNat, BitVec.toNat_mul, BitVec.toNat_ofNat]
    omega
  unfold mktime64
  dsimp only
  rw [marchSplit hy.1 hm]
  dsimp only
  rw [← leapsThruEndOf, hsum, hdays, BitVec.toNat_ofNat, BitVec.toNat_ofNat, BitVec.toNat_ofNat,
    Nat.mod_eq_of_lt hh, Nat.mod_eq_of_lt hmin, Nat.mod_eq_of_lt hs, mktimeDays]
  push_cast
  rfl

/-- The days of the months before one, in the year `mktime64` counts them in. -/
theorem month_offset (leap : Bool) (hm : 1 ≤ m ∧ m ≤ 12) :
    before (monthLen leap) 1 m =
      if m ≤ 2 then (367 * marchMonth m / 12 : Nat) - (336 : Int)
      else (367 * marchMonth m / 12 : Nat) + (29 : Int) + leap.toNat := by
  obtain ⟨hm1, hm12⟩ := hm
  interval_cases m <;> cases leap <;> rfl

theorem mktimeDays_eq (hy : rtcMinYear ≤ y) (hm : 1 ≤ m ∧ m ≤ 12) (d : Nat) :
    mktimeDays y m d = dayNumber y m d - 1 := by
  obtain ⟨k, rfl⟩ := Nat.exists_eq_add_of_le hy
  have hlen := yearLen_eq (1969 + k)
  have hyear : 1969 + k + 1 = rtcMinYear + k := by
    unfold rtcMinYear
    omega
  rw [hyear, yearLen_eq_add] at hlen
  rw [mktimeDays, dayNumber, before_years, month_offset _ hm, marchYear]
  split
  · next hm2 =>
    have hpred : rtcMinYear + k - 1 = 1969 + k := by omega
    rw [hpred]
    push_cast
    omega
  · next hm2 =>
    push_cast
    unfold rtcMinYear at *
    omega

theorem RtcTime.Proper.toTime64 (hp : Proper tm) (hy : tm.tmYear ≤ 90000) :
    rtcTmToTime64 tm = tm.seconds := by
  obtain ⟨hyear, hm, hd, hD⟩ := hp.day
  obtain ⟨hh, hH⟩ := hp.hour
  obtain ⟨hmin, hMin⟩ := hp.min
  obtain ⟨hs, hS⟩ := hp.sec
  have h31 : tm.tmMday ≤ 31 := by
    have hlen := hp.mday.2
    unfold daysInMonth at hlen
    split at hlen
    · split at hlen <;> omega
    · split at hlen <;> omega
  obtain ⟨hour, hhour⟩ := Int.eq_ofNat_of_zero_le hh
  obtain ⟨min, hmin'⟩ := Int.eq_ofNat_of_zero_le hmin
  obtain ⟨sec, hsec⟩ := Int.eq_ofNat_of_zero_le hs
  obtain ⟨mday, hmday⟩ := Int.eq_ofNat_of_zero_le (Int.le_of_lt hd)
  have hY : tm.tmYear + 1900 = (tm.year : Int) := by
    have := hp.year
    unfold RtcTime.year
    omega
  have hM : tm.tmMon + 1 = (tm.month : Int) := by
    have := hp.mon
    unfold RtcTime.month
    omega
  have hdays := mktimeDays_eq hyear hm mday
  rw [rtcTmToTime64, hY, hM, hhour, hmin', hsec, hmday, BitVec.ofInt_natCast, BitVec.ofInt_natCast,
    BitVec.ofInt_natCast, BitVec.ofInt_natCast, BitVec.ofInt_natCast, BitVec.ofInt_natCast,
    mktime64_eq ⟨by unfold rtcMinYear at hyear; omega, by omega⟩ ⟨hm.1, by omega⟩ (by omega)
      (by omega) (by omega) (by omega), hdays, RtcTime.seconds, hhour, hmin', hsec, hmday]

theorem toInt_of_toNat {x : BitVec 32} (hx : x.toNat = n) (hn : n < 2 ^ 31) : x.toInt = n := by
  rw [BitVec.toInt_eq_toNat_of_lt (by omega), hx]

theorem leaps_bounds (hk : k ≤ 545) : 477 ≤ leaps (1969 + k) ∧ leaps (1969 + k) ≤ 700 := by
  unfold leaps
  omega

/-- The year that the head looks at first, and the one before it. -/
theorem rtcYearOf_guess {n : Nat} (hn : n < 198900) :
    let days := n - before yearLen rtcMinYear (rtcMinYear + n / 365)
    rtcYearOf n = if days < 0 then
        (BitVec.ofNat 32 (1969 + n / 365), days + yearLen (1969 + n / 365))
      else (.ofNat 32 (rtcMinYear + n / 365), days) := by
  have hdiv : (1970 : Int) + (n : Int).tdiv 365 = ((rtcMinYear + n / 365 : Nat) : Int) := by
    have : (n : Int).tdiv 365 = ((n / 365 : Nat) : Int) := rfl
    rw [this]
    rfl
  have hprev : BitVec.ofNat 32 (rtcMinYear + n / 365) - 1 = .ofNat 32 (1969 + n / 365) := by
    apply BitVec.eq_of_toNat_eq
    simp only [BitVec.ofNat_eq_ofNat, BitVec.toNat_sub, BitVec.toNat_ofNat]
    unfold rtcMinYear
    omega
  have hleaps := leapsThruEndOf_toNat (y := 1969 + n / 365) (by omega)
  have h477 : leapsThruEndOf (1970 - 1) = 477#32 := rfl
  have hle := leaps_bounds (k := n / 365) (by omega)
  have hback : ((BitVec.ofNat 32 (rtcMinYear + n / 365) - 1970) * 365 +
      leapsThruEndOf (.ofNat 32 (1969 + n / 365)) - 477#32).toNat =
        365 * (n / 365) + leaps (1969 + n / 365) - 477 := by
    rw [BitVec.toNat_sub, BitVec.toNat_add, hleaps]
    simp only [BitVec.ofNat_eq_ofNat, BitVec.toNat_sub, BitVec.toNat_mul, BitVec.toNat_ofNat,
      Nat.reducePow, Nat.reduceMod]
    unfold rtcMinYear
    omega
  have hdays : (BitVec.ofInt 32 (n : Int) - ((BitVec.ofNat 32 (rtcMinYear + n / 365) - 1970) * 365 +
      leapsThruEndOf (.ofNat 32 (1969 + n / 365)) - 477#32)).toInt =
        n - before yearLen rtcMinYear (rtcMinYear + n / 365) := by
    rw [BitVec.toInt_sub, toInt_of_toNat hback (by omega), BitVec.ofInt_natCast,
      toInt_of_toNat (BitVec.toNat_ofNat n 32) (by omega), before_years]
    rw [Int.bmod_eq_of_le] <;> omega
  have hmod : (BitVec.ofNat 32 (1969 + n / 365)).toNat = 1969 + n / 365 := by
    rw [BitVec.toNat_ofNat, Nat.mod_eq_of_lt (by omega)]
  unfold rtcYearOf
  rw [hdiv, BitVec.ofInt_natCast]
  dsimp only
  rw [hprev, h477, hdays, hmod, ← yearLen_eq_add]

/-- Up to the year 2514 one step back is enough. -/
theorem rtcYearOf_spec {n : Nat} (hn : n < 198900) :
    ∃ j days, rtcYearOf n = (.ofNat 32 (rtcMinYear + j), days) ∧ j ≤ 545 ∧ 0 ≤ days ∧
      days < yearLen (rtcMinYear + j) ∧
      (n : Int) = before yearLen rtcMinYear (rtcMinYear + j) + days := by
  have hk : n / 365 ≤ 545 := by omega
  have hyears := before_years (n / 365)
  have hle := leaps_bounds hk
  rw [rtcYearOf_guess hn]
  by_cases hneg : (n : Int) - before yearLen rtcMinYear (rtcMinYear + n / 365) < 0
  · -- the day is in the year before
    have hpos : 1 ≤ n / 365 := by
      by_contra hz
      have hz : n / 365 = 0 := by omega
      rw [hz, Nat.add_zero, before_self] at hneg
      omega
    obtain ⟨j, hj⟩ := Nat.exists_eq_add_of_le' hpos
    have hyear : 1969 + n / 365 = rtcMinYear + j := by
      unfold rtcMinYear
      omega
    have hlast : before yearLen rtcMinYear (rtcMinYear + n / 365) =
        before yearLen rtcMinYear (rtcMinYear + j) + yearLen (rtcMinYear + j) := by
      rw [hj, ← Nat.add_assoc, before_last yearLen (Nat.le_add_right _ j)]
    have hlen := yearLen_ge (rtcMinYear + j)
    rw [if_pos hneg, hyear]
    exact ⟨j, _, rfl, by omega, by omega, by omega, by omega⟩
  · rw [if_neg hneg]
    have hlen := yearLen_ge (rtcMinYear + n / 365)
    exact ⟨n / 365, _, rfl, hk, by omega, by omega, by omega⟩

theorem rtcMonthDays_eq (hm : month < 12) (year : Nat) :
    rtcMonthDays month year = monthLen (isLeapYear year) (month + 1) := by
  unfold rtcMonthDays
  cases isLeapYear year <;> interval_cases month <;> rfl

theorem rtcMonthLoop_spec (ht : month + turns = 11) (h0 : 0 ≤ days)
    (hd : days < before (monthLen (isLeapYear year)) (month + 1) 13) :
    ∃ k r, rtcMonthLoop year turns month days = (k, r) ∧ k ≤ 11 ∧ 0 ≤ r ∧
      r < monthLen (isLeapYear year) (k + 1) ∧
      days = before (monthLen (isLeapYear year)) (month + 1) (k + 1) + r ∧ month ≤ k := by
  induction turns generalizing month days with
  | zero =>
    have hm : month = 11 := ht
    subst hm
    have hlast := before_first (monthLen (isLeapYear year)) (a := 11 + 1) (b := 13) (by omega)
    have hself : before (monthLen (isLeapYear year)) (11 + 1 + 1) 13 = 0 := before_self
    exact ⟨11, days, rfl, Nat.le_refl 11, h0, by omega, by rw [before_self, Int.zero_add],
      Nat.le_refl 11⟩
  | succ turns ih =>
    have hfirst := before_first (monthLen (isLeapYear year)) (a := month + 1) (b := 13) (by omega)
    rw [rtcMonthLoop, rtcMonthDays_eq (by omega)]
    by_cases hnew : days - monthLen (isLeapYear year) (month + 1) < 0
    · rw [if_pos hnew]
      exact ⟨month, days, rfl, by omega, h0, by omega, by rw [before_self, Int.zero_add],
        Nat.le_refl month⟩
    · rw [if_neg hnew]
      have hturns : month + 1 + turns = 11 := by omega
      have hleft : 0 ≤ days - monthLen (isLeapYear year) (month + 1) := by omega
      obtain ⟨k, r, hl, hk, hr0, hr, hdays, hle⟩ := ih hturns hleft (by omega)
      have hsum := before_first (monthLen (isLeapYear year)) (a := month + 1)
        (b := k + 1) (by omega)
      exact ⟨k, r, hl, hk, hr0, hr, by omega, by omega⟩

theorem time_of_day {s : Nat} (hs : s < 86400) :
    let secs := BitVec.ofNat 32 s
    let rest := secs - secs / 3600 * 3600
    (secs / 3600).toInt = (s / 3600 : Nat) ∧ (rest / 60).toInt = (s % 3600 / 60 : Nat) ∧
      (rest - rest / 60 * 60).toInt = (s % 60 : Nat) := by
  have hhour : (BitVec.ofNat 32 s / 3600).toNat = s / 3600 := by
    simp only [BitVec.ofNat_eq_ofNat, BitVec.toNat_udiv, BitVec.toNat_ofNat, Nat.reducePow,
      Nat.reduceMod]
    omega
  have hrest : (BitVec.ofNat 32 s - BitVec.ofNat 32 s / 3600 * 3600).toNat = s % 3600 := by
    rw [BitVec.toNat_sub, BitVec.toNat_mul, hhour]
    simp only [BitVec.ofNat_eq_ofNat, BitVec.toNat_ofNat, Nat.reducePow, Nat.reduceMod]
    omega
  dsimp only
  generalize BitVec.ofNat 32 s - BitVec.ofNat 32 s / 3600 * 3600 = rest at hrest
  have hmin : (rest / 60).toNat = s % 3600 / 60 := by
    rw [BitVec.toNat_udiv, hrest]
    rfl
  have hsec : (rest - rest / 60 * 60).toNat = s % 60 := by
    rw [BitVec.toNat_sub, BitVec.toNat_mul, hmin, hrest]
    simp only [BitVec.ofNat_eq_ofNat, BitVec.toNat_ofNat, Nat.reducePow, Nat.reduceMod]
    omega
  exact ⟨toInt_of_toNat hhour (by omega), toInt_of_toNat hmin (by omega),
    toInt_of_toNat hsec (by omega)⟩

theorem divS64Rem_natCast (u : Nat) :
    divS64Rem u = (((u / 86400 : Nat) : Int), .ofNat 32 (u % 86400)) := by
  rw [divS64Rem, if_neg (by omega)]
  exact Prod.ext rfl (BitVec.ofInt_natCast 32 (u % 86400))

/-- The time of a number of seconds is the one that has them. -/
theorem rtcTime64ToTm_spec (h0 : 0 ≤ t) (ht : t < 2 ^ 34) :
    (rtcTime64ToTm t).Proper ∧ (rtcTime64ToTm t).seconds = t := by
  obtain ⟨u, rfl⟩ := Int.eq_ofNat_of_zero_le h0
  have hday : (BitVec.ofInt 32 ((u / 86400 : Nat) : Int)).toInt = (u / 86400 : Nat) := by
    rw [BitVec.ofInt_natCast]
    exact toInt_of_toNat (Nat.mod_eq_of_lt (by omega)) (by omega)
  obtain ⟨j, days, hyear, hj, hd0, hd, hn⟩ := rtcYearOf_spec (n := u / 86400) (by omega)
  have hmod : (BitVec.ofNat 32 (rtcMinYear + j)).toNat = rtcMinYear + j := by
    rw [BitVec.toNat_ofNat, Nat.mod_eq_of_lt]
    unfold rtcMinYear
    omega
  rw [← before_thirteen] at hd
  have hturns : 0 + 11 = 11 := rfl
  obtain ⟨k, r, hmonth, hk, hr0, hr, hsum, -⟩ := rtcMonthLoop_spec hturns hd0 hd
  rw [Nat.zero_add] at hsum
  obtain ⟨hhour, hmin, hsec⟩ := time_of_day (s := u % 86400) (by omega)
  have hY : (BitVec.ofNat 32 (rtcMinYear + j) - 1900).toInt = (70 + j : Nat) := by
    apply toInt_of_toNat _ (by omega)
    rw [BitVec.toNat_sub, hmod]
    simp only [BitVec.ofNat_eq_ofNat, BitVec.toNat_ofNat, Nat.reducePow, Nat.reduceMod]
    unfold rtcMinYear
    omega
  have htm : rtcTime64ToTm u = {
      tmSec := (u % 86400 % 60 : Nat), tmMin := (u % 86400 % 3600 / 60 : Nat),
      tmHour := (u % 86400 / 3600 : Nat), tmMday := r + 1, tmMon := k, tmYear :=
        (70 + j : Nat) } := by
    unfold rtcTime64ToTm
    rw [divS64Rem_natCast]
    dsimp only
    rw [hday, hyear]
    dsimp only
    rw [hmod, hmonth, hhour, hmin, hsec, hY]
  have hty : (rtcTime64ToTm u).year = rtcMinYear + j := by
    rw [htm]
    unfold RtcTime.year rtcMinYear
    dsimp only
    omega
  have htmon : (rtcTime64ToTm u).month = k + 1 := by
    rw [htm]
    unfold RtcTime.month
    dsimp only
    omega
  have hproper : (rtcTime64ToTm u).Proper := by
    have hlen : monthLen (isLeapYear (rtcMinYear + j)) (k + 1) =
        daysInMonth (isLeapYear (rtcMinYear + j)) k :=
      monthLen_eq_daysInMonth _ ⟨Int.natCast_nonneg k, by omega⟩
    constructor
    · rw [htm]
      dsimp only
      omega
    · rw [htm]
      dsimp only
      omega
    · rw [hty, htm]
      dsimp only
      omega
    · rw [htm]
      dsimp only
      omega
    · rw [htm]
      dsimp only
      omega
    · rw [htm]
      dsimp only
      omega
  refine ⟨hproper, ?_⟩
  unfold RtcTime.seconds
  rw [hty, htmon, htm, dayNumber]
  dsimp only
  omega

theorem RtcTime.Proper.ofTime64 (hp : Proper tm) (h0 : 0 ≤ t) (ht : t < 2 ^ 34) :
    rtcTime64ToTm t = tm ↔ t = tm.seconds := by
  obtain ⟨hproper, hseconds⟩ := rtcTime64ToTm_spec h0 ht
  constructor
  · intro h
    rw [← h, hseconds]
  · intro h
    exact hproper.seconds_inj hp (hseconds.trans h)

end D1Flash
