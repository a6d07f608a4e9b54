import Fixos.Sys.TimerTable
import Mathlib.Data.Prod.Lex
import Mathlib.Tactic.IntervalCases

/-! # The clock (`arch/sh/rtc.c`, `sys/time.c`)

The date of the RTC as seconds since 1970, in words of 32 bits, and the time that the ticks add to it.
-/

namespace Fixos.Sys

/-- The decimal digits of the counters of the RTC. -/
structure RtcRegs where
  (y1000 y100 y10 y1 mon10 mon1 d10 d1 h10 h1 min10 min1 s10 s1 : Nat)

structure Civil where
  year : Nat
  month : Nat
  day : Nat
  hour : Nat
  minute : Nat
  second : Nat

def RtcRegs.civil (r : RtcRegs) : Civil where
  year := r.y1000 * 1000 + r.y100 * 100 + r.y10 * 10 + r.y1
  month := r.mon10 * 10 + r.mon1
  day := r.d10 * 10 + r.d1
  hour := r.h10 * 10 + r.h1
  minute := r.min10 * 10 + r.min1
  second := r.s10 * 10 + r.s1

def isLeap (year : Nat) : Bool := year % 4 == 0 && year % 100 != 0 || year % 400 == 0

def mdaysElapsed : List Nat := [0, 31, 59, 90, 120, 151, 181, 212, 243, 273, 304, 334]

def mdaysElapsedLeap : List Nat := [0, 31, 60, 91, 121, 152, 182, 213, 244, 274, 305, 335]

/-- The sums and products wrap around, so they are reduced once at the end. -/
def archTimeGetHw (r : RtcRegs) : Timespec :=
  let c := r.civil
  let tmp : Int := c.year - 1900
  let ret := (tmp - 70) * (3600 * 24 * 365) + (tmp - 69).tdiv 4 * (3600 * 24) - (tmp - 1).tdiv 100 * (3600 * 24) +
    (tmp + 299).tdiv 400 * (3600 * 24)
  let month := if c.month < 1 then 0 else if c.month > 12 then 11 else c.month - 1
  let ret := ret + (if isLeap c.year then mdaysElapsedLeap else mdaysElapsed).getD month 0 * (3600 * 24)
  let ret := ret + ((c.day : Int) - 1) * (3600 * 24)
  let ret := ret + ((c.hour * 60 + c.minute) * 60 + c.second)
  ⟨(ret % 2 ^ 32).toNat, 0⟩

def monthDays (year month : Nat) : Nat :=
  if month = 2 then if isLeap year then 29 else 28 else if month ∈ [4, 6, 9, 11] then 30 else 31

def daysToYear : Nat → Nat
  | 0 => 0
  | n + 1 => daysToYear n + if isLeap (1970 + n) then 366 else 365

def daysToMonth (year : Nat) : Nat → Nat
  | 0 => 0
  | m + 1 => daysToMonth year m + monthDays year (m + 1)

namespace Civil

structure Valid (c : Civil) : Prop where
  year : 1970 ≤ c.year
  month : 1 ≤ c.month ∧ c.month ≤ 12
  day : 1 ≤ c.day ∧ c.day ≤ monthDays c.year c.month
  hour : c.hour < 24
  minute : c.minute < 60
  second : c.second < 60

def days (c : Civil) : Nat := daysToYear (c.year - 1970) + daysToMonth c.year (c.month - 1) + (c.day - 1)

def seconds (c : Civil) : Nat := ((c.days * 24 + c.hour) * 60 + c.minute) * 60 + c.second

def nextDay (c : Civil) : Civil :=
  if c.day < monthDays c.year c.month then ⟨c.year, c.month, c.day + 1, 0, 0, 0⟩
  else if c.month < 12 then ⟨c.year, c.month + 1, 1, 0, 0, 0⟩
  else ⟨c.year + 1, 1, 1, 0, 0, 0⟩

def next (c : Civil) : Civil :=
  if c.second < 59 then { c with second := c.second + 1 }
  else if c.minute < 59 then { c with minute := c.minute + 1, second := 0 }
  else if c.hour < 23 then { c with hour := c.hour + 1, minute := 0, second := 0 }
  else c.nextDay

end Civil

lemma isLeap_iff {y : Nat} : isLeap y = true ↔ y % 4 = 0 ∧ y % 100 ≠ 0 ∨ y % 400 = 0 := by
  simp [isLeap]

lemma daysToYear_eq (n : Nat) : daysToYear n + (n + 69) / 100 = 365 * n + (n + 1) / 4 + (n + 369) / 400 := by
  induction n with
  | zero => rfl
  | succ n ih =>
    have hFour : (n + 1 + 1) / 4 = (n + 1) / 4 + if (1970 + n) % 4 = 0 then 1 else 0 := by split <;> omega
    have hHundred : (n + 1 + 69) / 100 = (n + 69) / 100 + if (1970 + n) % 100 = 0 then 1 else 0 := by split <;> omega
    have hCycle : (n + 1 + 369) / 400 = (n + 369) / 400 + if (1970 + n) % 400 = 0 then 1 else 0 := by split <;> omega
    have hYear : (if isLeap (1970 + n) then 366 else 365) + (if (1970 + n) % 100 = 0 then 1 else 0) =
        365 + (if (1970 + n) % 4 = 0 then 1 else 0) + if (1970 + n) % 400 = 0 then 1 else 0 := by
      simp only [isLeap_iff]
      split_ifs <;> omega
    rw [daysToYear, hFour, hHundred, hCycle]
    omega

lemma daysToMonth_eq (year : Nat) {m : Nat} (h : m < 12) :
    daysToMonth year m = (if isLeap year then mdaysElapsedLeap else mdaysElapsed).getD m 0 := by
  cases hLeap : isLeap year <;> interval_cases m <;> simp [daysToMonth, monthDays, hLeap, mdaysElapsedLeap, mdaysElapsed]

lemma daysToMonth_year (year : Nat) : daysToMonth year 12 = if isLeap year then 366 else 365 := by
  cases hLeap : isLeap year <;> simp [daysToMonth, monthDays, hLeap]

namespace Civil.Valid

variable {c : Civil} (h : c.Valid)
include h

lemma days_nextDay : c.nextDay.days = c.days + 1 := by
  obtain ⟨hYear, ⟨hMonth, hLast⟩, ⟨hDay, hEnd⟩, -⟩ := h
  have hSplit : c.month - 1 + 1 = c.month := Nat.sub_add_cancel hMonth
  have hMonths : daysToMonth c.year c.month = daysToMonth c.year (c.month - 1) + monthDays c.year c.month := by
    rw [← hSplit]
    rfl
  unfold nextDay days
  split_ifs with hWithin hMore
  · dsimp only
    omega
  · dsimp only
    rw [Nat.add_sub_cancel]
    omega
  · have hDecember : daysToMonth c.year c.month = if isLeap c.year then 366 else 365 := by
      rw [show c.month = 12 by omega, daysToMonth_year]
    have hNext : daysToYear (c.year + 1 - 1970) = daysToYear (c.year - 1970) + if isLeap c.year then 366 else 365 := by
      rw [Nat.sub_add_comm hYear, daysToYear, Nat.add_sub_of_le hYear]
    rw [hNext, Nat.sub_self, daysToMonth]
    omega

lemma seconds_next : c.next.seconds = c.seconds + 1 := by
  have hDays := h.days_nextDay
  obtain ⟨-, -, -, hHour, hMinute, hSecond⟩ := h
  have hMidnight : c.nextDay.seconds = c.nextDay.days * 86400 := by
    unfold nextDay seconds
    split_ifs <;> simp only [Nat.add_zero] <;> omega
  unfold next
  split_ifs with hs hm hh
  · rfl
  · simp only [seconds, days]
    omega
  · simp only [seconds, days]
    omega
  · rw [hMidnight, hDays, seconds]
    omega

end Civil.Valid

lemma archTimeGetHw_seconds {r : RtcRegs} (h : r.civil.Valid) : archTimeGetHw r = ⟨r.civil.seconds % 2 ^ 32, 0⟩ := by
  obtain ⟨hYear, ⟨hMonth, hLast⟩, ⟨hDay, -⟩, -⟩ := h
  have hYears := daysToYear_eq (r.civil.year - 1970)
  have hMonths := daysToMonth_eq r.civil.year (show r.civil.month - 1 < 12 by omega)
  unfold archTimeGetHw
  dsimp only
  rw [if_neg (Nat.not_lt.mpr hMonth), if_neg (Nat.not_lt.mpr hLast), ← hMonths]
  congr 1
  rw [← Int.toNat_natCast (_ % _), Int.natCast_mod]
  congr 2
  rw [Int.tdiv_eq_ediv_of_nonneg (by omega), Int.tdiv_eq_ediv_of_nonneg (by omega), Int.tdiv_eq_ediv_of_nonneg (by omega)]
  unfold Civil.seconds Civil.days
  push_cast
  omega

/-- The clock counts the seconds since 1970, modulo `2 ^ 32`, and so goes on by one from each second to the next. -/
theorem arch_time_counts_seconds (r : RtcRegs) (h : r.civil.Valid) :
    archTimeGetHw r = ⟨r.civil.seconds % 2 ^ 32, 0⟩ ∧ ∀ r' : RtcRegs, r'.civil.Valid → r'.civil = r.civil.next →
      archTimeGetHw r' = ⟨((archTimeGetHw r).tvSec + 1) % 2 ^ 32, 0⟩ := by
  refine ⟨archTimeGetHw_seconds h, fun r' h' hNext => ?_⟩
  rw [archTimeGetHw_seconds h', archTimeGetHw_seconds h, hNext, h.seconds_next, Nat.mod_add_mod]

theorem arch_time_counts_seconds_1999 : archTimeGetHw ⟨1, 9, 9, 9, 1, 2, 3, 1, 2, 3, 5, 9, 5, 9⟩ = ⟨946684799, 0⟩ ∧
    archTimeGetHw ⟨2, 0, 0, 0, 0, 1, 0, 1, 0, 0, 0, 0, 0, 0⟩ = ⟨946684800, 0⟩ := by
  obtain ⟨hLast, hNext⟩ := arch_time_counts_seconds ⟨1, 9, 9, 9, 1, 2, 3, 1, 2, 3, 5, 9, 5, 9⟩
    ⟨by decide, by decide, by decide, by decide, by decide, by decide⟩
  have hFirst := hNext ⟨2, 0, 0, 0, 0, 1, 0, 1, 0, 0, 0, 0, 0, 0⟩
    ⟨by decide, by decide, by decide, by decide, by decide, by decide⟩ rfl
  rw [hLast] at hFirst
  exact ⟨hLast, hFirst⟩

structure TimeState where
  monotonicTicks : Nat
  monotonicTime : Timespec
  initEpochTime : Timespec

def timeInit (r : RtcRegs) : TimeState := ⟨0, ⟨0, 0⟩, archTimeGetHw r⟩

def timeAddHr (t1 t2 : Timespec) : Timespec :=
  let sec := Word.add t1.tvSec t2.tvSec
  let nsec := t1.tvNsec + t2.tvNsec
  if 1000 * 1000 * 1000 ≤ nsec then ⟨Word.add sec 1, nsec - 1000 * 1000 * 1000⟩ else ⟨sec, nsec⟩

def timeRealTime (s : TimeState) : Timespec := timeAddHr s.monotonicTime s.initEpochTime

def timeDoTick (s : TimeState) : TimeState :=
  { s with
    monotonicTicks := Word.add s.monotonicTicks 1
    monotonicTime := timeAddHr s.monotonicTime ⟨0, 3906250⟩ }

/-- The seconds and the rest of a number of nanoseconds after `start`. -/
def clockTime (start ns : Nat) : Nat ×ₗ Nat := toLex (start + ns / 10 ^ 9, ns % 10 ^ 9)

def wrapped (t : Nat ×ₗ Nat) : Timespec := ⟨(ofLex t).1 % 2 ^ 32, (ofLex t).2⟩

lemma clockTime_mono (start : Nat) : Monotone (clockTime start) := by
  intro m n hLe
  rw [clockTime, clockTime, Prod.Lex.toLex_le_toLex]
  dsimp only
  omega

lemma timeAddHr_wrapped {s n u : Nat} {t : Timespec} (hNsec : t.tvNsec < 10 ^ 9) (hSec : t.tvSec = u % 2 ^ 32) :
    timeAddHr (wrapped (clockTime s n)) t = wrapped (clockTime (s + u) (n + t.tvNsec)) := by
  unfold timeAddHr wrapped clockTime Word.add
  dsimp only [ofLex_toLex]
  split <;> rw [Timespec.mk.injEq] <;> omega

lemma timeDoTick_iterate (r : RtcRegs) (n : Nat) : timeDoTick^[n] (timeInit r) =
    ⟨n % 2 ^ 32, wrapped (clockTime 0 (n * 3906250)), archTimeGetHw r⟩ := by
  induction n with
  | zero => rfl
  | succ n ih =>
    have hTick := timeAddHr_wrapped (s := 0) (u := 0) (n := n * 3906250) (t := ⟨0, 3906250⟩) (by decide) rfl
    rw [Function.iterate_succ_apply', ih, timeDoTick, hTick, Nat.succ_mul, Word.add, Nat.mod_add_mod]

/-- After any number of ticks the clock is exact, up to the reduction of the seconds, before which it never goes back. -/
theorem time_follows_ticks (r : RtcRegs) : (∀ n, (timeDoTick^[n] (timeInit r)).monotonicTicks = n % 2 ^ 32 ∧
      (timeDoTick^[n] (timeInit r)).monotonicTime = wrapped (clockTime 0 (n * 3906250)) ∧
      timeRealTime (timeDoTick^[n] (timeInit r)) = wrapped (clockTime (archTimeGetHw r).tvSec (n * 3906250))) ∧
    Monotone fun n => clockTime (archTimeGetHw r).tvSec (n * 3906250) := by
  refine ⟨fun n => ?_, (clockTime_mono _).comp fun m n hLe => Nat.mul_le_mul_right _ hLe⟩
  rw [timeDoTick_iterate]
  refine ⟨rfl, rfl, ?_⟩
  have hSec : (archTimeGetHw r).tvSec < 2 ^ 32 := by
    unfold archTimeGetHw
    dsimp only
    omega
  have hNsec : (archTimeGetHw r).tvNsec = 0 := rfl
  rw [timeRealTime, timeAddHr_wrapped (by omega) (Nat.mod_eq_of_lt hSec).symm, hNsec, Nat.zero_add, Nat.add_zero]

end Fixos.Sys
