import KeySwitch.Lib.Checked
import Mathlib.Order.Monotone.Basic
import Mathlib.Tactic.ByContra

/-!
# Calendar dates in the log

A log line starts with its UTC time, whose date is computed from the days since
1970-01-01. `civilFromDays` is that computation in `u64`s, which gives nothing where a
step would leave the type.

Years that start in March put the leap day at their end. `dayStart` is the day such a
year starts on, `marchYear` and `dayOfYear` are what the computation finds: the year
whose days a given day is among, and its place there (`marchYear_spec`). The next day is
the next place in the year, or the first of the next year, and read as months and days
that is the calendar's successor (`civil_succ`).
-/

namespace KeySwitch.Logging

open Lib

/-! ## The computation -/

/-- A date as year, month and day. -/
structure Date where
  year : Nat
  month : Nat
  day : Nat
  deriving DecidableEq, Repr

/-- The year of an era and the place in it of a day of the era. -/
def yearAndDay (dayOfEra : Nat) : Option (Nat × Nat) := do
  let past4 ← subFits dayOfEra (dayOfEra / 1460)
  let past100 ← addFits 64 past4 (dayOfEra / 36524)
  let past400 ← subFits past100 (dayOfEra / 146096)
  let yearOfEra := past400 / 365
  let years ← mulFits 64 365 yearOfEra
  let leaps ← addFits 64 years (yearOfEra / 4)
  let before ← subFits leaps (yearOfEra / 100)
  let dayOfYear ← subFits dayOfEra before
  return (yearOfEra, dayOfYear)

/-- The month and the day of a place in a year, months counted from March. -/
def monthAndDay (dayOfYear : Nat) : Option (Nat × Nat) := do
  let months ← mulFits 64 5 dayOfYear
  let months ← addFits 64 months 2
  let monthIndex := months / 153
  let start ← mulFits 64 153 monthIndex
  let start ← addFits 64 start 2
  let day ← subFits dayOfYear (start / 5)
  let day ← addFits 64 day 1
  let month : Nat ← (if monthIndex < 10 then addFits 64 monthIndex 3 else subFits monthIndex 9)
  return (month, day)

/-- The date of `days` after 1970-01-01. -/
def civilFromDays (days : Nat) : Option Date := do
  -- Days since 0000-03-01, which starts a 400-year era with the leap day at the end.
  let shifted ← addFits 64 days 719468
  let era := shifted / 146097
  let dayOfEra := shifted % 146097
  let (yearOfEra, dayOfYear) ← yearAndDay dayOfEra
  let (month, day) ← monthAndDay dayOfYear
  let year ← mulFits 64 era 400
  let year ← addFits 64 year yearOfEra
  let year ← addFits 64 year (if month ≤ 2 then 1 else 0)
  return ⟨year, month, day⟩

/-! ## The calendar -/

/-- Whether `year` has a 29 February. -/
def isLeap (year : Nat) : Bool := year % 4 == 0 && (year % 100 != 0 || year % 400 == 0)

/-- The days of a month. -/
def monthLength (leap : Bool) : Nat → Nat
  | 2 => if leap then 29 else 28
  | 4 | 6 | 9 | 11 => 30
  | _ => 31

/-- The day after a date of the Gregorian calendar. -/
def Date.next (date : Date) : Date :=
  if date.day < monthLength (isLeap date.year) date.month then { date with day := date.day + 1 }
  else if date.month < 12 then ⟨date.year, date.month + 1, 1⟩
  else ⟨date.year + 1, 1, 1⟩

/-- A date of the calendar. -/
structure Date.Valid (date : Date) : Prop where
  month : 1 ≤ date.month ∧ date.month ≤ 12
  day : 1 ≤ date.day ∧ date.day ≤ monthLength (isLeap date.year) date.month

/-! ## Years from March -/

/-- The first day of the year from March of `year` on, counted from 0000-03-01. -/
def dayStart (year : Nat) : Nat := 365 * year + year / 4 - year / 100 + year / 400

/-- A year from March has a leap day at its end if the next year has one in February. -/
theorem dayStart_succ (year : Nat) :
    dayStart (year + 1) = dayStart year + if isLeap (year + 1) then 366 else 365 := by
  have hle : year / 100 ≤ year / 4 := Nat.div_le_div_left (by decide) (by decide)
  unfold dayStart
  by_cases h4 : (year + 1) % 4 = 0
  · have hdiv4 : (year + 1) / 4 = year / 4 + 1 := by omega
    by_cases h100 : (year + 1) % 100 = 0
    · have hdiv100 : (year + 1) / 100 = year / 100 + 1 := by omega
      by_cases h400 : (year + 1) % 400 = 0
      · have hdiv400 : (year + 1) / 400 = year / 400 + 1 := by omega
        have hleap : isLeap (year + 1) = true := by simp [isLeap, h4, h400]
        rw [hleap, hdiv4, hdiv100, hdiv400, if_pos rfl]
        omega
      · have hdiv400 : (year + 1) / 400 = year / 400 := by omega
        have hleap : isLeap (year + 1) = false := by simp [isLeap, h100, h400]
        rw [hleap, hdiv4, hdiv100, hdiv400, if_neg (by decide)]
        omega
    · have hdiv100 : (year + 1) / 100 = year / 100 := by omega
      have hdiv400 : (year + 1) / 400 = year / 400 := by omega
      have hleap : isLeap (year + 1) = true := by simp [isLeap, h4, h100]
      rw [hleap, hdiv4, hdiv100, hdiv400, if_pos rfl]
      omega
  · have hdiv4 : (year + 1) / 4 = year / 4 := by omega
    have hdiv100 : (year + 1) / 100 = year / 100 := by omega
    have hdiv400 : (year + 1) / 400 = year / 400 := by omega
    have hleap : isLeap (year + 1) = false := by simp [isLeap, h4]
    rw [hleap, hdiv4, hdiv100, hdiv400, if_neg (by decide)]
    omega

theorem dayStart_mono {a b : Nat} (h : a ≤ b) : dayStart a ≤ dayStart b := by
  refine monotone_nat_of_le_succ (fun year => ?_) h
  rw [dayStart_succ]
  exact Nat.le_add_right _ _

/-- The year among whose days a day is, is unique. -/
theorem dayStart_unique {a b day : Nat} (ha : dayStart a ≤ day) (ha' : day < dayStart (a + 1))
    (hb : dayStart b ≤ day) (hb' : day < dayStart (b + 1)) : a = b := by
  rcases Nat.lt_trichotomy a b with hlt | heq | hlt
  · have hstart : dayStart (a + 1) ≤ dayStart b := dayStart_mono hlt
    omega
  · exact heq
  · have hstart : dayStart (b + 1) ≤ dayStart a := dayStart_mono hlt
    omega

/-- An era has 146097 days. -/
theorem dayStart_era (era year : Nat) :
    dayStart (era * 400 + year) = era * 146097 + dayStart year := by
  unfold dayStart
  omega

/-! ## The year of an era -/

/-- The year of the era among whose days `dayOfEra` is. -/
def yearOfEra (dayOfEra : Nat) : Nat :=
  (dayOfEra - dayOfEra / 1460 + dayOfEra / 36524 - dayOfEra / 146096) / 365

theorem yearOfEra_mono {a b : Nat} (h : a ≤ b) (hb : b < 146097) : yearOfEra a ≤ yearOfEra b := by
  unfold yearOfEra
  apply Nat.div_le_div_right
  have hpast4 : a - a / 1460 ≤ b - b / 1460 := by omega
  have hpast100 : a / 36524 ≤ b / 36524 := Nat.div_le_div_right h
  by_cases hlast : b < 146096
  · rw [Nat.div_eq_of_lt hlast, Nat.div_eq_of_lt (Nat.lt_of_le_of_lt h hlast)]
    omega
  · -- The leap day of the era, taken back, is the day before it.
    obtain rfl : b = 146096 := by omega
    omega

theorem yearOfEra_lt {dayOfEra : Nat} (h : dayOfEra < 146097) : yearOfEra dayOfEra < 400 := by
  unfold yearOfEra
  omega

/-- The first day of a year of the era, and the day before it. -/
theorem yearOfEra_dayStart : ∀ year < 400, yearOfEra (dayStart year) = year ∧
    (year ≠ 0 → yearOfEra (dayStart year - 1) = year - 1) := by
  decide +kernel

theorem yearOfEra_spec {dayOfEra : Nat} (h : dayOfEra < 146097) :
    dayStart (yearOfEra dayOfEra) ≤ dayOfEra ∧ dayOfEra < dayStart (yearOfEra dayOfEra + 1) := by
  have hlt := yearOfEra_lt h
  have hyear := yearOfEra_dayStart _ hlt
  constructor
  · by_contra hbefore
    have hzero : yearOfEra dayOfEra ≠ 0 := by
      intro hzero
      rw [hzero] at hbefore
      exact hbefore (Nat.zero_le _)
    have hle : dayOfEra ≤ dayStart (yearOfEra dayOfEra) - 1 := by omega
    have hstart : dayStart (yearOfEra dayOfEra) ≤ dayStart 399 := dayStart_mono (by omega)
    have hlast : dayStart 399 = 145731 := by decide
    have hmono := yearOfEra_mono hle (by omega)
    rw [hyear.2 hzero] at hmono
    omega
  · by_contra hafter
    by_cases hlast : yearOfEra dayOfEra + 1 < 400
    · have hmono := yearOfEra_mono (Nat.le_of_not_lt hafter) h
      rw [(yearOfEra_dayStart _ hlast).1] at hmono
      omega
    · have hend : yearOfEra dayOfEra + 1 = 400 := by omega
      rw [hend] at hafter
      exact hafter (by rw [show dayStart 400 = 146097 by decide]; exact h)

/-! ## Where a day is -/

/-- The year from March that day `shifted` since 0000-03-01 is in. -/
def marchYear (shifted : Nat) : Nat := shifted / 146097 * 400 + yearOfEra (shifted % 146097)

/-- Its place in that year, from 0. -/
def dayOfYear (shifted : Nat) : Nat := shifted - dayStart (marchYear shifted)

theorem marchYear_spec (shifted : Nat) :
    dayStart (marchYear shifted) ≤ shifted ∧ shifted < dayStart (marchYear shifted + 1) := by
  have hera : shifted = shifted / 146097 * 146097 + shifted % 146097 := by omega
  obtain ⟨hstart, hend⟩ := yearOfEra_spec (Nat.mod_lt shifted (by decide : 0 < 146097))
  unfold marchYear
  rw [Nat.add_assoc, dayStart_era, dayStart_era]
  omega

theorem dayOfYear_lt (shifted : Nat) :
    dayOfYear shifted < if isLeap (marchYear shifted + 1) then 366 else 365 := by
  obtain ⟨hstart, hend⟩ := marchYear_spec shifted
  rw [dayStart_succ] at hend
  unfold dayOfYear
  omega

theorem dayOfYear_lt_366 (shifted : Nat) : dayOfYear shifted < 366 := by
  have hlt := dayOfYear_lt shifted
  split at hlt
  · exact hlt
  · exact Nat.lt_of_lt_of_le hlt (by decide)

/-- The next day is the next of the year, or the first of the next year. -/
theorem marchYear_succ (shifted : Nat) :
    (dayOfYear shifted + 1 < (if isLeap (marchYear shifted + 1) then 366 else 365) ∧
      marchYear (shifted + 1) = marchYear shifted ∧
      dayOfYear (shifted + 1) = dayOfYear shifted + 1) ∨
    (dayOfYear shifted + 1 = (if isLeap (marchYear shifted + 1) then 366 else 365) ∧
      marchYear (shifted + 1) = marchYear shifted + 1 ∧ dayOfYear (shifted + 1) = 0) := by
  obtain ⟨hstart, hend⟩ := marchYear_spec shifted
  obtain ⟨hstart', hend'⟩ := marchYear_spec (shifted + 1)
  have hlen := dayStart_succ (marchYear shifted)
  by_cases hlast : shifted + 1 < dayStart (marchYear shifted + 1)
  · have hyear : marchYear (shifted + 1) = marchYear shifted :=
      dayStart_unique hstart' hend' (Nat.le_succ_of_le hstart) hlast
    refine Or.inl ⟨?_, hyear, ?_⟩
    · unfold dayOfYear
      omega
    · unfold dayOfYear
      rw [hyear]
      omega
  · have heq : shifted + 1 = dayStart (marchYear shifted + 1) :=
      Nat.le_antisymm hend (Nat.le_of_not_lt hlast)
    have hyear : marchYear (shifted + 1) = marchYear shifted + 1 := by
      refine dayStart_unique hstart' hend' (Nat.le_of_eq heq.symm) ?_
      rw [dayStart_succ (marchYear shifted + 1), heq]
      split
      · omega
      · omega
    refine Or.inr ⟨?_, hyear, ?_⟩
    · unfold dayOfYear
      omega
    · unfold dayOfYear
      rw [hyear]
      omega

/-! ## Months -/

/-- What a day of a year from March is called: 1 if its year is the next one, its month
and its day. -/
def monthDay (place : Nat) : Nat × Nat × Nat :=
  let monthIndex := (5 * place + 2) / 153
  let month := if monthIndex < 10 then monthIndex + 3 else monthIndex - 9
  (if month ≤ 2 then 1 else 0, month, place - (153 * monthIndex + 2) / 5 + 1)

/-- The date of a day of a year from March. -/
def dateOf (year place : Nat) : Date :=
  ⟨year + (monthDay place).1, (monthDay place).2.1, (monthDay place).2.2⟩

/-- The name after a name, where the next year is a leap year or not. -/
def nextName (leap : Bool) (name : Nat × Nat × Nat) : Nat × Nat × Nat :=
  if name.2.2 < monthLength leap name.2.1 then (name.1, name.2.1, name.2.2 + 1)
  else if name.2.1 < 12 then (name.1, name.2.1 + 1, 1)
  else (name.1 + 1, 1, 1)

/-- The names of a year in their order. -/
theorem monthDay_succ : ∀ leap : Bool, ∀ place < 366,
    (place + 1 < (if leap then 366 else 365) →
      nextName leap (monthDay place) = monthDay (place + 1)) ∧
    (place + 1 = (if leap then 366 else 365) → nextName leap (monthDay place) = (1, 3, 1)) := by
  decide +kernel

/-- Every name is one of the calendar; a February is in the next year. -/
theorem monthDay_valid : ∀ leap : Bool, ∀ place < (if leap then 366 else 365),
    1 ≤ (monthDay place).2.1 ∧ (monthDay place).2.1 ≤ 12 ∧ 1 ≤ (monthDay place).2.2 ∧
      (monthDay place).2.2 ≤ monthLength leap (monthDay place).2.1 ∧
      ((monthDay place).2.1 = 2 → (monthDay place).1 = 1) := by
  decide +kernel

/-- The lengths of the months do not depend on the year, but for February's. -/
theorem monthLength_other {leap leap' : Bool} {month : Nat} (h : month ≠ 2) :
    monthLength leap month = monthLength leap' month := by
  unfold monthLength
  split
  · exact absurd rfl h
  · rfl
  · rfl
  · rfl
  · rfl
  · rfl

/-- The length of the month of a day, by the leap day of its year from March. -/
theorem monthLength_dateOf (year place : Nat)
    (h : place < if isLeap (year + 1) then 366 else 365) :
    monthLength (isLeap (dateOf year place).year) (dateOf year place).month =
      monthLength (isLeap (year + 1)) (monthDay place).2.1 := by
  obtain ⟨-, -, -, -, hfebruary⟩ := monthDay_valid (isLeap (year + 1)) place h
  by_cases hmonth : (monthDay place).2.1 = 2
  · show monthLength (isLeap (year + (monthDay place).1)) _ = _
    rw [hfebruary hmonth]
    rfl
  · exact monthLength_other hmonth

theorem dateOf_valid (year place : Nat) (h : place < if isLeap (year + 1) then 366 else 365) :
    (dateOf year place).Valid := by
  obtain ⟨hmonth, hmonth', hday, hday', -⟩ := monthDay_valid (isLeap (year + 1)) place h
  refine ⟨⟨hmonth, hmonth'⟩, hday, ?_⟩
  rw [monthLength_dateOf year place h]
  exact hday'

theorem dateOf_next (year place : Nat) (h : place < if isLeap (year + 1) then 366 else 365) :
    (dateOf year place).next =
      let name := nextName (isLeap (year + 1)) (monthDay place)
      ⟨year + name.1, name.2.1, name.2.2⟩ := by
  have hlength := monthLength_dateOf year place h
  have hday : (dateOf year place).day = (monthDay place).2.2 := rfl
  have hmonth : (dateOf year place).month = (monthDay place).2.1 := rfl
  unfold Date.next nextName
  rw [hlength, hday]
  by_cases hin : (monthDay place).2.2 < monthLength (isLeap (year + 1)) (monthDay place).2.1
  · rw [if_pos hin, if_pos hin]
    rfl
  · rw [if_neg hin, if_neg hin, hmonth]
    by_cases hlast : (monthDay place).2.1 < 12
    · rw [if_pos hlast, if_pos hlast]
      rfl
    · rw [if_neg hlast, if_neg hlast]
      rfl

/-! ## The date of a day -/

/-- What `civilFromDays` finds. -/
def civilDate (days : Nat) : Date := dateOf (marchYear (days + 719468)) (dayOfYear (days + 719468))

theorem civilDate_valid (days : Nat) : (civilDate days).Valid :=
  dateOf_valid _ _ (dayOfYear_lt _)

/-- The date of the next day since 0000-03-01. -/
theorem dateOf_succ (shifted : Nat) :
    dateOf (marchYear (shifted + 1)) (dayOfYear (shifted + 1)) =
      (dateOf (marchYear shifted) (dayOfYear shifted)).next := by
  obtain ⟨hin, hend⟩ := monthDay_succ (isLeap (marchYear shifted + 1)) _ (dayOfYear_lt_366 shifted)
  rw [dateOf_next _ _ (dayOfYear_lt shifted)]
  rcases marchYear_succ shifted with ⟨hnext, hyear, hday⟩ | ⟨hnext, hyear, hday⟩
  · rw [hin hnext, hyear, hday]
    rfl
  · have hmarch : monthDay 0 = (0, 3, 1) := by decide
    rw [hend hnext, hyear, hday]
    simp [dateOf, hmarch]

/-- **The date of the next day is the next date of the calendar.** -/
theorem civil_succ (days : Nat) : civilDate (days + 1) = (civilDate days).next := by
  unfold civilDate
  rw [Nat.add_right_comm]
  exact dateOf_succ _

theorem civilDate_iterate (days : Nat) : civilDate days = Date.next^[days] ⟨1970, 1, 1⟩ := by
  induction days with
  | zero => decide
  | succ days ih => rw [Function.iterate_succ_apply', ← ih, civil_succ]

theorem yearAndDay_eq {dayOfEra : Nat} (h : dayOfEra < 146097) : yearAndDay dayOfEra =
    some (yearOfEra dayOfEra, dayOfEra - dayStart (yearOfEra dayOfEra)) := by
  have hyear := yearOfEra_lt h
  have hbefore := (yearOfEra_spec h).1
  have hstart : dayStart (yearOfEra dayOfEra) =
      365 * yearOfEra dayOfEra + yearOfEra dayOfEra / 4 - yearOfEra dayOfEra / 100 := by
    unfold dayStart
    omega
  have hpast4 : subFits dayOfEra (dayOfEra / 1460) = some (dayOfEra - dayOfEra / 1460) :=
    subFits_eq (Nat.div_le_self _ _)
  have hpast100 : addFits 64 (dayOfEra - dayOfEra / 1460) (dayOfEra / 36524) =
      some (dayOfEra - dayOfEra / 1460 + dayOfEra / 36524) := addFits_eq (by omega)
  have hpast400 : subFits (dayOfEra - dayOfEra / 1460 + dayOfEra / 36524) (dayOfEra / 146096) =
      some (dayOfEra - dayOfEra / 1460 + dayOfEra / 36524 - dayOfEra / 146096) :=
    subFits_eq (by omega)
  have hyears : mulFits 64 365 (yearOfEra dayOfEra) = some (365 * yearOfEra dayOfEra) :=
    mulFits_eq (by omega)
  have hleaps : addFits 64 (365 * yearOfEra dayOfEra) (yearOfEra dayOfEra / 4) =
      some (365 * yearOfEra dayOfEra + yearOfEra dayOfEra / 4) := addFits_eq (by omega)
  have hcenturies : subFits (365 * yearOfEra dayOfEra + yearOfEra dayOfEra / 4)
      (yearOfEra dayOfEra / 100) = some (dayStart (yearOfEra dayOfEra)) := by
    rw [hstart]
    exact subFits_eq (by omega)
  have hplace : subFits dayOfEra (dayStart (yearOfEra dayOfEra)) =
      some (dayOfEra - dayStart (yearOfEra dayOfEra)) := subFits_eq hbefore
  have hyearOf : (dayOfEra - dayOfEra / 1460 + dayOfEra / 36524 - dayOfEra / 146096) / 365 =
      yearOfEra dayOfEra := rfl
  simp only [yearAndDay, Option.bind_eq_bind, hpast4, hpast100, hpast400, hyearOf, hyears, hleaps,
    hcenturies, hplace, Option.bind_some]
  rfl

theorem monthAndDay_eq : ∀ dayOfYear < 366,
    monthAndDay dayOfYear = some ((monthDay dayOfYear).2.1, (monthDay dayOfYear).2.2) := by
  decide +kernel

/-- The computation, each step with its result. -/
theorem civilFromDays_of {days shifted yearOfEra dayOfYear month day eras year ahead dated : Nat}
    (hshifted : addFits 64 days 719468 = some shifted)
    (hday : yearAndDay (shifted % 146097) = some (yearOfEra, dayOfYear))
    (hmonth : monthAndDay dayOfYear = some (month, day))
    (heras : mulFits 64 (shifted / 146097) 400 = some eras)
    (hyear : addFits 64 eras yearOfEra = some year) (hahead : (if month ≤ 2 then 1 else 0) = ahead)
    (hdated : addFits 64 year ahead = some dated) :
    civilFromDays days = some ⟨dated, month, day⟩ := by
  simp only [civilFromDays, Option.bind_eq_bind, hshifted, hday, hmonth, heras, hyear, hahead,
    hdated, Option.bind_some]
  rfl

/-- Where the year is counted from the start of its era. -/
theorem dayOfYear_eq (shifted : Nat) :
    shifted % 146097 - dayStart (yearOfEra (shifted % 146097)) = dayOfYear shifted := by
  unfold dayOfYear marchYear
  rw [dayStart_era]
  omega

theorem marchYear_lt {shifted : Nat} (h : shifted < 2 ^ 63) : marchYear shifted < 2 ^ 63 := by
  have hyear := yearOfEra_lt (Nat.mod_lt shifted (by decide : 0 < 146097))
  unfold marchYear
  omega

/-- The year of a date is the one from March, or the next. -/
theorem monthDay_ahead (place : Nat) :
    (if (monthDay place).2.1 ≤ 2 then 1 else 0) = (monthDay place).1 ∧ (monthDay place).1 ≤ 1 := by
  have hahead : (if (monthDay place).2.1 ≤ 2 then 1 else 0) = (monthDay place).1 := rfl
  refine ⟨hahead, ?_⟩
  rw [← hahead]
  by_cases hmonth : (monthDay place).2.1 ≤ 2
  · rw [if_pos hmonth]
  · rw [if_neg hmonth]
    exact Nat.zero_le 1

/-- **No step of the computation leaves `u64`.** -/
theorem civilFromDays_eq {days : Nat} (h : days + 719468 < 2 ^ 63) :
    civilFromDays days = some (civilDate days) := by
  have hyear := marchYear_lt h
  have hday := yearAndDay_eq (Nat.mod_lt (days + 719468) (by decide : 0 < 146097))
  rw [dayOfYear_eq] at hday
  obtain ⟨hahead, hle⟩ := monthDay_ahead (dayOfYear (days + 719468))
  have heras : (days + 719468) / 146097 * 400 < 2 ^ 64 := by omega
  have hyears : addFits 64 ((days + 719468) / 146097 * 400)
      (yearOfEra ((days + 719468) % 146097)) = some (marchYear (days + 719468)) := by
    unfold marchYear at hyear ⊢
    exact addFits_eq (Nat.lt_trans hyear (by decide))
  have hdated : marchYear (days + 719468) + (monthDay (dayOfYear (days + 719468))).1 < 2 ^ 64 := by
    omega
  exact civilFromDays_of (addFits_eq (Nat.lt_trans h (by decide))) hday
    (monthAndDay_eq _ (dayOfYear_lt_366 _)) (mulFits_eq heras) hyears hahead (addFits_eq hdated)

/-- The last day count of a `u64` of seconds. -/
def LAST_DAY : Nat := (2 ^ 64 - 1) / 86400

/-- The date of a day as the log writes it: the one that many days after 1970-01-01 in
the calendar. -/
structure CivilDate (days : Nat) (date : Date) : Prop where
  computed : civilFromDays days = some date
  valid : date.Valid
  calendar : date = Date.next^[days] ⟨1970, 1, 1⟩

/-- **Every date of the log is right**: no step of its computation overflows or
underflows, the first is 1970-01-01, and each next day is the next date of the
calendar. -/
theorem civil_dates : civilFromDays 0 = some ⟨1970, 1, 1⟩ ∧
    ∀ seconds < 2 ^ 64, ∃ date, CivilDate (seconds / 86400) date ∧
      (seconds / 86400 + 1 ≤ LAST_DAY → civilFromDays (seconds / 86400 + 1) = some date.next) := by
  have hlast : LAST_DAY < 2 ^ 50 := by decide
  refine ⟨by decide +kernel, fun seconds hseconds => ?_⟩
  have hdays : seconds / 86400 ≤ LAST_DAY := Nat.div_le_div_right (Nat.le_pred_of_lt hseconds)
  refine ⟨civilDate (seconds / 86400),
    ⟨civilFromDays_eq (by omega), civilDate_valid _, civilDate_iterate _⟩, fun _ => ?_⟩
  rw [civilFromDays_eq (by omega), civil_succ]

/-- The day after 2024-02-28 is the leap day. -/
theorem civil_dates_leapDay :
    CivilDate (1709078400 / 86400) ⟨2024, 2, 28⟩ ∧
      civilFromDays (1709078400 / 86400 + 1) = some ⟨2024, 2, 29⟩ := by
  obtain ⟨date, hdate, hnext⟩ := civil_dates.2 1709078400 (by decide)
  have hcomputed : civilFromDays (1709078400 / 86400) = some ⟨2024, 2, 28⟩ := by decide
  obtain rfl := Option.some.inj (hdate.computed.symm.trans hcomputed)
  exact ⟨hdate, hnext (by decide)⟩

end KeySwitch.Logging
