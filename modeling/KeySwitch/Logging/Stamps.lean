import KeySwitch.Lib.FixedWidth
import KeySwitch.Logging.Dates

/-!
# Timestamps of the log

A line of the log starts with its UTC time to the millisecond, in fields of a fixed width
from the year down. The dates of later days are later in the calendar (`civilDate_before`),
so until the year 10000 the lines of a log sort as texts in the order of their times
(`stamps_in_order`).
-/

namespace KeySwitch.Logging

open Lib

/-- A time as nanoseconds from 1970-01-01, which may be before it. -/
abbrev SystemTime := Int

/-- The length of a timestamp before the year 10000. -/
def TIMESTAMP_LEN : Nat := 24

/-- The seconds from 1970-01-01 to the year 10000. -/
def YEAR_10000_S : Nat := 2932897 * 86400

/-- The time since the epoch, in nanoseconds; a time before it counts as the epoch. -/
def sinceEpoch (now : SystemTime) : Nat := now.toNat

/-- The milliseconds since the epoch. -/
def millis (now : SystemTime) : Nat := sinceEpoch now / 1000000

abbrev SystemTime.BeforeYear10000 (now : SystemTime) : Prop :=
  sinceEpoch now / 1000000000 < YEAR_10000_S

/-- The text of a date, a second of the day and a millisecond. -/
def stampText (date : Date) (ofDay subsecMillis : Nat) : List Char :=
  padded 4 date.year ++ '-' :: (padded 2 date.month ++ '-' :: (padded 2 date.day ++ 'T' ::
    (padded 2 (ofDay / 3600) ++ ':' :: (padded 2 (ofDay % 3600 / 60) ++ ':' ::
      (padded 2 (ofDay % 60) ++ '.' :: (padded 3 subsecMillis ++ ['Z']))))))

/-- The text where the date's computation may leave its type, which it does for no time there
is. -/
def computedText (date : Option Date) (ofDay subsecMillis : Nat) : List Char :=
  match date with
  | some date => stampText date ofDay subsecMillis
  | none => []

/-- `now` in UTC as ISO 8601 with milliseconds. -/
def writeTimestamp (now : SystemTime) : List Char :=
  computedText (civilFromDays (sinceEpoch now / 1000000000 / 86400))
    (sinceEpoch now / 1000000000 % 86400) (sinceEpoch now % 1000000000 / 1000000)

/-! ## Later days have later dates -/

/-- The order of the calendar. -/
def Date.Before (a b : Date) : Prop :=
  a.year < b.year ∨ a.year = b.year ∧ (a.month < b.month ∨ a.month = b.month ∧ a.day < b.day)

theorem Date.Before.trans {a b c : Date} (hab : a.Before b) (hbc : b.Before c) : a.Before c := by
  unfold Before at *
  omega

theorem Date.next_before (date : Date) : date.Before date.next := by
  unfold next
  split
  · exact .inr ⟨rfl, .inr ⟨rfl, Nat.lt_succ_self _⟩⟩
  · split
    · exact .inr ⟨rfl, .inl (Nat.lt_succ_self _)⟩
    · exact .inl (Nat.lt_succ_self _)

theorem civilDate_before {day later : Nat} (h : day < later) :
    (civilDate day).Before (civilDate later) := by
  induction later with
  | zero => exact absurd h (Nat.not_lt_zero day)
  | succ later ih =>
    have hnext : (civilDate later).Before (civilDate (later + 1)) := by
      rw [civil_succ]
      exact (civilDate later).next_before
    rcases Nat.lt_succ_iff_lt_or_eq.mp h with hlt | rfl
    · exact (ih hlt).trans hnext
    · exact hnext

/-- The order of the calendar is that of the days. -/
theorem civilDate_before_iff {a b : Nat} : (civilDate a).Before (civilDate b) ↔ a < b := by
  refine ⟨fun h => ?_, civilDate_before⟩
  rcases Nat.lt_trichotomy a b with hlt | rfl | hgt
  · exact hlt
  · unfold Date.Before at h
    omega
  · have hback := civilDate_before hgt
    unfold Date.Before at h hback
    omega

theorem civilDate_inj {a b : Nat} (h : civilDate a = civilDate b) : a = b := by
  rcases Nat.lt_trichotomy a b with hlt | hsame | hgt
  · have hbefore := civilDate_before hlt
    rw [h] at hbefore
    unfold Date.Before at hbefore
    omega
  · exact hsame
  · have hbefore := civilDate_before hgt
    rw [h] at hbefore
    unfold Date.Before at hbefore
    omega

/-! ## The fields of a date -/

/-- Whether the fields of a date have their widths. -/
structure Date.Fits (date : Date) : Prop where
  year : date.year < 10 ^ 4
  month : date.month < 10 ^ 2
  day : date.day < 10 ^ 2

theorem monthLength_le (leap : Bool) (month : Nat) : monthLength leap month ≤ 31 := by
  unfold monthLength
  split
  · split <;> omega
  all_goals omega

theorem civilDate_fits {day : Nat} (h : day < 2932897) : (civilDate day).Fits := by
  obtain ⟨⟨-, hmonth⟩, -, hday⟩ := civilDate_valid day
  have hlength := monthLength_le (isLeap (civilDate day).year) (civilDate day).month
  refine ⟨?_, by omega, by omega⟩
  -- The last day of the year 9999.
  have hlast : (civilDate 2932896).year = 9999 := by decide
  rcases Nat.lt_or_ge day 2932896 with hlt | hge
  · have hbefore := civilDate_before hlt
    unfold Date.Before at hbefore
    omega
  · obtain rfl : day = 2932896 := by omega
    omega

/-! ## The order of the texts -/

section Text

variable {d d' : Date} {s s' m m' : Nat}

/-- Hours, minutes and seconds compare as the second of the day does. -/
theorem second_lt (rest : Prop) :
    (s / 3600 < s' / 3600 ∨ s / 3600 = s' / 3600 ∧ (s % 3600 / 60 < s' % 3600 / 60 ∨
      s % 3600 / 60 = s' % 3600 / 60 ∧ (s % 60 < s' % 60 ∨ s % 60 = s' % 60 ∧ rest))) ↔
      s < s' ∨ s = s' ∧ rest := by
  have hparts : ∀ s : Nat, s = 3600 * (s / 3600) + (60 * (s % 3600 / 60) + s % 60) := by
    intro s
    rw [← Nat.mod_mod_of_dvd s (by decide : 60 ∣ 3600), Nat.div_add_mod, Nat.div_add_mod]
  have hminutes : ∀ s : Nat, s % 3600 / 60 < 60 ∧ s % 60 < 60 := fun s => by omega
  have hs := hparts s
  have hs' := hparts s'
  obtain ⟨hm, hsec⟩ := hminutes s
  obtain ⟨hm', hsec'⟩ := hminutes s'
  generalize s / 3600 = hour at hs
  generalize s' / 3600 = hour' at hs'
  generalize s % 3600 / 60 = minute at hs hm
  generalize s' % 3600 / 60 = minute' at hs' hm'
  generalize s % 60 = second at hs hsec
  generalize s' % 60 = second' at hs' hsec'
  by_cases hrest : rest
  · simp only [hrest, and_true]
    omega
  · simp only [hrest, and_false, or_false]
    omega

/-- The texts compare by date, then by second, then by millisecond. -/
theorem stampText_lt (hd : d.Fits) (hd' : d'.Fits) (hs : s < 86400) (hs' : s' < 86400)
    (hm : m < 1000) (hm' : m' < 1000) :
    stampText d s m < stampText d' s' m' ↔
      d.Before d' ∨ d = d' ∧ (s < s' ∨ s = s' ∧ m < m') := by
  have hdate : d = d' ↔ d.year = d'.year ∧ d.month = d'.month ∧ d.day = d'.day := by
    cases d
    cases d'
    simp
  unfold stampText Date.Before
  rw [padded_append_lt hd.year hd'.year, List.cons_lt_cons_self,
    padded_append_lt hd.month hd'.month, List.cons_lt_cons_self,
    padded_append_lt hd.day hd'.day, List.cons_lt_cons_self,
    padded_append_lt (by omega) (by omega), List.cons_lt_cons_self,
    padded_append_lt (by omega) (by omega), List.cons_lt_cons_self,
    padded_append_lt (by omega) (by omega), List.cons_lt_cons_self,
    padded_append_lt (by omega) (by omega), second_lt, hdate,
    iff_false_intro (List.lt_irrefl ['Z'])]
  tauto

theorem stampText_length (hd : d.Fits) (hs : s < 86400) (hm : m < 1000) :
    (stampText d s m).length = TIMESTAMP_LEN := by
  unfold stampText
  simp only [List.length_append, List.length_cons, List.length_nil, padded_length hd.year,
    padded_length hd.month, padded_length hd.day]
  rw [padded_length (by omega), padded_length (by omega), padded_length (by omega),
    padded_length (by omega)]
  rfl

end Text

section Times

variable {a b now : SystemTime}

/-- The fields of a timestamp before the year 10000. -/
theorem writeTimestamp_eq (h : now.BeforeYear10000) :
    writeTimestamp now = stampText (civilDate (millis now / 1000 / 86400))
      (millis now / 1000 % 86400) (millis now % 1000) := by
  have hseconds : millis now / 1000 = sinceEpoch now / 1000000000 := by
    unfold millis
    omega
  have hmillis : millis now % 1000 = sinceEpoch now % 1000000000 / 1000000 := by
    unfold millis
    omega
  unfold SystemTime.BeforeYear10000 YEAR_10000_S at h
  unfold writeTimestamp
  rw [civilFromDays_eq (by omega), hseconds, hmillis]
  rfl

theorem civilDate_fits_of (h : now.BeforeYear10000) :
    (civilDate (millis now / 1000 / 86400)).Fits := by
  apply civilDate_fits
  unfold SystemTime.BeforeYear10000 YEAR_10000_S at h
  unfold millis
  omega

theorem writeTimestamp_length (h : now.BeforeYear10000) :
    (writeTimestamp now).length = TIMESTAMP_LEN := by
  rw [writeTimestamp_eq h]
  exact stampText_length (civilDate_fits_of h) (by omega) (by omega)

theorem writeTimestamp_lt (ha : a.BeforeYear10000) (hb : b.BeforeYear10000) :
    writeTimestamp a < writeTimestamp b ↔ millis a < millis b := by
  rw [writeTimestamp_eq ha, writeTimestamp_eq hb, stampText_lt (civilDate_fits_of ha)
    (civilDate_fits_of hb) (by omega) (by omega) (by omega) (by omega), civilDate_before_iff]
  constructor
  · rintro (hlt | ⟨hsame, hlt⟩)
    · omega
    · have hdays := civilDate_inj hsame
      omega
  · intro hlt
    rcases Nat.lt_or_ge (millis a / 1000 / 86400) (millis b / 1000 / 86400) with h | h
    · exact .inl h
    · have hdays : millis a / 1000 / 86400 = millis b / 1000 / 86400 := by omega
      exact .inr ⟨congrArg civilDate hdays, by omega⟩

end Times

/-- What timestamps are for: texts of one length, which compare as the times do to the
millisecond. -/
structure Sorted (a b : SystemTime) : Prop where
  length : (writeTimestamp a).length = TIMESTAMP_LEN
  order : writeTimestamp a < writeTimestamp b ↔ millis a < millis b
  same : writeTimestamp a = writeTimestamp b ↔ millis a = millis b

/-- **Until the year 10000 the timestamps of the log sort as texts in the order of their
times**, and two are the same text exactly for the same millisecond. -/
theorem stamps_in_order (a b : SystemTime) (ha : a.BeforeYear10000) (hb : b.BeforeYear10000) :
    Sorted a b := by
  refine ⟨writeTimestamp_length ha, writeTimestamp_lt ha hb, fun hsame => ?_, fun hsame => ?_⟩
  · rcases Nat.lt_trichotomy (millis a) (millis b) with hlt | heq | hgt
    · have hbefore := (writeTimestamp_lt ha hb).mpr hlt
      rw [hsame] at hbefore
      exact absurd hbefore (List.lt_irrefl _)
    · exact heq
    · have hbefore := (writeTimestamp_lt hb ha).mpr hgt
      rw [hsame] at hbefore
      exact absurd hbefore (List.lt_irrefl _)
  · rw [writeTimestamp_eq ha, writeTimestamp_eq hb, hsame]

/-- The first millisecond of 2000-03-01, and the one before it. -/
theorem stamps_in_order_leapDay : Sorted 951868799999000000 951868800000000000 :=
  stamps_in_order _ _ (by decide) (by decide)

end KeySwitch.Logging
