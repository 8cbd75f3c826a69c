import Mathlib.Data.Prod.Lex
import Mathlib.Data.String.Basic
import Mathlib.Order.Cover
import TelecomSuite.Lib.FixedWidth

/-!
# The calendar behind `gcalloutrecord.lua`

Dates of the Gregorian calendar with their order, the text `to_char` gives a point in time, and the
two texts the script compares it with. Dates are those of the database, the years 1 to 9999: every
text then has one length, and comparing texts is comparing points in time (`toChar_le_endOf`,
`startOf_le_toChar`). `mktimeDayZero` is what C's `mktime` makes of day 0 of a month, which the
script uses for the length of the month before.
-/

namespace TelecomSuite.CallOut

open FixedWidth

/-! ## Dates -/

/-- The leap years of the Gregorian calendar. -/
def isLeap (y : Nat) : Bool :=
  y % 4 = 0 && (y % 100 ≠ 0 || y % 400 = 0)

/-- How many days a month has. -/
def daysInMonth (y m : Nat) : Nat :=
  if m = 2 then if isLeap y then 29 else 28
  else if m = 4 ∨ m = 6 ∨ m = 9 ∨ m = 11 then 30
  else 31

/-- A date of the calendar. -/
structure Date where
  year : Nat
  month : Nat
  day : Nat
  year_pos : 1 ≤ year
  year_le : year ≤ 9999
  month_pos : 1 ≤ month
  month_le : month ≤ 12
  day_pos : 1 ≤ day
  day_le : day ≤ daysInMonth year month
  deriving DecidableEq

/-- A time of day. -/
structure TimeOfDay where
  hour : Nat
  min : Nat
  sec : Nat
  hour_lt : hour < 24
  min_lt : min < 60
  sec_lt : sec < 60
  deriving DecidableEq

/-- A value of the column `B_TIME`. -/
structure Timestamp where
  date : Date
  time : TimeOfDay
  deriving DecidableEq

/-- A month has at most 31 days. -/
theorem daysInMonth_le (y m : Nat) : daysInMonth y m ≤ 31 := by
  unfold daysInMonth
  split_ifs <;> omega

/-- Year, month and day, in the order in which they are compared. -/
def Date.key (d : Date) : Nat ×ₗ Nat ×ₗ Nat :=
  toLex (d.year, toLex (d.month, d.day))

/-- The key tells dates apart. -/
theorem Date.key_injective : Function.Injective Date.key := by
  intro d d' h
  obtain ⟨hy, h⟩ := Prod.mk.inj (toLex.injective h)
  obtain ⟨hm, hd⟩ := Prod.mk.inj (toLex.injective h)
  cases d
  cases d'
  cases hy
  cases hm
  cases hd
  rfl

/-- Dates in the order of the calendar. -/
instance : LinearOrder Date :=
  LinearOrder.lift' Date.key Date.key_injective

/-- The order, by year, month and day. -/
theorem Date.lt_iff {d d' : Date} : d < d' ↔
    d.year < d'.year ∨
      d.year = d'.year ∧ (d.month < d'.month ∨ d.month = d'.month ∧ d.day < d'.day) := by
  change d.key < d'.key ↔ _
  simp only [Date.key, Prod.Lex.toLex_lt_toLex]

/-- The day before, within a month. -/
def Date.dayBefore (d : Date) (h : 2 ≤ d.day) : Date :=
  { d with
    day := d.day - 1
    day_pos := by omega
    day_le := (Nat.sub_le _ _).trans d.day_le }

/-- From the second day of a month on, the previous day differs in the day only. -/
theorem Date.eq_dayBefore {d d' : Date} (h : d ⋖ d') (hday : 2 ≤ d'.day) :
    d = d'.dayBefore hday := by
  have hlt : d'.dayBefore hday < d' :=
    Date.lt_iff.2 (.inr ⟨rfl, .inr ⟨rfl, by simp [dayBefore]; omega⟩⟩)
  rcases lt_trichotomy d (d'.dayBefore hday) with hd | hd | hd
  · exact absurd hlt (h.2 hd)
  · exact hd
  · have h₁ := Date.lt_iff.1 hd
    have h₂ := Date.lt_iff.1 h.1
    simp only [dayBefore] at h₁
    omega

/-- Day 0 of a month, as `mktime` takes it: the last day of the month before. -/
def mktimeDayZero (y m : Nat) : Nat × Nat × Nat :=
  if m = 1 then (y - 1, 12, 31) else (y, m - 1, daysInMonth y (m - 1))

/-! ## Texts of points in time -/

/-- The text of a point in time in the format `yyyy-mm-dd hh24:mi:ss`. -/
def stampText (y m d h mi s : Nat) : String :=
  String.ofList (triple 4 2 2 '-' y m d ++ ' ' :: triple 2 2 2 ':' h mi s)

/-- `to_char(B_TIME, 'yyyy-mm-dd hh24:mi:ss')`. -/
def toChar (t : Timestamp) : String :=
  stampText t.date.year t.date.month t.date.day t.time.hour t.time.min t.time.sec

/-- `string.format("%04d-%02d-%02d 00:00:00", y, m, d)`. -/
def startOf (y m d : Nat) : String := stampText y m d 0 0 0

/-- `string.format("%04d-%02d-%02d 23:59:59", y, m, d)`. -/
def endOf (y m d : Nat) : String := stampText y m d 23 59 59

example : startOf 2016 3 1 = "2016-03-01 00:00:00" ∧ endOf 2016 2 29 = "2016-02-29 23:59:59" := by
  decide

/-- The texts of points in time compare as the points do. -/
theorem stampText_lt_iff {y m d h mi s y' m' d' h' mi' s' : Nat}
    (hy : y < 10 ^ 4) (hm : m < 10 ^ 2) (hd : d < 10 ^ 2)
    (hh : h < 10 ^ 2) (hmi : mi < 10 ^ 2) (hs : s < 10 ^ 2)
    (hy' : y' < 10 ^ 4) (hm' : m' < 10 ^ 2) (hd' : d' < 10 ^ 2)
    (hh' : h' < 10 ^ 2) (hmi' : mi' < 10 ^ 2) (hs' : s' < 10 ^ 2) :
    stampText y m d h mi s < stampText y' m' d' h' mi' s' ↔
      (y < y' ∨ y = y' ∧ (m < m' ∨ m = m' ∧ d < d')) ∨
        (y = y' ∧ m = m' ∧ d = d') ∧ (h < h' ∨ h = h' ∧ (mi < mi' ∨ mi = mi' ∧ s < s')) := by
  have hblank : ¬ ' ' < ' ' := by decide
  rw [String.lt_iff_toList_lt]
  simp only [stampText, String.toList_ofList]
  rw [append_lt_append_iff (by rw [length_triple _ hy hm hd, length_triple _ hy' hm' hd']),
    List.cons_lt_cons_iff, triple_lt_iff _ hy hm hd hy' hm' hd',
    triple_lt_iff _ hh hmi hs hh' hmi' hs', triple_inj _ hy hm hd hy' hm' hd']
  simp only [hblank, false_or, true_and]

section
variable (t : Timestamp) {y m d : Nat}

/-- Each part of a time fits into the digits that it is written with. -/
theorem Timestamp.fits : t.date.year < 10 ^ 4 ∧ t.date.month < 10 ^ 2 ∧ t.date.day < 10 ^ 2 ∧
    t.time.hour < 10 ^ 2 ∧ t.time.min < 10 ^ 2 ∧ t.time.sec < 10 ^ 2 := by
  have hy := t.date.year_le
  have hm := t.date.month_le
  have hd := t.date.day_le
  have hd' := daysInMonth_le t.date.year t.date.month
  have hh := t.time.hour_lt
  have hmi := t.time.min_lt
  have hs := t.time.sec_lt
  omega

/-- A point in time comes no later than the end of a day exactly when its date does. -/
theorem toChar_le_endOf (hy : y < 10 ^ 4) (hm : m < 10 ^ 2) (hd : d < 10 ^ 2) :
    toChar t ≤ endOf y m d ↔ ¬ (y < t.date.year ∨ y = t.date.year ∧
      (m < t.date.month ∨ m = t.date.month ∧ d < t.date.day)) := by
  obtain ⟨hy', hm', hd', hh', hmi', hs'⟩ := t.fits
  have hh := t.time.hour_lt
  have hmi := t.time.min_lt
  have hs := t.time.sec_lt
  rw [← not_lt, toChar, endOf, stampText_lt_iff hy hm hd (by decide) (by decide) (by decide) hy' hm'
    hd' hh' hmi' hs']
  omega

/-- A point in time comes no earlier than the start of a day exactly when its date does. -/
theorem startOf_le_toChar (hy : y < 10 ^ 4) (hm : m < 10 ^ 2) (hd : d < 10 ^ 2) :
    startOf y m d ≤ toChar t ↔ ¬ (t.date.year < y ∨ t.date.year = y ∧
      (t.date.month < m ∨ t.date.month = m ∧ t.date.day < d)) := by
  obtain ⟨hy', hm', hd', hh', hmi', hs'⟩ := t.fits
  rw [← not_lt, toChar, startOf, stampText_lt_iff hy' hm' hd' hh' hmi' hs' hy hm hd (by decide)
    (by decide) (by decide)]
  omega

end

end TelecomSuite.CallOut
