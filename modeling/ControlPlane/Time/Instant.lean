/-! # Instants: UTC times of the proleptic Gregorian calendar

An instant is its calendar fields, down to nanoseconds. Second 60 is a leap second, after
every part of second 59 and before the next minute, so fields compare in order of their
weight; `stamp` weighs them.
-/
namespace ControlPlane

namespace Calendar

def isLeapYear (year : Int) : Bool := year % 4 == 0 && (year % 100 != 0 || year % 400 == 0)

def daysIn (year : Int) : Nat → Nat
  | 2 => if isLeapYear year then 29 else 28
  | 4 | 6 | 9 | 11 => 30
  | _ => 31

def firstYear : Int := -262143
def lastYear : Int := 262142

end Calendar

structure Instant where
  year : Int
  month : Nat
  day : Nat
  hour : Nat
  minute : Nat
  second : Nat
  nanos : Nat
  inCalendar : (Calendar.firstYear ≤ year ∧ year ≤ Calendar.lastYear) ∧ (1 ≤ month ∧ month ≤ 12) ∧
    (1 ≤ day ∧ day ≤ Calendar.daysIn year month) ∧ hour < 24 ∧ minute < 60 ∧ second ≤ 60 ∧
    nanos < 1000000000
  deriving DecidableEq

namespace Instant

def epoch : Instant := ⟨1970, 1, 1, 0, 0, 0, 0, by decide⟩

instance : Inhabited Instant := ⟨epoch⟩

def ofFields? (year : Int) (month day hour minute second nanos : Nat) : Option Instant :=
  if h : (Calendar.firstYear ≤ year ∧ year ≤ Calendar.lastYear) ∧ (1 ≤ month ∧ month ≤ 12) ∧
      (1 ≤ day ∧ day ≤ Calendar.daysIn year month) ∧ hour < 24 ∧ minute < 60 ∧ second ≤ 60 ∧
      nanos < 1000000000
  then some ⟨year, month, day, hour, minute, second, nanos, h⟩ else none

/-- The fields as one number in mixed radix: 13 months, 32 days, 24 hours, 60 minutes, 61
seconds. -/
def stamp (t : Instant) : Int :=
  (((((t.year * 13 + t.month) * 32 + t.day) * 24 + t.hour) * 60 + t.minute) * 61 + t.second) *
    1000000000 + t.nanos

instance : LE Instant := ⟨fun a b => a.stamp ≤ b.stamp⟩
instance : LT Instant := ⟨fun a b => a.stamp < b.stamp⟩
instance (a b : Instant) : Decidable (a ≤ b) := inferInstanceAs (Decidable (a.stamp ≤ b.stamp))
instance (a b : Instant) : Decidable (a < b) := inferInstanceAs (Decidable (a.stamp < b.stamp))

/-- The day before, as year, month and day. -/
def dayBefore (year : Int) (month day : Nat) : Int × Nat × Nat :=
  if 1 < day then (year, month, day - 1)
  else if 1 < month then (year, month - 1, Calendar.daysIn year (month - 1))
  else (year - 1, 12, 31)

/-- The day after, as year, month and day. -/
def dayAfter (year : Int) (month day : Nat) : Int × Nat × Nat :=
  if day < Calendar.daysIn year month then (year, month, day + 1)
  else if month < 12 then (year, month + 1, 1)
  else (year + 1, 1, 1)

/-- The instant `minutes` before this one, less than a day away either way;
nothing beyond the calendar. -/
def minusMinutes? (t : Instant) (minutes : Int) : Option Instant :=
  let total : Int := t.hour * 60 + t.minute - minutes
  let (year, month, day) :=
    if total < 0 then dayBefore t.year t.month t.day
    else if 1440 ≤ total then dayAfter t.year t.month t.day
    else (t.year, t.month, t.day)
  let inDay := (total % 1440).toNat
  ofFields? year month day (inDay / 60) (inDay % 60) t.second t.nanos

end Instant
end ControlPlane
