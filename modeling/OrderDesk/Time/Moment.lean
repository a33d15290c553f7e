/-!
Moments: a date of the proleptic Gregorian calendar and a time of day in UTC, to the nanosecond.
A leap second is the second second 59, so its nanoseconds start at one billion.
-/

namespace OrderDesk

namespace Moment

def isLeapYear (y : Int) : Bool := y % 4 = 0 && (y % 100 ≠ 0 || y % 400 = 0)

def daysIn (y : Int) (m : Nat) : Nat :=
  if m = 2 then (if isLeapYear y then 29 else 28)
  else if m = 4 ∨ m = 6 ∨ m = 9 ∨ m = 11 then 30
  else 31

def leastYear : Int := -262143
def mostYear : Int := 262142

def IsDate (y : Int) (m d : Nat) : Prop :=
  leastYear ≤ y ∧ y ≤ mostYear ∧ 1 ≤ m ∧ m ≤ 12 ∧ 1 ≤ d ∧ d ≤ daysIn y m

def IsTime (h min s nanos : Nat) : Prop :=
  h < 24 ∧ min < 60 ∧ s < 60 ∧ nanos < 2000000000 ∧ (1000000000 ≤ nanos → s = 59)

instance (y : Int) (m d : Nat) : Decidable (IsDate y m d) := by unfold IsDate; infer_instance

instance (h min s nanos : Nat) : Decidable (IsTime h min s nanos) := by
  unfold IsTime; infer_instance

def dayBefore (y : Int) (m d : Nat) : Int × Nat × Nat :=
  if 1 < d then (y, m, d - 1)
  else if 1 < m then (y, m - 1, daysIn y (m - 1))
  else (y - 1, 12, 31)

def dayAfter (y : Int) (m d : Nat) : Int × Nat × Nat :=
  if d < daysIn y m then (y, m, d + 1)
  else if m < 12 then (y, m + 1, 1)
  else (y + 1, 1, 1)

end Moment

structure Moment where
  year : Int
  month : Nat
  day : Nat
  hour : Nat
  minute : Nat
  second : Nat
  nanos : Nat
  isDate : Moment.IsDate year month day
  isTime : Moment.IsTime hour minute second nanos
deriving DecidableEq, Repr

namespace Moment

def of? (y : Int) (m d h min s nanos : Nat) : Option Moment :=
  if hd : IsDate y m d then
    if ht : IsTime h min s nanos then some ⟨y, m, d, h, min, s, nanos, hd, ht⟩ else none
  else none

theorem of?_fields (t : Moment) :
    of? t.year t.month t.day t.hour t.minute t.second t.nanos = some t := by
  simp [of?, t.isDate, t.isTime]

/-- The local fields moved to UTC by an offset of `minutes`, less than a day either way. Seconds and
what is below them stay. -/
def ofLocal? (minutes : Int) (y : Int) (m d h min s nanos : Nat) : Option Moment :=
  let t : Int := (h : Int) * 60 + min - minutes
  let (y, m, d) :=
    if t < 0 then dayBefore y m d else if 1440 ≤ t then dayAfter y m d else (y, m, d)
  let t := (t % 1440).toNat
  of? y m d (t / 60) (t % 60) s nanos

end Moment

end OrderDesk
