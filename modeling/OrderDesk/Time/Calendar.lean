import OrderDesk.Time.Instant
import OrderDesk.Time.Moment

/-!
Dates as day numbers, and moments as instants. A year is taken to start in March, so that the day
that leap years add is its last; then months and years have lengths that repeat every 400 years.
-/

namespace OrderDesk

namespace Moment

def dayNumber (y : Int) (m d : Nat) : Int :=
  let y := if m ≤ 2 then y - 1 else y
  let era := y.fdiv 400
  let yearOfEra := (y.fmod 400).toNat
  let dayOfYear := (153 * ((m + 9) % 12) + 2) / 5 + (d - 1)
  let dayOfEra := yearOfEra * 365 + yearOfEra / 4 - yearOfEra / 100 + dayOfYear
  era * 146097 + dayOfEra - 719468

def dateOf (n : Int) : Int × Nat × Nat :=
  let n := n + 719468
  let era := n.fdiv 146097
  let dayOfEra := (n.fmod 146097).toNat
  let yearOfEra := (dayOfEra - dayOfEra / 1460 + dayOfEra / 36524 - dayOfEra / 146096) / 365
  let dayOfYear := dayOfEra - (365 * yearOfEra + yearOfEra / 4 - yearOfEra / 100)
  let month := (5 * dayOfYear + 2) / 153
  let d := dayOfYear - (153 * month + 2) / 5 + 1
  let m := if month < 10 then month + 3 else month - 9
  let y : Int := yearOfEra + era * 400
  (if m ≤ 2 then y + 1 else y, m, d)

def nanosOfDay (t : Moment) : Nat :=
  ((t.hour * 60 + t.minute) * 60 + t.second) * 1000000000 + t.nanos

/-- The instant of a moment; a leap second is one with the second after it. -/
def instant (t : Moment) : Instant :=
  ⟨dayNumber t.year t.month t.day * 86400000000000 + t.nanosOfDay⟩

end Moment

def Instant.moment? (t : Instant) : Option Moment :=
  let (y, m, d) := Moment.dateOf (t.nanos.fdiv 86400000000000)
  let n := (t.nanos.fmod 86400000000000).toNat
  let s := n / 1000000000
  Moment.of? y m d (s / 3600) (s / 60 % 60) (s % 60) (n % 1000000000)

end OrderDesk
