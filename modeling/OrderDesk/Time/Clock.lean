import OrderDesk.Time.Instant

/-!
Clocks. A trial clock stands still until it is set; a running clock is not set, and has moved on a
little at each next look.
-/

namespace OrderDesk

structure Clock where
  now : Instant
  running : Bool
deriving DecidableEq, Repr

namespace Clock

def start (running : Bool) : Clock := ⟨.sample, running⟩

def look (c : Clock) : Clock :=
  if c.running then { c with now := (c.now.move? 1).getD c.now } else c

/-- The clock set forward by some nanoseconds, or back by a negative number, unless it runs. It is
not set beyond the calendar. -/
def advance? (c : Clock) (nanos : Int) : Option Clock :=
  if c.running then some c else (c.now.move? nanos).map fun now => { c with now }

end Clock

end OrderDesk
