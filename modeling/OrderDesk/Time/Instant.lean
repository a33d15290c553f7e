import OrderDesk.Time.Span

/-!
Instants: points of a clock, in nanoseconds since 1970. A clock may be set back.
-/

namespace OrderDesk

structure Instant where
  nanos : Int
deriving DecidableEq, Repr

namespace Instant

def ofSecs (s : Int) : Instant := ⟨s * 1000000000⟩

def least : Instant := ofSecs (-8334601228800)

/-- The longest span that an instant can be moved by. -/
def farthest : Span := ⟨9223372036854775807000000⟩

def before? (t : Instant) (d : Span) : Option Instant :=
  if d.nanos ≤ farthest.nanos ∧ least.nanos ≤ t.nanos - d.nanos then some ⟨t.nanos - d.nanos⟩
  else none

def greatest : Instant := ⟨8210266876799999999999⟩

def move? (t : Instant) (nanos : Int) : Option Instant :=
  let n := t.nanos + nanos
  if least.nanos ≤ n ∧ n ≤ greatest.nanos then some ⟨n⟩ else none

def millisSince (t start : Instant) : Int := (t.nanos - start.nanos).tdiv 1000000

def sample : Instant := ofSecs 1735689600

end Instant

end OrderDesk
