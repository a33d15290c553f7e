import OrderDesk.Numeric.Binary64

/-!
Spans of time: whole nanoseconds, up to `2 ^ 64` seconds. A span has a value in binary64 seconds,
and seconds in binary64 give back the nearest nanosecond.
-/

namespace OrderDesk

structure Span where
  nanos : Nat
deriving DecidableEq, Repr, Inhabited

namespace Span

def nanosPerSecond : Nat := 1000000000

def ofSecs (s : Nat) : Span := ⟨s * nanosPerSecond⟩
def ofMillis (ms : Nat) : Span := ⟨ms * 1000000⟩

def secs (d : Span) : Nat := d.nanos / nanosPerSecond

def subsecNanos (d : Span) : Nat := d.nanos % nanosPerSecond

def millis (d : Span) : Nat := d.nanos / 1000000

/-- Milliseconds, a part of one counted as one: the time a sleeper wakes. -/
def millisUp (d : Span) : Nat := d.millis + min 1 (d.nanos % 1000000)

def isZero (d : Span) : Bool := d.nanos = 0

def min (a b : Span) : Span := if a.nanos ≤ b.nanos then a else b

/-- The value in seconds: the whole seconds and the rest are rounded apart, then added. -/
def toBinary64 (d : Span) : Binary64 :=
  .add (.ofNat d.secs) (.div (.ofNat d.subsecNanos) (.ofNat nanosPerSecond))

/-- The nearest whole nanosecond, a half to the even one. There is no span for a negative number,
one of `2 ^ 64` seconds or more, or none. -/
def ofBinary64? : Binary64 → Option Span
  | .finite s m e =>
    if m = 0 then some ⟨0⟩
    else if s ∨ twoTo 64 * twoTo (-e).toNat ≤ m * twoTo e.toNat then none
    else some ⟨Binary64.roundHalfEven (m * twoTo e.toNat * nanosPerSecond) (twoTo (-e).toNat)⟩
  | _ => none

end Span

end OrderDesk
