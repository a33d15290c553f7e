import OrderDesk.Time.Span

/-!
Retries with a growing delay. The delay before attempt `n` is the initial delay times the `n`th power
of the multiplier, computed in binary64 seconds, and never more than the largest delay.
-/

namespace OrderDesk

structure RetryPolicy where
  maxRetries : Nat
  initialDelay : Span
  maxDelay : Span
  multiplier : Binary64
deriving DecidableEq, Repr

namespace RetryPolicy

/-- Three retries, after a base of one second that doubles, an hour at most. -/
def standard : RetryPolicy := ⟨3, .ofSecs 1, .ofSecs 3600, .two⟩

def mostAttempts : Nat := twoTo 64 - 1

def maxAttempts (p : RetryPolicy) : Nat := min (p.maxRetries + 1) mostAttempts

theorem maxAttempts_pos (p : RetryPolicy) : 0 < p.maxAttempts := by
  have hmost : 0 < mostAttempts := by decide
  exact Nat.lt_min.2 ⟨Nat.succ_pos _, hmost⟩

/-- The largest power that is taken; later attempts take it too. -/
def mostPower : Nat := twoTo 31 - 1

def delay (p : RetryPolicy) (attempt : Nat) : Span :=
  let seconds := p.initialDelay.toBinary64.mul (p.multiplier.pow (min attempt mostPower))
  match Span.ofBinary64? seconds with
  | some d => d.min p.maxDelay
  | none => p.maxDelay

end RetryPolicy

end OrderDesk
