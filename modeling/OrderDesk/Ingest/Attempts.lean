import OrderDesk.Ingest.Ending

/-!
Attempts to handle an order. A failure that may pass is tried again after a backoff, as often as the
policy allows; any other failure is final. A stop interrupts a wait, and no attempt starts after it.
-/

namespace OrderDesk.Pipeline

def nextTurn (w : Pipeline) : Turn := w.turns.headD .plain

def call (w : Pipeline) (o : Order) : Pipeline :=
  { w.record (.called w.now o) with
    turns := w.turns.tail, calls := w.calls ++ [⟨w.now, o.uid⟩] }

def finishTurn (w : Pipeline) (o : Order) (turn : Turn) : Except OrderError Unit × Pipeline :=
  let timeout := w.settings.handlerTimeout
  if timeout.millisUp < min turn.stall longestWait then
    (.error (.storage
      ("handler timed out after " ++ Text.Decimal.natText timeout.millis ++ "ms")), w)
  else match turn.error with
    | some e => (.error e, w)
    | none => w.access (Desk.persist o)

def answer (w : Pipeline) (o : Order) (turn : Turn) : Except OrderError Unit × Pipeline :=
  let (r, w) := w.finishTurn o turn
  (r, w.record (.answered w.now r))

def takeTurn (w : Pipeline) (o : Order) (turn : Turn) (stop : Stop) :
    Option (Except OrderError Unit) × Pipeline :=
  match w.waitUntil (w.wakeAfter (min turn.stall w.settings.handlerTimeout.millisUp)) stop with
  | (false, w) => (none, w)
  | (true, w) =>
    let (r, w) := w.answer o turn
    (some r, w)

/-- One attempt, with no result if it is interrupted. None starts after the stop. -/
def attempt (w : Pipeline) (o : Order) (stop : Stop) :
    Option (Except OrderError Unit) × Pipeline :=
  match w.waitUntil w.now stop with
  | (false, w) => (none, w)
  | (true, w) => (w.call o).takeTurn o w.nextTurn stop

/-- The wait before an attempt: none before the first. -/
def backOff (w : Pipeline) (n : Nat) (stop : Stop) : Bool × Pipeline :=
  if n = 0 then (true, w)
  else
    let w := (w.note .debug "Retrying message after error").count .retry
    w.waitUntil (w.wakeAfter (w.settings.retry.delay n).millisUp) stop

def neverTried : OrderError := .storage "no handler attempt was made"

/-- Attempts from number `n` on, at most `left` of them; `last` is the latest failure. -/
def attempts (m : Message) (o : Order) (stop : Stop) :
    Nat → Nat → Option OrderError → Pipeline → Except OrderError Outcome × Pipeline
  | 0, _, last, w =>
    (w.note .error "All retries exhausted, committing offset and skipping message").conclude m
      "after exhausting retries" .exhausted (.error (last.getD neverTried))
  | left + 1, n, _, w =>
    match w.backOff n stop with
    | (false, w) => w.abandon
    | (true, w) =>
      match w.attempt o stop with
      | (none, w) => w.abandon
      | (some (.ok ()), w) =>
        match w.conclude m "after handling" .processed (.ok .processed) with
        | (.ok r, w) => (.ok r, w.note .info "Message successfully processed")
        | (.error e, w) => (.error e, w)
      | (some (.error e), w) =>
        if e.isTemporary then
          attempts m o stop left (n + 1) (some e) (w.note .warn "Handler error")
        else
          (w.note .error
            "Permanent handler error, committing offset and skipping message").conclude m
            "after permanent handler error" .rejected (.error e)

def handle (w : Pipeline) (m : Message) (o : Order) (stop : Stop) :
    Except OrderError Outcome × Pipeline :=
  attempts m o stop w.settings.retry.maxAttempts 0 none w

end OrderDesk.Pipeline
