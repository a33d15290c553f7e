import OrderDesk.Ingest.Processing

/-!
Runs: polling and processing one message after the other until a time comes.
-/

namespace OrderDesk.Pipeline

/-- Has purges fall due from now on, if they do not yet. -/
def startCleaning (w : Pipeline) : Pipeline :=
  let every := w.settings.cleanupInterval.millisUp
  if every = 0 then w.note .warn "Cleanup interval is zero, processed keys are never purged"
  else if w.nextPurge.isSome ∨ w.stopped then w
  else { w with nextPurge := some (w.now + every) }

/-- Acts on what a poll brought. A failure is noted and ends nothing. -/
def react (w : Pipeline) (stop : Stop) : Polled → Pipeline
  | .idle => w
  | .failed _ => w.note .error "Message log poll failed"
  | .message m =>
    match w.process m stop with
    | (.ok _, w) => w
    | (.error _, w) => w.note .error "Failed to process message"

def idleUntil (w : Pipeline) (time : Nat) : Pipeline :=
  if w.now < time then
    let every := min w.settings.pollTimeout.millisUp longestWait
    let count := (time - w.now + every - 1) / every
    { (w.passTo time).record (.idled count) with log := w.log.idle count }
  else w

def take (w : Pipeline) (p : Polled) (script : List Polled) : Pipeline :=
  { w.record (.polled p) with log := { w.log with script, polls := w.log.polls + 1 } }

def consume (time : Nat) : List Polled → Pipeline → Pipeline
  | [], w => w.idleUntil time
  | p :: script, w =>
    if time ≤ w.now then w
    else consume time script ((w.take p script).react (.cancel time) p)

/-- Polls until a time. A closed log fails every poll at once, and nothing else happens. -/
def pollUntil (w : Pipeline) (time : Nat) : Pipeline :=
  if w.log.closed then
    if w.now < time then
      let p := .failed ScriptedLog.closedError
      ({ w.record (.polled p) with log := w.log.idle 1 }.react (.cancel time) p).passTo time
    else w
  else consume time w.log.script w

/-- Polls and processes until a time; if it has come before the start, polls nothing. -/
def runUntil (w : Pipeline) (time : Nat) : Pipeline :=
  ((w.startCleaning.note .info "Ingestion pipeline started").pollUntil time).note .info
    "Ingestion pipeline shutting down"

def run (w : Pipeline) (forMillis : Nat) (cancelled : Bool) : Pipeline :=
  let time := w.wakeAfter forMillis
  (w.runUntil (if cancelled then w.now else time)).passTo time

def poll (w : Pipeline) (timeout : Nat) : Polled × Pipeline :=
  if w.log.closed then (.failed ScriptedLog.closedError, { w with log := w.log.idle 1 })
  else match w.log.script with
    | [] => (.idle, { w.passTo (w.wakeAfter timeout) with log := w.log.idle 1 })
    | p :: script =>
      (p, { w with log := { w.log with script, polls := w.log.polls + 1 } })

end OrderDesk.Pipeline
