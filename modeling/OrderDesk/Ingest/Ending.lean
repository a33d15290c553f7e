import OrderDesk.Ingest.Pipeline

/-!
How a message ends. It is committed once, whatever came of it, and counted with its outcome; only a
message whose handling is interrupted is left uncommitted, for the next start.
-/

namespace OrderDesk.Pipeline

def askCommit (w : Pipeline) (m : Message) : Except LogError Unit × Pipeline :=
  let r := w.log.commit m
  (r.1, { w.record (.committed m w.log.accepts) with log := r.2 })

def commit (w : Pipeline) (m : Message) (context : String) : Except OrderError Unit × Pipeline :=
  match w.askCommit m with
  | (.ok (), w) => (.ok (), w)
  | (.error e, w) =>
    (.error e.toOrderError, w.note .error ("Failed to commit offset " ++ context))

/-- Commits a message whose handling has ended, then marks and counts it. -/
def conclude (w : Pipeline) (m : Message) (context : String) (outcome : Outcome)
    (answer : Except OrderError Outcome) : Except OrderError Outcome × Pipeline :=
  match w.commit m context with
  | (.error e, w) => (.error e, w)
  | (.ok (), w) => (answer, (w.mark m.processedKey).count (.message outcome))

def drop (w : Pipeline) (m : Message) (outcome : Outcome) :
    Except OrderError Outcome × Pipeline :=
  match w.commit m "after dropping message" with
  | (.error e, w) => (.error e, w)
  | (.ok (), w) =>
    (.ok outcome,
      (w.count (.message outcome)).note .info "Committed offset and skipped message")

def abandon (w : Pipeline) : Except OrderError Outcome × Pipeline :=
  (.ok .cancelled,
    (w.note .warn "Shutdown during handling, leaving offset uncommitted").count
      (.message .cancelled))

/-- Commits a message again that was processed before; a refusal changes nothing. -/
def skip (w : Pipeline) (m : Message) : Except OrderError Outcome × Pipeline :=
  let w := w.note .debug "Skipping already processed message"
  let w := match w.askCommit m with
    | (.ok (), w) => w
    | (.error _, w) => w.note .error "Failed to commit duplicate message"
  (.ok .duplicate, (w.count .duplicate).count (.message .duplicate))

end OrderDesk.Pipeline
