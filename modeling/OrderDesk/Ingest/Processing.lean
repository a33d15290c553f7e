import OrderDesk.Ingest.Attempts
import OrderDesk.Order.Validation
import OrderDesk.Wire.Order

/-!
Processing a message: it is told from those already processed, decoded, validated and handled.
-/

namespace OrderDesk.Pipeline

def carry (w : Pipeline) (m : Message) (stop : Stop) : Except OrderError Outcome × Pipeline :=
  if w.keys.contains m.processedKey then w.skip m
  else match Wire.decodeOrder m.bytes with
    | .error _ =>
      (w.note .error "Failed to deserialize message into an order").drop m .malformed
    | .ok o =>
      match o.validate with
      | .error _ => (w.note .warn "Order validation failed").drop m .invalid
      | .ok () => w.handle m o stop

def process (w : Pipeline) (m : Message) (stop : Stop) : Except OrderError Outcome × Pipeline :=
  let (r, w) := (w.record (.began m)).carry m stop
  (r, w.record (.ended w.now m r))

/-- Processes a message on its own: only a closed pipeline interrupts it. -/
def processMessage (w : Pipeline) (m : Message) : Except OrderError Outcome × Pipeline :=
  w.process m (if w.stopped then .cancel 0 else .never)

/-- Processes a message on its own and closes the pipeline some milliseconds after the start; without
a delay it is closed first. -/
def processAndClose (w : Pipeline) (m : Message) (after : Nat) :
    Except OrderError Outcome × Pipeline :=
  let time := w.wakeAfter after
  if after = 0 then w.close.processMessage m
  else if w.stopped then
    let (r, w) := w.processMessage m
    (r, (w.passTo time).close)
  else
    let (r, w) := w.process m (.close time)
    (r, if w.stopped then w else (w.passTo time).close)

end OrderDesk.Pipeline
