import OrderDesk.Desk.Reads
import OrderDesk.Ingest.Act
import OrderDesk.Ingest.ProcessedKeys
import OrderDesk.Ingest.Settings
import OrderDesk.Time.Clock

/-!
The ingestion pipeline, which brings the messages of a log to the desk as orders: what it holds, and
what becomes of it while time passes.

Time is virtual. It is counted in milliseconds and passes only while something waits: a handler that
stalls, a backoff, an idle poll. Purges of old keys fall due meanwhile. No wait is longer than thirty
years, whatever it was meant to be.
-/

namespace OrderDesk

/-- What the handler does with a call: it stalls, then fails, or else persists the order. -/
structure Turn where
  stall : Nat
  error : Option OrderError
deriving DecidableEq, Repr

def Turn.plain : Turn := ⟨0, none⟩

structure Call where
  time : Nat
  uid : String
deriving DecidableEq, Repr

/-- What may interrupt the handling of a message: nothing, a cancellation at an instant, or the
closing of the pipeline at an instant. -/
inductive Stop where
  | never
  | cancel (time : Nat)
  | close (time : Nat)
deriving DecidableEq, Repr

def Stop.due : Stop → Nat → Bool
  | .never, _ => false
  | .cancel d, t => d ≤ t
  | .close d, t => d ≤ t

structure Pipeline where
  settings : IngestSettings
  desk : Desk
  log : ScriptedLog
  keys : ProcessedKeys
  clock : Clock
  now : Nat
  nextPurge : Option Nat
  stopped : Bool
  turns : List Turn
  calls : List Call
  trace : List Act

namespace Pipeline

def start (settings : IngestSettings) (running : Bool) : Pipeline where
  settings := settings
  desk := .empty
  log := .empty
  keys := .empty
  clock := .start running
  now := 0
  nextPurge := none
  stopped := false
  turns := []
  calls := []
  trace := []

def history (w : Pipeline) : List Act := w.trace.reverse

def record (w : Pipeline) (a : Act) : Pipeline := { w with trace := a :: w.trace }

@[simp] theorem history_record (w : Pipeline) (a : Act) :
    (w.record a).history = w.history ++ [a] := List.reverse_cons

def note (w : Pipeline) (level : Level) (text : String) : Pipeline :=
  { w with desk := w.desk.note ⟨level, text⟩ }

def count (w : Pipeline) (c : Counter) : Pipeline := { w with desk := w.desk.count c }

@[simp] theorem history_note (w : Pipeline) (level : Level) (text : String) :
    (w.note level text).history = w.history := rfl

def access {α : Type} (w : Pipeline) (p : Access α) : α × Pipeline :=
  let r := p.run w.desk
  (r.1, { w with desk := r.2 })

/-! ## Time and processed keys -/

def mark (w : Pipeline) (key : String) : Pipeline :=
  { w.record (.marked key) with
    keys := w.keys.mark key w.clock.now, clock := w.clock.look }

def purge (w : Pipeline) (age : Span) : Nat × Pipeline :=
  let r := w.keys.purge age w.clock.now
  (r.1, { w.record (.dropped (w.keys.stale age w.clock.now)) with
    keys := r.2, clock := w.clock.look })

def cleanUp (w : Pipeline) : Pipeline :=
  let r := w.purge w.settings.maxAge
  if 0 < r.1 then r.2.note .debug "Processed keys cleaned" else r.2

/-- The longest that anything waits: thirty years of 365 days. -/
def longestWait : Nat := 30 * 365 * 86400000

def wakeAfter (w : Pipeline) (millis : Nat) : Nat := w.now + min millis longestWait

/-- Lets time pass. Of several purges that fall due meanwhile the first does all there is to do. -/
def passTo (w : Pipeline) (t : Nat) : Pipeline :=
  let w := match w.nextPurge with
    | none => w
    | some due =>
      if due ≤ t then
        let every := w.settings.cleanupInterval.millisUp
        { w.cleanUp with nextPurge := some (due + ((t - due) / every + 1) * every) }
      else w
  { w with now := max w.now t }

theorem passTo_eq (w : Pipeline) (t : Nat) :
    (∃ next, w.passTo t = { w.cleanUp with nextPurge := next, now := max w.now t }) ∨
      w.passTo t = { w with now := max w.now t } := by
  have hnow : w.cleanUp.now = w.now := by
    simp only [cleanUp]
    split <;> rfl
  simp only [passTo]
  split
  · exact .inr rfl
  · split
    · exact .inl ⟨_, by rw [hnow]⟩
    · exact .inr rfl

/-! ## Closing -/

/-- Stops the pipeline for good: purges end, keys are forgotten, and the log is closed. -/
def close (w : Pipeline) : Pipeline :=
  { (w.note .info "Closing ingestion pipeline").record .closed with
    stopped := true
    nextPurge := none
    keys := .empty
    log := w.log.close }

def interrupt (w : Pipeline) : Stop → Pipeline
  | .never => w
  | .cancel d => w.passTo d
  | .close d => (w.passTo d).close

def waitUntil (w : Pipeline) (t : Nat) (stop : Stop) : Bool × Pipeline :=
  if stop.due t then (false, w.interrupt stop) else (true, w.passTo t)

end Pipeline

end OrderDesk
