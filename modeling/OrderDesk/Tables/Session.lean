import OrderDesk.Desk.Counter
import OrderDesk.Order.Error
import OrderDesk.Tables.Statement

/-!
Sessions with a server: programs that send statements and go on with the replies. A transaction ends
with a commit only if all of it succeeded, and with a rollback otherwise.
-/

namespace OrderDesk.Tables

inductive Session (α : Type) where
  | done (a : α)
  | send (s : Statement) (next : Reply → Session α)
  | count (c : Counter) (next : Session α)
  | note (e : Event) (next : Session α)

structure Record where
  sent : List Statement
  counted : List Counter
  journal : List Event
deriving DecidableEq, Repr

abbrev Server (σ : Type) := Statement → σ → Reply × σ

namespace Session

def bind {α β : Type} : Session α → (α → Session β) → Session β
  | .done a, f => f a
  | .send s next, f => .send s fun r => (next r).bind f
  | .count c next, f => .count c (next.bind f)
  | .note e next, f => .note e (next.bind f)

instance : Monad Session where
  pure := .done
  bind := bind

def perform (s : Statement) : Session Reply := .send s .done

def run {α σ : Type} (server : Server σ) : Session α → σ → α × Record × σ
  | .done a, w => (a, ⟨[], [], []⟩, w)
  | .send s next, w =>
    let r := server s w
    let (a, t, w) := (next r.1).run server r.2
    (a, { t with sent := s :: t.sent }, w)
  | .count c next, w =>
    let (a, t, w) := next.run server w
    (a, { t with counted := c :: t.counted }, w)
  | .note e next, w =>
    let (a, t, w) := next.run server w
    (a, { t with journal := e :: t.journal }, w)

end Session

abbrev Work := ExceptT OrderError Session

/-! ## Replies -/

inductive ReplyFault where
  | refused (message : String)
  | noRow
  | null (column : String)
  | mismatched (column : String)
deriving DecidableEq, Repr

def ReplyFault.message : ReplyFault → String
  | .refused m => "error returned from database: " ++ m
  | .noRow =>
    "no rows returned by a query that expected to return at least one row"
  | .null c =>
    "error occurred while decoding column " ++ c ++
      ": unexpected null; try decoding as an `Option`"
  | .mismatched c => "error occurred while decoding column " ++ c ++ ": mismatched types"

/-- A failure with an order: what was looked for is missing, or the reply is of no use. -/
def ReplyFault.toOrderError (context uid : String) : ReplyFault → OrderError
  | .noRow => .notFound (context ++ " " ++ uid)
  | f => .storage (context ++ " " ++ uid ++ ": " ++ f.message)

def Reply.rowList : Reply → Except ReplyFault (List (List Cell))
  | .rows rs => .ok rs
  | .affected _ => .ok []
  | .refused m => .error (.refused m)

def Reply.count : Reply → Except ReplyFault Nat
  | .rows rs => .ok rs.length
  | .affected n => .ok n
  | .refused m => .error (.refused m)

abbrev RowReader (α : Type) := List Cell → Except ReplyFault α

def Reply.all {α : Type} (read : RowReader α) (r : Reply) : Except ReplyFault (List α) :=
  r.rowList.bind fun rs => rs.mapM read

def Reply.first? {α : Type} (read : RowReader α) (r : Reply) : Except ReplyFault (Option α) :=
  r.rowList.bind fun
    | [] => .ok none
    | row :: _ => (read row).map some

def Reply.first {α : Type} (read : RowReader α) (r : Reply) : Except ReplyFault α :=
  (r.first? read).bind fun
    | some a => .ok a
    | none => .error .noRow

namespace Work

def note (e : Event) : Work Unit := ExceptT.lift (.note e (.done ()))

def count (c : Counter) : Work Unit := ExceptT.lift (.count c (.done ()))

def send {α : Type} (s : Statement) (read : Reply → Except ReplyFault α)
    (fail : ReplyFault → OrderError) : Work α := do
  match read (← ExceptT.lift (Session.perform s)) with
  | .ok a => pure a
  | .error f => throw (fail f)

def ask {α : Type} (context uid : String) (s : Statement)
    (read : Reply → Except ReplyFault α) : Work α :=
  send s read (ReplyFault.toOrderError context uid)

/-- The last rollback of a transaction that was given up: nothing depends on its reply. -/
def giveUp {α : Type} (e : OrderError) : Work α := do
  let _ ← ExceptT.lift (Session.perform .rollback)
  throw e

def beginFailure (f : ReplyFault) : OrderError :=
  .storage ("failed to begin transaction: " ++ f.message)

def begin (readOnly : Bool) : Work Unit := do
  let _ ← send .begin Reply.count beginFailure
  if readOnly then
    match (← ExceptT.lift (Session.perform .readOnly)).count with
    | .ok _ => pure ()
    | .error f => giveUp (beginFailure f)

/-- Commits after a success, and rolls back after a failure. -/
def finish {α : Type} : Except OrderError α → Work α
  | .ok a => do
    match (← ExceptT.lift (Session.perform .commit)).count with
    | .ok _ => pure a
    | .error f => giveUp (.storage ("commit failed: " ++ f.message))
  | .error e => do
    match (← ExceptT.lift (Session.perform .rollback)).count with
    | .ok _ => throw e
    | .error f =>
      note ⟨.error, "Rollback failed"⟩
      giveUp (.storage (e.message ++ "; rollback failed: " ++ f.message))

def transaction {α : Type} (readOnly : Bool) (work : Work α) : Work α := do
  begin readOnly
  let r ← ExceptT.lift work.run
  finish r

end Work

end OrderDesk.Tables
