import OrderDesk.Log.Message
import OrderDesk.Order.Error

/-!
A message log that follows a script: each poll takes the next entry, and after the last one every
poll is idle. Commits are kept in their order.
-/

namespace OrderDesk

inductive Polled where
  | message (m : Message)
  | idle
  | failed (e : LogError)
deriving DecidableEq, Repr

structure ScriptedLog where
  script : List Polled
  committed : List Message
  refusals : List Bool
  refusing : Bool
  closed : Bool
  polls : Nat
deriving DecidableEq, Repr

namespace ScriptedLog

def empty : ScriptedLog := ⟨[], [], [], false, false, 0⟩

def push (l : ScriptedLog) (p : Polled) : ScriptedLog := { l with script := l.script ++ [p] }

def closedError : LogError := .poll "consumer is closed"

def refusal (m : Message) : LogError :=
  .commit ("rejected offset " ++ Text.Decimal.intText m.offset.toInt ++ " on partition " ++
    Text.Decimal.intText m.partition.toInt)

def accepts (l : ScriptedLog) : Bool := !l.refusals.headD l.refusing

def commit (l : ScriptedLog) (m : Message) : Except LogError Unit × ScriptedLog :=
  if l.accepts then
    (.ok (), { l with refusals := l.refusals.tail, committed := l.committed ++ [m] })
  else (.error (refusal m), { l with refusals := l.refusals.tail })

def answerCommits (l : ScriptedLog) (refusals : List Bool) : ScriptedLog := { l with refusals }

def close (l : ScriptedLog) : ScriptedLog := { l with closed := true }

def idle (l : ScriptedLog) (count : Nat) : ScriptedLog := { l with polls := l.polls + count }

end ScriptedLog

end OrderDesk
