/-!
What is counted, and what is written to the journal.
-/

namespace OrderDesk

inductive Outcome where
  | processed
  | duplicate
  | malformed
  | invalid
  | rejected
  | exhausted
  | cancelled
deriving DecidableEq, Repr

namespace Outcome

def all : List Outcome :=
  [.processed, .duplicate, .malformed, .invalid, .rejected, .exhausted, .cancelled]

def label : Outcome → String
  | .processed => "processed"
  | .duplicate => "duplicate"
  | .malformed => "malformed"
  | .invalid => "invalid"
  | .rejected => "rejected"
  | .exhausted => "exhausted"
  | .cancelled => "cancelled"

end Outcome

inductive WriteKind where
  | insert
  | replace
deriving DecidableEq, Repr

def WriteKind.label : WriteKind → String
  | .insert => "insert"
  | .replace => "replace"

inductive Counter where
  | message (o : Outcome)
  | retry
  | duplicate
  | hit
  | miss
  | upsert (k : WriteKind)
deriving DecidableEq, Repr

inductive Level where
  | error
  | warn
  | info
  | debug
deriving DecidableEq, Repr

def Level.name : Level → String
  | .error => "ERROR"
  | .warn => "WARN"
  | .info => "INFO"
  | .debug => "DEBUG"

structure Event where
  level : Level
  text : String
deriving DecidableEq, Repr

end OrderDesk
