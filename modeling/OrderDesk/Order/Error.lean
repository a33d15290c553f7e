import OrderDesk.Order.Basic

/-!
What can go wrong with an order. The four causes decide what becomes of a message and what a client
is told: only a failure of storage may pass when the same write is tried again.
-/

namespace OrderDesk

inductive OrderError where
  | notFound (text : String)
  | storage (text : String)
  | invalidInput (text : String)
  | messaging (text : String)
deriving DecidableEq, Repr

namespace OrderError

def message : OrderError → String
  | .notFound s => "not found: " ++ s
  | .storage s => "database error: " ++ s
  | .invalidInput s => "invalid input: " ++ s
  | .messaging s => "messaging error: " ++ s

def isNotFound : OrderError → Bool
  | .notFound _ => true
  | _ => false

/-- Whether the same write may succeed later. -/
def isTemporary : OrderError → Bool
  | .storage _ => true
  | _ => false

end OrderError

inductive LogError where
  | connectionFailed (text : String)
  | subscriptionFailed (topic reason : String)
  | poll (text : String)
  | commit (text : String)
  | close (text : String)
deriving DecidableEq, Repr

def LogError.message : LogError → String
  | .connectionFailed s => "connection failed: " ++ s
  | .subscriptionFailed t s => "subscription failed for topic '" ++ t ++ "': " ++ s
  | .poll s => "poll failed: " ++ s
  | .commit s => "commit failed: " ++ s
  | .close s => "close failed: " ++ s

def LogError.toOrderError (e : LogError) : OrderError := .messaging e.message

inductive PublishError where
  | connectionFailed (text : String)
  | serialization (uid reason : String)
  | send (topic reason : String)
deriving DecidableEq, Repr

def PublishError.message : PublishError → String
  | .connectionFailed s => "connection failed: " ++ s
  | .serialization uid s => "failed to serialize order " ++ uid ++ ": " ++ s
  | .send t s => "failed to publish to topic '" ++ t ++ "': " ++ s

end OrderDesk
