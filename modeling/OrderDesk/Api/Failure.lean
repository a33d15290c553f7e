import OrderDesk.Order.Error
import OrderDesk.Text.Decimal

/-!
Failures as a client sees them: a status and a fixed message for each kind. What exactly went wrong
stays inside.
-/

namespace OrderDesk.Api

inductive Failure where
  | badRequest
  | order (cause : OrderError)
deriving DecidableEq, Repr

namespace Failure

def status : Failure → Nat
  | .badRequest => 400
  | .order (.notFound _) => 404
  | .order (.invalidInput _) => 400
  | .order (.storage _) => 500
  | .order (.messaging _) => 500

def message : Failure → String
  | .badRequest => "Invalid request parameters"
  | .order (.notFound _) => "Order not found"
  | .order (.invalidInput _) => "Invalid request parameters"
  | .order (.storage _) => "Database error"
  | .order (.messaging _) => "Kafka service error"

def text (f : Failure) : String :=
  "[" ++ Text.Decimal.natText f.status ++ "] " ++ f.message

def cause : Failure → Option OrderError
  | .badRequest => none
  | .order e => some e

end Failure

end OrderDesk.Api
