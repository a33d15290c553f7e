import OrderDesk.Tables.Query

/-!
Reading orders, each time as one transaction that only reads: an order is collected from its rows.
-/

namespace OrderDesk.Tables

open Work (ask)

def loadItems (uid : String) (last limit : Int64) : Work (List Item) :=
  ask "failed to get items of order" uid (selectItems uid last limit) (Reply.all readItemRow)

def complete (r : OrderRow) (limit : Option Int64) : Work Order := do
  let delivery ←
    ask "failed to get delivery of order" r.uid (selectDelivery r.uid) (Reply.first readDeliveryRow)
  let payment ←
    ask "failed to get payment of order" r.uid (selectPayment r.uid) (Reply.first readPaymentRow)
  let items ← match limit with
    | some limit => loadItems r.uid 0 limit
    | none => pure []
  ExceptT.mk (pure (r.order delivery payment items))

def loadOrder (uid : String) (limit : Option Int64) : Work Order := do
  let r ← ask "failed to get order" uid (selectOrder uid) (Reply.first readOrderRow)
  complete r limit

def completeAll (limit : Int64) : List OrderRow → Work (List Order)
  | [] => pure []
  | r :: rs => do
    let o ← complete r (some limit)
    let os ← completeAll limit rs
    pure (o :: os)

def loadOrders (limit : Int64) : Work (List Order) := do
  let rs ← Work.send (selectOrders limit) (Reply.all readOrderRow)
    fun f => .storage ("failed to get all orders: " ++ f.message)
  completeAll limit rs

def order (uid : String) : Work Order := .transaction true (loadOrder uid none)

/-- The first orders by uid, each with its first items, up to one limit for both. -/
def orders (limit : Int64) : Work (List Order) := .transaction true (loadOrders limit)

def items (uid : String) (last limit : Int64) : Work (List Item) :=
  .transaction true (loadItems uid last limit)

end OrderDesk.Tables
