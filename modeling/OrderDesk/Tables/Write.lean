import OrderDesk.Tables.Query

/-!
Writing an order, as one transaction: it locks the order's row, replaces what is there or inserts
what is not, and inserts the items anew.
-/

namespace OrderDesk.Tables

open Work (ask)

/-- An update that has to find its row. -/
def updateOne (context part uid : String) (s : Statement) : Work Unit := do
  let n ← ask context uid s Reply.count
  if n ≠ 1 then throw (.storage ("order " ++ uid ++ " has no " ++ part ++ " row"))

/-- Replaces the rows of an order; its items go. -/
def replaceRows (o : Order) : Work Unit := do
  let _ ← ask "failed to delete items of order" o.uid (deleteItems o.uid) Reply.count
  let _ ← ask "failed to update order" o.uid (updateOrder o) Reply.count
  updateOne "failed to update delivery of order" "delivery" o.uid (updateDelivery o)
  updateOne "failed to update payment of order" "payment" o.uid (updatePayment o)

def insertRows (o : Order) : Work Unit := do
  let _ ← ask "failed to insert order" o.uid (insertOrder o) Reply.count
  let _ ← ask "failed to insert delivery of order" o.uid (insertDelivery o) Reply.count
  let _ ← ask "failed to insert payment of order" o.uid (insertPayment o) Reply.count

/-- Inserts items in order; each takes the id that its row was given. -/
def insertItems (uid : String) : List Item → Work (List Item)
  | [] => pure []
  | x :: xs => do
    let id ← ask "failed to insert item of order" uid (insertItem uid x) (Reply.first readInteger)
    let xs ← insertItems uid xs
    pure ({ x with id } :: xs)

def writeOrder (o : Order) : Work (Order × WriteKind) := do
  let found ←
    ask "failed to check existence of order" o.uid (lockOrder o.uid) (Reply.first? readText)
  let kind := if found.isSome then WriteKind.replace else .insert
  match kind with
  | .replace => replaceRows o
  | .insert => insertRows o
  let items ← insertItems o.uid o.items
  pure ({ o with payment := { o.payment with transaction := o.uid }, items }, kind)

def upsert (o : Order) : Work Order := do
  let (stored, kind) ← Work.transaction false (writeOrder o)
  Work.count (.upsert kind)
  Work.note ⟨.debug, "Order aggregate persisted"⟩
  pure stored

end OrderDesk.Tables
