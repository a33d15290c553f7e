import OrderDesk.Tables.Row

/-!
The statements that concern one order, or the first orders: its rows are found by its uid, which is
also the key of its payment.
-/

namespace OrderDesk.Tables

def orderKey (uid : String) : Binding := .text "order_uid" uid
def paymentKey (uid : String) : Binding := .text "transaction" uid

def lockOrder (uid : String) : Statement := .select .orders ["order_uid"] (.locking (orderKey uid))
def deleteItems (uid : String) : Statement := .delete .items (orderKey uid)

def updateOrder (o : Order) : Statement := .update .orders (orderValues o) (orderKey o.uid)
def updateDelivery (o : Order) : Statement :=
  .update .deliveries (deliveryValues o.delivery) (orderKey o.uid)
def updatePayment (o : Order) : Statement :=
  .update .payments (paymentValues o.payment) (paymentKey o.uid)

def insertOrder (o : Order) : Statement :=
  .insert .orders (orderKey o.uid :: orderValues o) none
def insertDelivery (o : Order) : Statement :=
  .insert .deliveries (orderKey o.uid :: deliveryValues o.delivery) none
def insertPayment (o : Order) : Statement :=
  .insert .payments (paymentKey o.uid :: paymentValues o.payment) none
def insertItem (uid : String) (x : Item) : Statement :=
  .insert .items (orderKey uid :: itemValues x) (some "id")

def selectOrder (uid : String) : Statement := .select .orders orderColumns (.matching (orderKey uid))
def selectOrders (limit : Int64) : Statement :=
  .select .orders orderColumns (.first "order_uid" limit)
def selectDelivery (uid : String) : Statement :=
  .select .deliveries deliveryColumns (.matching (orderKey uid))
def selectPayment (uid : String) : Statement :=
  .select .payments paymentColumns (.matching (paymentKey uid))
def selectItems (uid : String) (last limit : Int64) : Statement :=
  .select .items itemColumns (.after (orderKey uid) "id" last limit)

end OrderDesk.Tables
