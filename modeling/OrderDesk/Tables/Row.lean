import OrderDesk.Order.Basic
import OrderDesk.Tables.Session

/-!
Rows of the tables: the values that are bound for an order, and the parts of an order that are read
back. The names of a locale and of a currency are stored as they are, and may turn out unknown.
-/

namespace OrderDesk.Tables

def Binding.text (column value : String) : Binding := ⟨column, .text value⟩
def Binding.integer (column : String) (value : Int64) : Binding := ⟨column, .integer value⟩

/-! ## Writing -/

def orderValues (o : Order) : List Binding :=
  [.text "track_number" o.trackNumber, .text "entry" o.entry, .text "locale" o.locale.name,
    .text "internal_signature" o.internalSignature, .text "customer_id" o.customerId,
    .text "delivery_service" o.deliveryService, .text "shardkey" o.shardKey,
    .integer "sm_id" o.smId, ⟨"date_created", .moment o.dateCreated⟩,
    .text "oof_shard" o.oofShard]

def deliveryValues (d : Delivery) : List Binding :=
  [.text "name" d.name, .text "phone" d.phone, .text "zip" d.zip, .text "city" d.city,
    .text "address" d.address, .text "region" d.region, .text "email" d.email]

/-- The values of a payment's row, its key apart: the key is the uid of the order. -/
def paymentValues (p : Payment) : List Binding :=
  [.text "request_id" p.requestId, .text "currency" p.currency.name,
    .text "provider" p.provider, .integer "amount" p.amount, .integer "payment_dt" p.paidAt,
    .text "bank" p.bank, .integer "delivery_cost" p.deliveryCost,
    .integer "goods_total" p.goodsTotal, .integer "custom_fee" p.customFee]

/-- The values of an item's row; its id is given by the server. -/
def itemValues (x : Item) : List Binding :=
  [.integer "chrt_id" x.chrtId, .text "track_number" x.trackNumber, .integer "price" x.price,
    .text "rid" x.rid, .text "name" x.name, .integer "sale" x.sale, .text "size" x.size,
    .integer "total_price" x.totalPrice, .integer "nm_id" x.nmId, .text "brand" x.brand,
    .integer "status" x.status]

/-! ## Reading -/

def shown (column : String) : String := "\"" ++ column ++ "\""

def textCell (column : String) : Cell → Except ReplyFault String
  | some (.text s) => .ok s
  | some _ => .error (.mismatched column)
  | none => .error (.null column)

def integerCell (column : String) : Cell → Except ReplyFault Int64
  | some (.integer i) => .ok i
  | some _ => .error (.mismatched column)
  | none => .error (.null column)

def momentCell (column : String) : Cell → Except ReplyFault Moment
  | some (.moment t) => .ok t
  | some _ => .error (.mismatched column)
  | none => .error (.null column)

def cellOf (columns : List String) (row : List Cell) (column : String) : Cell :=
  ((columns.zip row).lookup column).join

def text (columns : List String) (row : List Cell) (column : String) :
    Except ReplyFault String :=
  textCell (shown column) (cellOf columns row column)

def integer (columns : List String) (row : List Cell) (column : String) :
    Except ReplyFault Int64 :=
  integerCell (shown column) (cellOf columns row column)

def moment (columns : List String) (row : List Cell) (column : String) :
    Except ReplyFault Moment :=
  momentCell (shown column) (cellOf columns row column)

structure OrderRow where
  uid : String
  trackNumber : String
  entry : String
  locale : String
  internalSignature : String
  customerId : String
  deliveryService : String
  shardKey : String
  smId : Int64
  dateCreated : Moment
  oofShard : String
deriving DecidableEq, Repr

def orderColumns : List String :=
  ["order_uid", "track_number", "entry", "locale", "internal_signature", "customer_id",
    "delivery_service", "shardkey", "sm_id", "date_created", "oof_shard"]

def readOrderRow : RowReader OrderRow := fun row => do
  let text := text orderColumns row
  let uid ← text "order_uid"
  let trackNumber ← text "track_number"
  let entry ← text "entry"
  let locale ← text "locale"
  let internalSignature ← text "internal_signature"
  let customerId ← text "customer_id"
  let deliveryService ← text "delivery_service"
  let shardKey ← text "shardkey"
  let smId ← integer orderColumns row "sm_id"
  let dateCreated ← moment orderColumns row "date_created"
  let oofShard ← text "oof_shard"
  pure
    { uid, trackNumber, entry, locale, internalSignature, customerId, deliveryService, shardKey,
      smId, dateCreated, oofShard }

def deliveryColumns : List String :=
  ["name", "phone", "zip", "city", "address", "region", "email"]

def readDeliveryRow : RowReader Delivery := fun row => do
  let text := text deliveryColumns row
  let name ← text "name"
  let phone ← text "phone"
  let zip ← text "zip"
  let city ← text "city"
  let address ← text "address"
  let region ← text "region"
  let email ← text "email"
  pure { name, phone, zip, city, address, region, email }

structure PaymentRow where
  transaction : String
  requestId : String
  currency : String
  provider : String
  amount : Int64
  paidAt : Int64
  bank : String
  deliveryCost : Int64
  goodsTotal : Int64
  customFee : Int64
deriving DecidableEq, Repr

def paymentColumns : List String :=
  ["transaction", "request_id", "currency", "provider", "amount", "payment_dt", "bank",
    "delivery_cost", "goods_total", "custom_fee"]

def readPaymentRow : RowReader PaymentRow := fun row => do
  let text := text paymentColumns row
  let integer := integer paymentColumns row
  let transaction ← text "transaction"
  let requestId ← text "request_id"
  let currency ← text "currency"
  let provider ← text "provider"
  let amount ← integer "amount"
  let paidAt ← integer "payment_dt"
  let bank ← text "bank"
  let deliveryCost ← integer "delivery_cost"
  let goodsTotal ← integer "goods_total"
  let customFee ← integer "custom_fee"
  pure
    { transaction, requestId, currency, provider, amount, paidAt, bank, deliveryCost, goodsTotal,
      customFee }

def itemColumns : List String :=
  ["id", "chrt_id", "track_number", "price", "rid", "name", "sale", "size", "total_price",
    "nm_id", "brand", "status"]

def readItemRow : RowReader Item := fun row => do
  let text := text itemColumns row
  let integer := integer itemColumns row
  let id ← integer "id"
  let chrtId ← integer "chrt_id"
  let trackNumber ← text "track_number"
  let price ← integer "price"
  let rid ← text "rid"
  let name ← text "name"
  let sale ← integer "sale"
  let size ← text "size"
  let totalPrice ← integer "total_price"
  let nmId ← integer "nm_id"
  let brand ← text "brand"
  let status ← integer "status"
  pure
    { id, chrtId, trackNumber, price, rid, name, sale, size, totalPrice, nmId, brand, status }

def readText : RowReader String
  | [] => .error (.null "0")
  | c :: _ => textCell "0" c

def readInteger : RowReader Int64
  | [] => .error (.null "0")
  | c :: _ => integerCell "0" c

/-! ## Orders from rows -/

/-- A row's name in a closed list; an unknown one is a fault of the storage. -/
def named {α : Type} (row : String) (r : Except UnknownName α) : Except OrderError α :=
  match r with
  | .ok a => .ok a
  | .error e => .error (.storage (row ++ ": " ++ e.message))

def PaymentRow.payment (r : PaymentRow) : Except OrderError Payment := do
  let currency ← named ("payment " ++ r.transaction) (Currency.ofName r.currency)
  pure
    { transaction := r.transaction, requestId := r.requestId, currency, provider := r.provider,
      amount := r.amount, paidAt := r.paidAt, bank := r.bank, deliveryCost := r.deliveryCost,
      goodsTotal := r.goodsTotal, customFee := r.customFee }

def OrderRow.order (r : OrderRow) (delivery : Delivery) (payment : PaymentRow)
    (items : List Item) : Except OrderError Order := do
  let locale ← named ("order " ++ r.uid) (Locale.ofName r.locale)
  let payment ← payment.payment
  pure
    { uid := r.uid, trackNumber := r.trackNumber, entry := r.entry, delivery, payment, items,
      locale, internalSignature := r.internalSignature, customerId := r.customerId,
      deliveryService := r.deliveryService, shardKey := r.shardKey, smId := r.smId,
      dateCreated := r.dateCreated, oofShard := r.oofShard }

end OrderDesk.Tables
