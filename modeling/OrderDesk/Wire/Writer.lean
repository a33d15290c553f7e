import OrderDesk.Order.Basic
import OrderDesk.Text.Decimal
import OrderDesk.Time.Rfc3339

/-!
Writing orders as JSON: compact, keys in declaration order. In strings the quote, the backslash and
the characters below the space are escaped, by a letter where there is one.
-/

namespace OrderDesk.Wire

def writeChar (c : Char) : List Char :=
  if c = '"' then ['\\', '"']
  else if c = '\\' then ['\\', '\\']
  else if 0x20 ≤ c.toNat then [c]
  else if c.toNat = 0x08 then ['\\', 'b']
  else if c.toNat = 0x09 then ['\\', 't']
  else if c.toNat = 0x0A then ['\\', 'n']
  else if c.toNat = 0x0C then ['\\', 'f']
  else if c.toNat = 0x0D then ['\\', 'r']
  else ['\\', 'u', '0', '0', Nat.digitChar (c.toNat / 16), Nat.digitChar (c.toNat % 16)]

def writeChars (s : List Char) : List Char := '"' :: s.flatMap writeChar ++ ['"']

def writeText (s : String) : List Char := writeChars s.toList

def writeInteger (i : Int64) : List Char := Text.Decimal.ofInt i.toInt

def writeMoment (t : Moment) : List Char := writeChars (Rfc3339.print t)

def separated : List (List Char) → List Char
  | [] => []
  | [p] => p
  | p :: ps => p ++ ',' :: separated ps

def writeObject (ms : List (String × List Char)) : List Char :=
  Char.ofNat 0x7B :: separated (ms.map fun m => writeText m.1 ++ ':' :: m.2) ++ [Char.ofNat 0x7D]

def writeArray (ps : List (List Char)) : List Char := '[' :: separated ps ++ [']']

def writeDelivery (d : Delivery) : List Char :=
  writeObject
    [("name", writeText d.name), ("phone", writeText d.phone), ("zip", writeText d.zip),
      ("city", writeText d.city), ("address", writeText d.address),
      ("region", writeText d.region), ("email", writeText d.email)]

def writePayment (p : Payment) : List Char :=
  writeObject
    [("transaction", writeText p.transaction), ("request_id", writeText p.requestId),
      ("currency", writeText p.currency.name), ("provider", writeText p.provider),
      ("amount", writeInteger p.amount), ("payment_dt", writeInteger p.paidAt),
      ("bank", writeText p.bank), ("delivery_cost", writeInteger p.deliveryCost),
      ("goods_total", writeInteger p.goodsTotal), ("custom_fee", writeInteger p.customFee)]

def writeItem (x : Item) : List Char :=
  writeObject
    [("id", writeInteger x.id), ("chrt_id", writeInteger x.chrtId),
      ("track_number", writeText x.trackNumber), ("price", writeInteger x.price),
      ("rid", writeText x.rid), ("name", writeText x.name), ("sale", writeInteger x.sale),
      ("size", writeText x.size), ("total_price", writeInteger x.totalPrice),
      ("nm_id", writeInteger x.nmId), ("brand", writeText x.brand),
      ("status", writeInteger x.status)]

def writeItems (xs : List Item) : List Char := writeArray (xs.map writeItem)

def writeOrder (o : Order) : List Char :=
  writeObject
    [("order_uid", writeText o.uid), ("track_number", writeText o.trackNumber),
      ("entry", writeText o.entry), ("delivery", writeDelivery o.delivery),
      ("payment", writePayment o.payment), ("items", writeItems o.items),
      ("locale", writeText o.locale.name), ("internal_signature", writeText o.internalSignature),
      ("customer_id", writeText o.customerId), ("delivery_service", writeText o.deliveryService),
      ("shardkey", writeText o.shardKey), ("sm_id", writeInteger o.smId),
      ("date_created", writeMoment o.dateCreated), ("oof_shard", writeText o.oofShard)]

end OrderDesk.Wire
