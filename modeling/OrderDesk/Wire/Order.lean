import OrderDesk.Wire.Record
import OrderDesk.Wire.Writer

/-!
The wire form of orders: the records of an order, its delivery, payment and items with their keys,
and the codec of payloads.
-/

namespace OrderDesk.Wire

def textField (key : String) (fallback : Option String) : Field :=
  ⟨key, fun s => (readText s).map fun r => (.text r.1, r.2), fallback.map .text⟩

def integerField (key : String) (fallback : Option Int64) : Field :=
  ⟨key, fun s => (readInteger s).map fun r => (.integer r.1, r.2), fallback.map .integer⟩

def readLocale : Reader Locale := readNamed Locale.all Locale.name

def readCurrency : Reader Currency := readNamed Currency.all Currency.name

def deliveryRecord : Record Delivery where
  name := "Delivery"
  fields :=
    [textField "name" none, textField "phone" none, textField "zip" none, textField "city" none,
      textField "address" none, textField "region" none, textField "email" none]
  build
    | [.text name, .text phone, .text zip, .text city, .text address, .text region, .text email] =>
      some { name, phone, zip, city, address, region, email }
    | _ => none

def paymentRecord : Record Payment where
  name := "Payment"
  fields :=
    [textField "transaction" none, textField "request_id" (some ""),
      ⟨"currency", fun s => (readCurrency s).map fun r => (.currency r.1, r.2), none⟩,
      textField "provider" none, integerField "amount" none, integerField "payment_dt" none,
      textField "bank" none, integerField "delivery_cost" none, integerField "goods_total" none,
      integerField "custom_fee" none]
  build
    | [.text transaction, .text requestId, .currency currency, .text provider, .integer amount,
        .integer paidAt, .text bank, .integer deliveryCost, .integer goodsTotal,
        .integer customFee] =>
      some
        { transaction, requestId, currency, provider, amount, paidAt, bank, deliveryCost,
          goodsTotal, customFee }
    | _ => none

def itemRecord : Record Item where
  name := "Item"
  fields :=
    [integerField "id" (some 0), integerField "chrt_id" none, textField "track_number" none,
      integerField "price" none, textField "rid" none, textField "name" none,
      integerField "sale" none, textField "size" none, integerField "total_price" none,
      integerField "nm_id" none, textField "brand" none, integerField "status" none]
  build
    | [.integer id, .integer chrtId, .text trackNumber, .integer price, .text rid, .text name,
        .integer sale, .text size, .integer totalPrice, .integer nmId, .text brand,
        .integer status] =>
      some
        { id, chrtId, trackNumber, price, rid, name, sale, size, totalPrice, nmId, brand, status }
    | _ => none

def readItems : Reader (List Item) := readList itemRecord.read

def orderRecord : Record Order where
  name := "Order"
  fields :=
    [textField "order_uid" none, textField "track_number" none, textField "entry" none,
      ⟨"delivery", fun s => (deliveryRecord.read s).map fun r => (.delivery r.1, r.2), none⟩,
      ⟨"payment", fun s => (paymentRecord.read s).map fun r => (.payment r.1, r.2), none⟩,
      ⟨"items", fun s => (readItems s).map fun r => (.items r.1, r.2), some (.items [])⟩,
      ⟨"locale", fun s => (readLocale s).map fun r => (.locale r.1, r.2), none⟩,
      textField "internal_signature" (some ""), textField "customer_id" none,
      textField "delivery_service" none, textField "shardkey" none, integerField "sm_id" none,
      ⟨"date_created", fun s => (readMoment s).map fun r => (.moment r.1, r.2), none⟩,
      textField "oof_shard" none]
  build
    | [.text uid, .text trackNumber, .text entry, .delivery delivery, .payment payment,
        .items items, .locale locale, .text internalSignature, .text customerId,
        .text deliveryService, .text shardKey, .integer smId, .moment dateCreated,
        .text oofShard] =>
      some
        { uid, trackNumber, entry, delivery, payment, items, locale, internalSignature, customerId,
          deliveryService, shardKey, smId, dateCreated, oofShard }
    | _ => none

def decodeOrder (bs : Input) : Except Fault Order := decodeWith orderRecord.read bs

def orderText (o : Order) : String := String.ofList (writeOrder o)

def encodeOrder (o : Order) : Input := Text.Utf8.encode (writeOrder o)

def itemsText (xs : List Item) : String := String.ofList (writeItems xs)

end OrderDesk.Wire
