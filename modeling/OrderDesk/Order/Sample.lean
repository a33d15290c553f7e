import OrderDesk.Log.Message
import OrderDesk.Wire.Order

/-!
Sample orders: valid orders with any identifier and any number of items, for trials of the desk, and
messages that carry an order at any offset.
-/

namespace OrderDesk

def Item.sample (n : Nat) : Item where
  id := 0
  chrtId := 9934930 + Int64.ofNat n
  trackNumber := "WBILMTESTTRACK"
  price := 453
  rid := "ab4219087a764ae0btest" ++ Text.Decimal.natText n
  name := "Mascaras"
  sale := 30
  size := "0"
  totalPrice := 317
  nmId := 2389212 + Int64.ofNat n
  brand := "Vivienne Sabo"
  status := 202

def Moment.sample : Moment := ⟨2021, 11, 26, 6, 22, 19, 0, by decide, by decide⟩

def Order.sample (uid : String) (count : Nat) : Order where
  uid := uid
  trackNumber := "WBILMTESTTRACK"
  entry := "WBIL"
  delivery :=
    { name := "Test Testov", phone := "+9720000000", zip := "2639809", city := "Kiryat Mozkin",
      address := "Ploshad Mira 15", region := "Kraiot", email := "test@gmail.com" }
  payment :=
    { transaction := uid, requestId := "", currency := .dollar, provider := "wbpay", amount := 1817,
      paidAt := 1637907727, bank := "alpha", deliveryCost := 1500, goodsTotal := 317,
      customFee := 0 }
  items := (List.range count).map Item.sample
  locale := .english
  internalSignature := ""
  customerId := "test"
  deliveryService := "meest"
  shardKey := "9"
  smId := 99
  dateCreated := Moment.sample
  oofShard := "1"

def Message.sample (o : Order) (offset : Int64) : Message where
  topic := "orders"
  key := some (Text.Utf8.encode o.uid.toList)
  payload := some (Wire.encodeOrder o)
  partition := 0
  offset := offset

end OrderDesk
