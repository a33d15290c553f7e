import OrderDesk.Time.Moment

/-!
Orders: the aggregate of an order with its delivery, payment and items. Money is in the smallest
unit of its currency.
-/

namespace OrderDesk

structure UnknownName where
  kind : String
  text : String
deriving DecidableEq, Repr

def UnknownName.message (e : UnknownName) : String := "unknown " ++ e.kind ++ ": " ++ e.text

inductive Locale where
  | english
  | russian
deriving DecidableEq, Repr

namespace Locale

def all : List Locale := [.english, .russian]

def name : Locale → String
  | .english => "en"
  | .russian => "ru"

def ofName? (s : String) : Option Locale := all.find? fun l => l.name = s

def ofName (s : String) : Except UnknownName Locale :=
  match ofName? s with
  | some l => .ok l
  | none => .error ⟨"locale", s⟩

theorem ofName?_name (l : Locale) : ofName? l.name = some l := by cases l <;> decide

end Locale

inductive Currency where
  | dollar
  | ruble
deriving DecidableEq, Repr

namespace Currency

def all : List Currency := [.dollar, .ruble]

def name : Currency → String
  | .dollar => "USD"
  | .ruble => "RUB"

def ofName? (s : String) : Option Currency := all.find? fun c => c.name = s

def ofName (s : String) : Except UnknownName Currency :=
  match ofName? s with
  | some c => .ok c
  | none => .error ⟨"currency", s⟩

theorem ofName?_name (c : Currency) : ofName? c.name = some c := by cases c <;> decide

end Currency

structure Delivery where
  name : String
  phone : String
  zip : String
  city : String
  address : String
  region : String
  email : String
deriving DecidableEq, Repr

/-- How an order is paid. A stored payment's transaction is the identifier of its order. -/
structure Payment where
  transaction : String
  requestId : String
  currency : Currency
  provider : String
  amount : Int64
  paidAt : Int64
  bank : String
  deliveryCost : Int64
  goodsTotal : Int64
  customFee : Int64
deriving DecidableEq, Repr

/-- A line of an order. Its id is given by the store and zero before that. -/
structure Item where
  id : Int64
  chrtId : Int64
  trackNumber : String
  price : Int64
  rid : String
  name : String
  sale : Int64
  size : String
  totalPrice : Int64
  nmId : Int64
  brand : String
  status : Int64
deriving DecidableEq, Repr

structure Order where
  uid : String
  trackNumber : String
  entry : String
  delivery : Delivery
  payment : Payment
  items : List Item
  locale : Locale
  internalSignature : String
  customerId : String
  deliveryService : String
  shardKey : String
  smId : Int64
  dateCreated : Moment
  oofShard : String
deriving DecidableEq, Repr

/-- The order alone: reads of an order leave its items out. -/
def Order.withoutItems (o : Order) : Order := { o with items := [] }

end OrderDesk
