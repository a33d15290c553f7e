import OrderDesk.Order.Error
import OrderDesk.Text.Decimal
import OrderDesk.Text.Pattern

/-!
Validation of incoming orders. An order that can be read may still be unusable: `violations` lists
every broken rule, header fields first, then delivery, payment, the item list and the items in turn,
so that one message names them all.
-/

namespace OrderDesk

inductive Part where
  | order
  | delivery
  | payment
  | item (index : Nat)
deriving DecidableEq, Repr

structure Path where
  part : Part
  name : String
deriving DecidableEq, Repr

def Path.text (p : Path) : String :=
  match p.part with
  | .order => p.name
  | .delivery => "delivery." ++ p.name
  | .payment => "payment." ++ p.name
  | .item i => "items[" ++ Text.Decimal.natText i ++ "]." ++ p.name

inductive Rule where
  | required
  | alphanumeric
  | e164
  | numeric
  | email
  | sameAsUid
  | notNegative
  | percentage
  | notEmpty
deriving DecidableEq, Repr

def Rule.text : Rule → String
  | .required => "required"
  | .alphanumeric => "alphanum"
  | .e164 => "e164"
  | .numeric => "numeric"
  | .email => "email"
  | .sameAsUid => "eq=order_uid"
  | .notNegative => "min=0"
  | .percentage => "range=0..100"
  | .notEmpty => "min=1"

structure Violation where
  path : Path
  rule : Rule
deriving DecidableEq, Repr

structure Check where
  path : Path
  broken : Option Rule

namespace Check

def required (s : String) : Option Rule := if Text.blank s then some .required else none

def matching (p : Text.Pattern) (r : Rule) (s : String) : Option Rule :=
  if Text.blank s then some .required else if p.accepts s then none else some r

def transaction (uid s : String) : Option Rule :=
  if Text.blank s then some .required else if s = uid then none else some .sameAsUid

def nonzero (i : Int64) : Option Rule := if i = 0 then some .required else none

def notNegative (i : Int64) : Option Rule := if i < 0 then some .notNegative else none

def percentage (i : Int64) : Option Rule := if 0 ≤ i ∧ i ≤ 100 then none else some .percentage

def notEmpty (xs : List Item) : Option Rule := if xs.isEmpty then some .notEmpty else none

def header (o : Order) : List Check :=
  [⟨⟨.order, "order_uid"⟩, matching Text.alphanumeric .alphanumeric o.uid⟩,
    ⟨⟨.order, "track_number"⟩, required o.trackNumber⟩,
    ⟨⟨.order, "entry"⟩, required o.entry⟩,
    ⟨⟨.order, "customer_id"⟩, required o.customerId⟩,
    ⟨⟨.order, "delivery_service"⟩, required o.deliveryService⟩,
    ⟨⟨.order, "shardkey"⟩, required o.shardKey⟩,
    ⟨⟨.order, "sm_id"⟩, nonzero o.smId⟩,
    ⟨⟨.order, "oof_shard"⟩, required o.oofShard⟩]

def delivery (d : Delivery) : List Check :=
  [⟨⟨.delivery, "name"⟩, required d.name⟩,
    ⟨⟨.delivery, "phone"⟩, matching Text.e164 .e164 d.phone⟩,
    ⟨⟨.delivery, "zip"⟩, matching Text.numeric .numeric d.zip⟩,
    ⟨⟨.delivery, "city"⟩, required d.city⟩,
    ⟨⟨.delivery, "address"⟩, required d.address⟩,
    ⟨⟨.delivery, "region"⟩, required d.region⟩,
    ⟨⟨.delivery, "email"⟩, matching Text.email .email d.email⟩]

def payment (uid : String) (p : Payment) : List Check :=
  [⟨⟨.payment, "transaction"⟩, transaction uid p.transaction⟩,
    ⟨⟨.payment, "provider"⟩, required p.provider⟩,
    ⟨⟨.payment, "amount"⟩, notNegative p.amount⟩,
    ⟨⟨.payment, "payment_dt"⟩, nonzero p.paidAt⟩,
    ⟨⟨.payment, "bank"⟩, required p.bank⟩,
    ⟨⟨.payment, "delivery_cost"⟩, notNegative p.deliveryCost⟩,
    ⟨⟨.payment, "goods_total"⟩, notNegative p.goodsTotal⟩,
    ⟨⟨.payment, "custom_fee"⟩, notNegative p.customFee⟩]

def item (i : Nat) (x : Item) : List Check :=
  [⟨⟨.item i, "chrt_id"⟩, nonzero x.chrtId⟩,
    ⟨⟨.item i, "track_number"⟩, required x.trackNumber⟩,
    ⟨⟨.item i, "price"⟩, notNegative x.price⟩,
    ⟨⟨.item i, "rid"⟩, required x.rid⟩,
    ⟨⟨.item i, "name"⟩, required x.name⟩,
    ⟨⟨.item i, "sale"⟩, percentage x.sale⟩,
    ⟨⟨.item i, "size"⟩, required x.size⟩,
    ⟨⟨.item i, "total_price"⟩, notNegative x.totalPrice⟩,
    ⟨⟨.item i, "nm_id"⟩, nonzero x.nmId⟩,
    ⟨⟨.item i, "brand"⟩, required x.brand⟩,
    ⟨⟨.item i, "status"⟩, nonzero x.status⟩]

def itemsFrom : Nat → List Item → List Check
  | _, [] => []
  | i, x :: xs => item i x ++ itemsFrom (i + 1) xs

/-- Every check of an order, in the order in which broken rules are reported. -/
def all (o : Order) : List Check :=
  header o ++ delivery o.delivery ++ payment o.uid o.payment ++
    [⟨⟨.order, "items"⟩, notEmpty o.items⟩] ++ itemsFrom 0 o.items

def violation? (c : Check) : Option Violation := c.broken.map fun r => ⟨c.path, r⟩

end Check

def Order.violations (o : Order) : List Violation := (Check.all o).filterMap Check.violation?

def Order.isValid (o : Order) : Bool := o.violations.isEmpty

def violationsMessage (vs : List Violation) : String :=
  "validation failed: " ++
    String.intercalate "; " (vs.map fun v => v.path.text ++ ": " ++ v.rule.text)

def Order.validate (o : Order) : Except (List Violation) Unit :=
  if o.isValid then .ok () else .error o.violations

def hasField (vs : List Violation) (field : String) : Bool := vs.any fun v => v.path.text = field

def violationsError (vs : List Violation) : OrderError := .invalidInput (violationsMessage vs)

end OrderDesk
