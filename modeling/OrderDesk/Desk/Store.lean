import OrderDesk.Order.Error
import OrderDesk.Order.Page
import OrderDesk.Order.Shelf

/-!
The store of orders, the one place that numbers items. Numbers go up and are never given twice, so a
replaced order gets new ones. Failures can be queued for writes and switched on for reads, and every
call is counted, failing or not.
-/

namespace OrderDesk

structure Store where
  shelf : Shelf
  given : Nat
  upsertFailures : List OrderError
  readFailure : Option OrderError
  upsertCalls : Nat
  orderCalls : Nat
  allCalls : Nat
  itemsCalls : Nat

namespace Store

def empty : Store := ⟨.empty, 0, [], none, 0, 0, 0, 0⟩

/-- Items numbered in order after the numbers given. Numbers are 64-bit words. -/
def numbered : Nat → List Item → List Item
  | _, [] => []
  | given, x :: xs => { x with id := .ofNat (given + 1) } :: numbered (given + 1) xs

def stored (given : Nat) (o : Order) : Order :=
  { o with
    payment := { o.payment with transaction := o.uid }
    items := numbered given o.items }

def upsert (s : Store) (o : Order) : Except OrderError Order × Store :=
  let s := { s with upsertCalls := s.upsertCalls + 1 }
  match s.upsertFailures with
  | e :: rest => (.error e, { s with upsertFailures := rest })
  | [] =>
    let new := stored s.given o
    (.ok new, { s with shelf := s.shelf.insert new, given := s.given + o.items.length })

def read {α : Type} (s : Store) (answer : Except OrderError α) : Except OrderError α :=
  match s.readFailure with
  | some e => .error e
  | none => answer

theorem read_eq_ok_iff {α : Type} {s : Store} {answer : Except OrderError α} {a : α} :
    s.read answer = .ok a ↔ s.readFailure = none ∧ answer = .ok a := by
  cases h : s.readFailure <;> simp [read, h]

def missing (uid : String) : OrderError := .notFound ("order " ++ uid)

def order (s : Store) (uid : String) : Except OrderError Order × Store :=
  (s.read (match s.shelf.find? uid with
    | some o => .ok o.withoutItems
    | none => .error (missing uid)),
    { s with orderCalls := s.orderCalls + 1 })

theorem order_eq_ok_iff {s : Store} {uid : String} {o : Order} :
    (s.order uid).1 = .ok o ↔
      s.readFailure = none ∧ ∃ b, s.shelf.find? uid = some b ∧ b.withoutItems = o := by
  cases h : s.shelf.find? uid <;> simp [order, read_eq_ok_iff, h]

/-- The page of an order's items; an unknown order has none. -/
def page (s : Store) (uid : String) (last limit : Int64) : List Item :=
  match s.shelf.find? uid with
  | some o => Page.select o.items last limit
  | none => []

def items (s : Store) (uid : String) (last limit : Int64) :
    Except OrderError (List Item) × Store :=
  (s.read (.ok (s.page uid last limit)), { s with itemsCalls := s.itemsCalls + 1 })

theorem items_eq_ok_iff {s : Store} {uid : String} {last limit : Int64} {xs : List Item} :
    (s.items uid last limit).1 = .ok xs ↔ s.readFailure = none ∧ s.page uid last limit = xs := by
  simp [items, read_eq_ok_iff]

/-- The first orders by uid, each with its first items, up to one limit for both. -/
def firstOrders (s : Store) (limit : Int64) : List Order :=
  (s.shelf.orders.take (Page.allowed limit)).map fun o =>
    { o with items := Page.select o.items 0 limit }

def all (s : Store) (limit : Int64) : Except OrderError (List Order) × Store :=
  (s.read (.ok (s.firstOrders limit)), { s with allCalls := s.allCalls + 1 })

theorem all_eq_ok_iff {s : Store} {limit : Int64} {os : List Order} :
    (s.all limit).1 = .ok os ↔ s.readFailure = none ∧ s.firstOrders limit = os := by
  simp [all, read_eq_ok_iff]

def failUpserts (s : Store) (e : OrderError) (times : Nat) : Store :=
  { s with upsertFailures := s.upsertFailures ++ List.replicate times e }

def failReads (s : Store) (e : Option OrderError) : Store := { s with readFailure := e }

end Store

end OrderDesk
