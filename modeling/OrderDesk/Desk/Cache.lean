import OrderDesk.Order.Error
import OrderDesk.Order.Page
import OrderDesk.Order.Shelf

/-!
The cache of orders. An entry is an order with some of its items; entries are replaced one by one
and dropped all at once.
-/

namespace OrderDesk

structure Cache where
  shelf : Shelf

namespace Cache

def empty : Cache := ⟨.empty⟩

def size (c : Cache) : Nat := c.shelf.size

def order (c : Cache) (uid : String) : Except OrderError Order :=
  match c.shelf.find? uid with
  | some o => .ok o.withoutItems
  | none => .error (.notFound ("order " ++ uid ++ " not found in cache"))

def items (c : Cache) (uid : String) (last limit : Int64) : Except OrderError (List Item) :=
  match c.shelf.find? uid with
  | some o => .ok (Page.slice o.items last limit)
  | none =>
    .error (.notFound ("failed to get items of order " ++ uid ++ ": order not found in cache"))

theorem order_eq_ok_iff {c : Cache} {uid : String} {o : Order} :
    c.order uid = .ok o ↔ ∃ b, c.shelf.find? uid = some b ∧ b.withoutItems = o := by
  cases h : c.shelf.find? uid <;> simp [order, h]

theorem items_eq_ok_iff {c : Cache} {uid : String} {last limit : Int64} {xs : List Item} :
    c.items uid last limit = .ok xs ↔
      ∃ b, c.shelf.find? uid = some b ∧ Page.slice b.items last limit = xs := by
  cases h : c.shelf.find? uid <;> simp [items, h]

def set (c : Cache) (o : Order) : Cache := ⟨c.shelf.insert o⟩

end Cache

end OrderDesk
