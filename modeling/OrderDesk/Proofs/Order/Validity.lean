import OrderDesk.Desk.Store
import OrderDesk.Order.Validation

/-!
Validity: what the orders have in common that validation accepts. The store changes nothing that
validation looks at, so what it makes of a valid order is valid.
-/

namespace OrderDesk

namespace Check

variable {c : Check} {cs ds : List Check}

def Pass (cs : List Check) : Prop := ∀ c ∈ cs, c.broken = none

@[simp] theorem pass_nil : Pass [] := List.forall_mem_nil _

@[simp] theorem pass_cons : Pass (c :: cs) ↔ c.broken = none ∧ Pass cs := List.forall_mem_cons

@[simp] theorem pass_append : Pass (cs ++ ds) ↔ Pass cs ∧ Pass ds := List.forall_mem_append

theorem pass_item (i j : Nat) (x : Item) : Pass (item i x) ↔ Pass (item j x) := by
  simp only [item, pass_cons]

theorem pass_itemsFrom (i : Nat) (xs : List Item) :
    Pass (itemsFrom i xs) ↔ ∀ x ∈ xs, Pass (item 0 x) := by
  induction xs generalizing i with
  | nil => simp [itemsFrom]
  | cons x xs ih => rw [itemsFrom, pass_append, ih, List.forall_mem_cons, pass_item i 0]

theorem itemsFrom_numbered (i given : Nat) (xs : List Item) :
    itemsFrom i (Store.numbered given xs) = itemsFrom i xs := by
  induction xs generalizing i given with
  | nil => rfl
  | cons x xs ih => exact congrArg (item i x ++ ·) (ih (i + 1) (given + 1))

theorem matching_eq_none_iff {p : Text.Pattern} {r : Rule} {s : String} :
    matching p r s = none ↔ Text.blank s = false ∧ p.accepts s = true := by
  unfold matching
  cases Text.blank s <;> simp

theorem transaction_eq_none_iff {uid s : String} :
    transaction uid s = none ↔ Text.blank s = false ∧ s = uid := by
  unfold transaction
  cases Text.blank s <;> simp

theorem notNegative_eq_none_iff {i : Int64} : notNegative i = none ↔ ¬ i < 0 := by
  simp [notNegative]

theorem percentage_eq_none_iff {i : Int64} : percentage i = none ↔ 0 ≤ i ∧ i ≤ 100 := by
  simp [percentage]

end Check

structure Order.Valid (o : Order) : Prop where
  header : Check.Pass (Check.header o)
  delivery : Check.Pass (Check.delivery o.delivery)
  payment : Check.Pass (Check.payment o.uid o.payment)
  items : o.items ≠ []
  each : ∀ x ∈ o.items, Check.Pass (Check.item 0 x)

variable {o : Order}

theorem Order.validate_eq_ok_iff : o.validate = .ok () ↔ o.Valid := by
  have hchecks : o.validate = .ok () ↔ Check.Pass (Check.all o) := by
    simp [validate, isValid, violations, Check.Pass, Check.violation?]
  have hitems : (Check.notEmpty o.items = none) ↔ o.items ≠ [] := by simp [Check.notEmpty]
  rw [hchecks]
  simp only [Check.all, Check.pass_append, Check.pass_cons, Check.pass_nil, and_true,
    Check.pass_itemsFrom, hitems]
  constructor
  · rintro ⟨⟨⟨⟨hheader, hdelivery⟩, hpayment⟩, hnot⟩, heach⟩
    exact ⟨hheader, hdelivery, hpayment, hnot, heach⟩
  · rintro ⟨hheader, hdelivery, hpayment, hnot, heach⟩
    exact ⟨⟨⟨⟨hheader, hdelivery⟩, hpayment⟩, hnot⟩, heach⟩

theorem Order.Valid.transaction_eq (h : o.Valid) : o.payment.transaction = o.uid := by
  have hpayment := h.payment
  simp only [Check.payment, Check.pass_cons] at hpayment
  exact (Check.transaction_eq_none_iff.1 hpayment.1).2

namespace Store

theorem numbered_eq_nil_iff {given : Nat} {xs : List Item} : numbered given xs = [] ↔ xs = [] := by
  cases xs <;> simp [numbered]

theorem valid_stored (h : o.Valid) (given : Nat) : (stored given o).Valid where
  header := h.header
  delivery := h.delivery
  payment := by
    have hpayment : (stored given o).payment = o.payment := by
      rw [stored, ← h.transaction_eq]
    rw [hpayment]
    exact h.payment
  items := fun hnil => h.items (numbered_eq_nil_iff.1 hnil)
  each := by
    rw [← Check.pass_itemsFrom 0, stored, Check.itemsFrom_numbered, Check.pass_itemsFrom]
    exact h.each

end Store

end OrderDesk
