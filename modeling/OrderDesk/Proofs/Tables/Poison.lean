import OrderDesk.Proofs.Order.Validity
import OrderDesk.Proofs.Tables.Replacement
import OrderDesk.Proofs.Text.Patterns
import OrderDesk.Tables.Limits

/-!
Poison: orders that validation accepts and that no table can hold. The rows of a valid order keep to
the types and bounds of all columns, so what is left to go wrong is a text with the character zero in
it, where validation looks for no form, or a date before the first day of the server.
-/

namespace OrderDesk

def Order.headTexts (o : Order) : List String :=
  [o.trackNumber, o.entry, o.internalSignature, o.customerId, o.deliveryService, o.shardKey,
    o.oofShard, o.delivery.name, o.delivery.city, o.delivery.address, o.delivery.region,
    o.delivery.email, o.payment.requestId, o.payment.provider, o.payment.bank]

def Item.texts (x : Item) : List String := [x.trackNumber, x.rid, x.name, x.size, x.brand]

def Order.freeTexts (o : Order) : List String := o.headTexts ++ o.items.flatMap Item.texts

namespace Tables

/-! ## Rows and what holds them -/

theorem holdsText_of_accepts {p : Text.Pattern} {s : String}
    (hp : ∀ q ∈ p, q.allows '\x00' = false) (h : p.accepts s = true) : holdsText s = true := by
  simpa [holdsText] using Text.Pattern.not_mem_of_accepts hp h

theorem holdsText_uid_of_valid {o : Order} (h : o.Valid) : holdsText o.uid = true := by
  have hheader := h.header
  simp only [Check.header, Check.pass_cons, Check.matching_eq_none_iff] at hheader
  exact holdsText_of_accepts (by decide) hheader.1.2

theorem holdsText_localeName (l : Locale) : holdsText l.name = true := by cases l <;> decide

theorem holdsText_currencyName (c : Currency) : holdsText c.name = true := by cases c <;> decide

theorem holds_orderRow (o : Order) :
    Table.orders.holds (orderRow o) = true ↔ holdsText o.uid = true ∧ holdsText o.trackNumber = true ∧
      holdsText o.entry = true ∧ holdsText o.internalSignature = true ∧
      holdsText o.customerId = true ∧ holdsText o.deliveryService = true ∧
      holdsText o.shardKey = true ∧ holdsMoment o.dateCreated = true ∧
      holdsText o.oofShard = true := by
  simp [Table.holds, Table.columns, orderRow, cells, Column.holds, Column.key, Column.text,
    Column.optionalText, Column.integer, holdsText_localeName]

theorem holds_deliveryRow (uid : String) (d : Delivery) :
    Table.deliveries.holds (deliveryRow uid d) = true ↔ holdsText uid = true ∧
      holdsText d.name = true ∧ holdsText d.phone = true ∧ holdsText d.zip = true ∧
      holdsText d.city = true ∧ holdsText d.address = true ∧ holdsText d.region = true ∧
      holdsText d.email = true := by
  simp [Table.holds, Table.columns, deliveryRow, cells, Column.holds, Column.orderKey, Column.text]

theorem holds_paymentRow (uid : String) (p : Payment) :
    Table.payments.holds (paymentRow uid p) = true ↔ holdsText uid = true ∧
      holdsText p.requestId = true ∧ holdsText p.provider = true ∧ 0 ≤ p.amount ∧
      holdsText p.bank = true ∧ 0 ≤ p.deliveryCost ∧ 0 ≤ p.goodsTotal ∧ 0 ≤ p.customFee := by
  simp [Table.holds, Table.columns, paymentRow, cells, Column.holds, Column.orderKey, Column.text,
    Column.optionalText, Column.integer, Column.amount, Bound.holds, holdsText_currencyName]

theorem holds_itemRow (uid : String) (x : Item) :
    Table.items.holds (itemRow uid x) = true ↔ holdsText uid = true ∧
      holdsText x.trackNumber = true ∧ holdsText x.rid = true ∧ holdsText x.name = true ∧
      (0 ≤ x.sale.toInt ∧ x.sale.toInt ≤ 100) ∧ holdsText x.size = true ∧
      holdsText x.brand = true := by
  simp [Table.holds, Table.columns, itemRow, cells, Column.holds, Column.key, Column.text,
    Column.integer, Bound.holds]

namespace Engine

variable (g : Engine) {db : Database} {o : Order}

theorem forall_mem_numbered {P : Item → Prop} (hP : ∀ n x, P (g.withNumber n x) ↔ P x)
    (given : Nat) (xs : List Item) : (∀ x ∈ g.numbered given xs, P x) ↔ ∀ x ∈ xs, P x := by
  induction xs generalizing given with
  | nil => rfl
  | cons x xs ih => rw [numbered, List.forall_mem_cons, List.forall_mem_cons, hP, ih]

theorem fit_headRows_of_valid (hg : ∀ t row, g.fits t row = t.holds row) (h : o.Valid) :
    g.Fit (g.headRows o) ↔
      (∀ s ∈ o.headTexts, holdsText s = true) ∧ holdsMoment (g.keep o.dateCreated) = true := by
  have hdelivery := h.delivery
  have hpayment := h.payment
  simp only [Check.delivery, Check.payment, Check.pass_cons, Check.matching_eq_none_iff,
    Check.notNegative_eq_none_iff, Int64.not_lt] at hdelivery hpayment
  have huid := holdsText_uid_of_valid h
  have hphone : holdsText o.delivery.phone = true :=
    holdsText_of_accepts (by decide) hdelivery.2.1.2
  have hzip : holdsText o.delivery.zip = true := holdsText_of_accepts (by decide) hdelivery.2.2.1.2
  obtain ⟨-, -, hamount, -, -, hcost, htotal, hfee, -⟩ := hpayment
  simp only [fit_headRows_iff, hg, holds_orderRow, holds_deliveryRow, holds_paymentRow, keptOrder,
    huid, hphone, hzip, hamount, hcost, htotal, hfee, true_and, Order.headTexts,
    List.forall_mem_cons, List.not_mem_nil, false_implies, implies_true, and_true]
  -- both sides name the same texts, and the date in another place
  grind

theorem fits_itemRow_of_valid (hg : ∀ t row, g.fits t row = t.holds row) {uid : String} {x : Item}
    (huid : holdsText uid = true) (h : Check.Pass (Check.item 0 x)) :
    g.fits .items (itemRow uid x) = true ↔ ∀ s ∈ x.texts, holdsText s = true := by
  simp only [Check.item, Check.pass_cons, Check.percentage_eq_none_iff] at h
  obtain ⟨-, -, -, -, -, hsale, -⟩ := h
  have hbounds : 0 ≤ x.sale.toInt ∧ x.sale.toInt ≤ 100 := by
    rw [Int64.le_iff_toInt_le, Int64.le_iff_toInt_le] at hsale
    exact hsale
  simp only [hg, holds_itemRow, huid, hbounds, and_self, true_and, Item.texts,
    List.forall_mem_cons, List.not_mem_nil, false_implies, implies_true, and_true]

/-- No free text of an order holds the character zero, and its date is one that the server can
keep. -/
def Keeps (o : Order) : Prop :=
  (∀ s ∈ o.freeTexts, holdsText s = true) ∧ holdsMoment (g.keep o.dateCreated) = true

theorem fit_storedRows_of_valid (hg : ∀ t row, g.fits t row = t.holds row) (h : o.Valid)
    (given : Nat) : g.Fit (g.storedRows given o) ↔ g.Keeps o := by
  have huid := holdsText_uid_of_valid h
  have hitems : (∀ x ∈ g.numbered given o.items, g.fits .items (itemRow o.uid x) = true) ↔
      ∀ x ∈ o.items, ∀ s ∈ x.texts, holdsText s = true := by
    rw [g.forall_mem_numbered fun n x => by simp only [hg, holds_itemRow, withNumber]]
    exact forall₂_congr fun x hx => g.fits_itemRow_of_valid hg huid (h.each x hx)
  have hfree : (∀ s ∈ o.freeTexts, holdsText s = true) ↔ (∀ s ∈ o.headTexts, holdsText s = true) ∧
      ∀ x ∈ o.items, ∀ s ∈ x.texts, holdsText s = true := by
    simp only [Order.freeTexts, List.forall_mem_append, List.forall_mem_flatMap]
  rw [fit_storedRows_iff, g.fit_headRows_of_valid hg h, hitems, Keeps, hfree, and_right_comm]

theorem temporary_of_not_fit (h : g.Sound db) (hfit : ¬ g.Fit (g.storedRows db.given o)) :
    ∃ e, (g.does (upsert o) db).1 = .error e ∧ e.isTemporary = true := by
  have hc := g.writes_commits (o := o) h
  rw [does_upsert]
  cases hw : (g.writes o db).1 with
  | ok r =>
    rw [hw] at hc
    exact absurd hc.1.1 hfit
  | error e =>
    rw [hw] at hc
    exact ⟨e, rfl, hc.1⟩

/-- With a server that goes by the schema, and with numbers left for its items, a valid order is one
that the tables can hold if its free texts are without the character zero and its date is one that
can be kept. Then it is written; otherwise its write fails as if it might succeed later. -/
theorem valid_written_iff (hg : ∀ t row, g.fits t row = t.holds row) (os : List Order)
    (h : o.validate = .ok ())
    (hnumbers : ∀ k < o.items.length, g.number ((g.after os).given + k) < twoTo 63) :
    ((∀ t, ∀ row ∈ g.storedRows (g.after os).given o t, t.holds row = true) ↔ g.Keeps o) ∧
      ((∃ a, (g.does (upsert o) (g.after os)).1 = .ok a) ↔ g.Keeps o) ∧
      (¬ g.Keeps o →
        ∃ e, (g.does (upsert o) (g.after os)).1 = .error e ∧ e.isTemporary = true) := by
  have hsound := g.sound_after os
  have hfit := g.fit_storedRows_of_valid hg (Order.validate_eq_ok_iff.1 h) (g.after os).given
  have hrefused (hkeeps : ¬ g.Keeps o) := g.temporary_of_not_fit hsound (hfit.not.2 hkeeps)
  refine ⟨?_, ⟨fun hok => ?_, fun hkeeps => ?_⟩, hrefused⟩
  · simp only [Fit, hg] at hfit
    exact hfit
  · by_contra hkeeps
    obtain ⟨a, ha⟩ := hok
    obtain ⟨e, he, -⟩ := hrefused hkeeps
    cases ha.symm.trans he
  · obtain ⟨v, hv, -⟩ := g.writes_of_takes hsound ⟨hfit.2 hkeeps, hnumbers⟩
    rw [does_upsert, hv]
    exact ⟨_, rfl⟩

def strict : Engine := { lenient with fits := Table.holds }

theorem sample_written :
    (Order.sample "b563feb7b2b84b6test" 1).validate = .ok () ∧
      ∃ a, (strict.does (upsert (Order.sample "b563feb7b2b84b6test" 1)) (strict.after [])).1 =
        .ok a := by
  have hvalid : (Order.sample "b563feb7b2b84b6test" 1).isValid = true := by decide +kernel
  have hnumbers : ∀ k < 1, strict.number ((strict.after []).given + k) < twoTo 63 := by
    rintro k hk
    rw [Nat.lt_one_iff.1 hk]
    decide
  exact ⟨if_pos hvalid, (strict.valid_written_iff (fun _ _ => rfl) [] (if_pos hvalid)
    hnumbers).2.1.2 ⟨by decide, by decide⟩⟩

/-- With the character zero in its track number an order is still valid, but the table of orders cannot
hold its row, and its write fails as if it might succeed later. -/
theorem poison_valid :
    let o := { Order.sample "b563feb7b2b84b6test" 1 with trackNumber := "WBILM\x00TRACK" }
    o.validate = .ok () ∧ Table.orders.holds (orderRow o) = false ∧
      ∃ e, (strict.does (upsert o) .empty).1 = .error e ∧ e.isTemporary = true := by
  intro o
  have hvalid : o.isValid = true := by decide +kernel
  have hrow : Table.orders.holds (orderRow o) = false := by decide
  refine ⟨if_pos hvalid, hrow, strict.temporary_of_not_fit strict.sound_empty ?_⟩
  intro hfit
  cases hrow.symm.trans (hfit .orders _ (.head _))

end Engine

end Tables

end OrderDesk
