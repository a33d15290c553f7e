import OrderDesk.Order.Sample
import OrderDesk.Proofs.Order.Pages
import OrderDesk.Proofs.Tables.Writes

/-!
Replacement: an order that is written in place of an earlier version leaves the rows that it would
leave where there was none, and is read back as it was stored.
-/

namespace OrderDesk.Tables

/-! ## Reading an order back -/

def rowOf (o : Order) : OrderRow :=
  { uid := o.uid, trackNumber := o.trackNumber, entry := o.entry, locale := o.locale.name,
    internalSignature := o.internalSignature, customerId := o.customerId,
    deliveryService := o.deliveryService, shardKey := o.shardKey, smId := o.smId,
    dateCreated := o.dateCreated, oofShard := o.oofShard }

def paymentRowOf (uid : String) (p : Payment) : PaymentRow :=
  { transaction := uid, requestId := p.requestId, currency := p.currency.name,
    provider := p.provider, amount := p.amount, paidAt := p.paidAt, bank := p.bank,
    deliveryCost := p.deliveryCost, goodsTotal := p.goodsTotal, customFee := p.customFee }

theorem first_singleton {α : Type} {read : RowReader α} {row : Row} {a : α}
    (h : read row = .ok a) : Reply.first read (.rows [row]) = .ok a := by
  simp only [Reply.first, Reply.first?, Reply.rowList, Except.bind, h]
  rfl

theorem readOrderRow_orderRow (o : Order) :
    readOrderRow (orderColumns.map (cellOf Table.orders.names (orderRow o))) = .ok (rowOf o) := rfl

theorem readDeliveryRow_deliveryRow (uid : String) (d : Delivery) :
    readDeliveryRow (deliveryColumns.map (cellOf Table.deliveries.names (deliveryRow uid d))) =
      .ok d := rfl

theorem readPaymentRow_paymentRow (uid : String) (p : Payment) :
    readPaymentRow (paymentColumns.map (cellOf Table.payments.names (paymentRow uid p))) =
      .ok (paymentRowOf uid p) := rfl

theorem readItemRow_itemRow (uid : String) (x : Item) :
    readItemRow (itemColumns.map (cellOf Table.items.names (itemRow uid x))) = .ok x := rfl

theorem all_readItemRow (uid : String) (xs : List Item) :
    Reply.all readItemRow
      (.rows (xs.map fun x => itemColumns.map (cellOf Table.items.names (itemRow uid x)))) =
        .ok xs := by
  change List.mapM readItemRow _ = _
  induction xs with
  | nil => rfl
  | cons x xs ih =>
    rw [List.map_cons, List.mapM_cons, readItemRow_itemRow, ih]
    rfl

theorem order_rowOf (o : Order) (uid : String) :
    (rowOf o).order o.delivery (paymentRowOf uid o.payment) o.items =
      .ok { o with payment := { o.payment with transaction := uid } } := by
  simp only [OrderRow.order, PaymentRow.payment, rowOf, paymentRowOf, Locale.ofName, Currency.ofName,
    Locale.ofName?_name, Currency.ofName?_name]
  rfl

namespace Engine

variable (g : Engine) {db : Database} {uid : String}

theorem server_select (db : Database) (uid : String) (t : Table) (columns : List String)
    (h : (Statement.select t columns (.matching (t.keyOf uid))).isKnown = true) :
    g.server (.select t columns (.matching (t.keyOf uid))) db =
      (.rows ((db.own uid t).map fun r => columns.map (cellOf t.names r)), db) :=
  g.server_eq h db

theorem server_selectItems {xs : List Item} {limit : Int64}
    (hown : db.own uid .items = xs.map (itemRow uid)) (hpos : ∀ x ∈ xs, 0 < x.id)
    (hasc : Page.Ascending xs) (hlimit : (xs.length : Int) ≤ limit.toInt) :
    g.server (selectItems uid 0 limit) db =
      (.rows (xs.map fun x => itemColumns.map (cellOf Table.items.names (itemRow uid x))), db) := by
  have hbeyond : (db.own uid .items).filter
      (fun r => Cell.exceeds 0 (cellOf Table.items.names r "id")) = xs.map (itemRow uid) := by
    rw [hown]
    refine List.filter_eq_self.2 (List.forall_mem_map.2 fun x hx => ?_)
    exact decide_eq_true (hpos x hx)
  have hsorted : (xs.map (itemRow uid)).mergeSort (fun r s => Cell.le
      (cellOf Table.items.names r "id") (cellOf Table.items.names s "id")) =
        xs.map (itemRow uid) := by
    refine List.mergeSort_of_pairwise (List.pairwise_map.2 (hasc.imp fun h => ?_))
    exact decide_eq_true (Int64.le_of_lt h)
  have hlength : (xs.map (itemRow uid)).length ≤ limit.toInt.toNat := by
    rw [List.length_map]
    omega
  have hsign : ¬ limit < 0 := by
    rw [Int64.lt_iff_toInt_lt]
    have hzero : (0 : Int64).toInt = 0 := rfl
    omega
  have hrows : Selection.rows? .items (db.rows .items) (.after (orderKey uid) "id" 0 limit) =
      some (xs.map (itemRow uid)) := by
    refine (if_neg hsign).trans (congrArg some ?_)
    change List.take _ (List.mergeSort ((db.own uid .items).filter _) _) = _
    rw [hbeyond, hsorted, List.take_of_length_le hlength]
  rw [g.server_eq rfl]
  simp only [selectItems, execute, hrows, List.map_map]
  rfl

theorem ends_complete {o : Order} {limit : Int64} (hown : db.own o.uid = heldRows o)
    (hpos : ∀ x ∈ o.items, 0 < x.id) (hasc : Page.Ascending o.items)
    (hlimit : (o.items.length : Int) ≤ limit.toInt) :
    Work.Ends g.server (complete (rowOf o) (some limit)) db fun r v =>
      r = .ok { o with payment := { o.payment with transaction := o.uid } } ∧ v = db := by
  have hdelivery := g.server_select db o.uid .deliveries deliveryColumns rfl
  have hpayment := g.server_select db o.uid .payments paymentColumns rfl
  have hitems := g.server_selectItems (congrFun hown .items) hpos hasc hlimit
  rw [congrFun hown .deliveries] at hdelivery
  rw [congrFun hown .payments] at hpayment
  refine Work.ends_bind (Work.ends_answer hdelivery
    (first_singleton (readDeliveryRow_deliveryRow o.uid o.delivery)) ?_)
  refine Work.ends_bind (Work.ends_answer hpayment
    (first_singleton (readPaymentRow_paymentRow o.uid o.payment)) ?_)
  refine Work.ends_bind (Work.ends_answer hitems (all_readItemRow o.uid o.items) ?_)
  change Work.Ends g.server (ExceptT.mk (pure ((rowOf o).order o.delivery
    (paymentRowOf o.uid o.payment) o.items))) db _
  rw [order_rowOf]
  exact Work.ends_pure ⟨rfl, rfl⟩

theorem ends_loadOrder {o : Order} {limit : Int64} (hown : db.own o.uid = heldRows o)
    (hpos : ∀ x ∈ o.items, 0 < x.id) (hasc : Page.Ascending o.items)
    (hlimit : (o.items.length : Int) ≤ limit.toInt) :
    Work.Ends g.server (loadOrder o.uid (some limit)) db fun r v =>
      r = .ok { o with payment := { o.payment with transaction := o.uid } } ∧ v = db := by
  have horder := g.server_select db o.uid .orders orderColumns rfl
  rw [congrFun hown .orders] at horder
  refine Work.ends_bind (Work.ends_answer horder (first_singleton (readOrderRow_orderRow o)) ?_)
  exact g.ends_complete hown hpos hasc hlimit

/-! ## Stored orders -/

theorem number_lt_of_le {given k n : Nat} (h : ∀ j < n, g.number (given + j) < twoTo 63)
    (hl : given ≤ k) (hu : k < given + n) : g.number k < twoTo 63 := by
  have hk := h (k - given) (by omega)
  rwa [Nat.add_sub_cancel' hl] at hk

theorem positive_numbered {given : Nat} {xs : List Item}
    (h : ∀ k < xs.length, g.number (given + k) < twoTo 63) :
    ∀ x ∈ g.numbered given xs, 0 < x.id := by
  intro x hx
  obtain ⟨k, hl, hu, hid⟩ := g.exists_id_of_mem_numbered hx
  rw [hid]
  exact Store.ofNat_lt_ofNat (g.positive k) (g.number_lt_of_le h hl hu)

theorem ascending_numbered {given : Nat} {xs : List Item}
    (h : ∀ k < xs.length, g.number (given + k) < twoTo 63) :
    Page.Ascending (g.numbered given xs) := by
  induction xs generalizing given with
  | nil => exact .nil
  | cons x xs ih =>
    rw [List.length_cons] at h
    have hrest : ∀ k < xs.length, g.number (given + 1 + k) < twoTo 63 :=
      fun k hk => g.number_lt_of_le h (by omega) (by omega)
    refine List.pairwise_cons.2 ⟨fun y hy => ?_, ih hrest⟩
    obtain ⟨k, hl, hu, hid⟩ := g.exists_id_of_mem_numbered hy
    rw [hid]
    exact Store.ofNat_lt_ofNat (g.number_lt_number hl) (g.number_lt_of_le hrest hl hu)

theorem storedRows_eq {o : Order} (h : o.dateCreated.nanos % 1000 = 0) (given : Nat) :
    g.storedRows given o = heldRows (g.stored given o) := by
  have hkeep : g.keep (g.stored given o).dateCreated = o.dateCreated := g.keep_whole _ h
  rw [storedRows, keptOrder, hkeep]
  rfl

end Engine

def Table.unnumbered (t : Table) (row : Row) : Row :=
  ((t.columns.zip row).filter fun c => c.1.type ≠ .serial).map Prod.snd

def Database.without (db : Database) (uid : String) (given : Nat) : Database :=
  { db with rows := db.rest uid, given }

namespace Engine

variable (g : Engine) {db : Database} {uid : String}

theorem unnumbered_storedRows (m n : Nat) (o : Order) (t : Table) :
    (g.storedRows m o t).map t.unnumbered = (g.storedRows n o t).map t.unnumbered := by
  cases t with
  | items =>
    have hitems (n : Nat) : (g.storedRows n o .items).map Table.items.unnumbered =
        o.items.map fun x => Table.items.unnumbered (itemRow o.uid x) := by
      change ((g.numbered n o.items).map (itemRow o.uid)).map Table.items.unnumbered = _
      induction o.items generalizing n with
      | nil => rfl
      | cons x xs ih => exact congrArg₂ List.cons rfl (ih (n + 1))
    rw [hitems, hitems]
  | _ => rfl

theorem own_without (n : Nat) : (db.without uid n).own uid = fun _ => [] := by
  funext t
  simp [Database.own, Database.without, Database.rest, List.filter_filter]

theorem rest_without (n : Nat) : (db.without uid n).rest uid = db.rest uid := by
  funext t
  simp [Database.without, Database.rest, List.filter_filter]

theorem Sound.without {n : Nat} (h : g.Sound db) (uid : String) (hn : db.given ≤ n) :
    g.Sound (db.without uid n) := by
  refine ⟨h.closed, fun vid => ?_, fun r hr => ?_⟩
  · by_cases hvid : vid = uid
    · exact .inl (hvid ▸ own_without n)
    · refine whole_congr ?_ (h.whole vid)
      funext t
      rw [Database.own_of_rest hvid, Database.own_of_rest hvid, rest_without]
  · obtain ⟨k, hk, hcell⟩ := h.numbered r (List.mem_filter.1 hr).1
    exact ⟨k, hk.trans_le hn, hcell⟩

theorem does_load {o : Order} {given : Nat} {limit : Int64}
    (hdate : o.dateCreated.nanos % 1000 = 0)
    (hnumbers : ∀ k < o.items.length, g.number (given + k) < twoTo 63)
    (hown : db.own o.uid = g.storedRows given o) (hlimit : (o.items.length : Int) ≤ limit.toInt) :
    g.does (loadOrder o.uid (some limit)) db = (.ok (g.stored given o), db) ∧
      g.does (complete (rowOf (g.stored given o)) (some limit)) db =
        (.ok (g.stored given o), db) := by
  have hheld : db.own o.uid = heldRows (g.stored given o) := by rw [hown, g.storedRows_eq hdate]
  have hpos := g.positive_numbered hnumbers
  have hasc := g.ascending_numbered hnumbers
  have hlength : ((g.stored given o).items.length : Int) ≤ limit.toInt := by
    rwa [stored, length_numbered]
  exact ⟨g.does_eq (g.ends_loadOrder hheld hpos hasc hlength),
    g.does_eq (g.ends_complete hheld hpos hasc hlength)⟩

/-- Writing an order in place of an earlier version leaves the rows that inserting it would leave in
tables without the order, but for the numbers of items; the rows of other orders are not touched. What
was stored is then read back with all its items. -/
theorem replacement_inserts_afresh (os : List Order) (o : Order) (n : Nat)
    (hdate : o.dateCreated.nanos % 1000 = 0) (hn : (g.after os).given ≤ n)
    (htakes : g.Takes (g.after os).given o) (hfresh : g.Takes n o) :
    let db := g.after os
    let stored := g.stored db.given o
    ∃ v w, g.writes o db =
        (.ok (stored, if db.own o.uid .orders = [] then .insert else .replace), v) ∧
      g.does (upsert o) db = (.ok stored, v) ∧
      g.writes o (db.without o.uid n) = (.ok (g.stored n o, .insert), w) ∧
      v.own o.uid = heldRows stored ∧
      (∀ t, (v.own o.uid t).map t.unnumbered = (w.own o.uid t).map t.unnumbered) ∧
      v.rest o.uid = db.rest o.uid ∧ w.rest o.uid = db.rest o.uid ∧
      ∀ limit : Int64, (o.items.length : Int) ≤ limit.toInt →
        g.does (loadOrder o.uid (some limit)) v = (.ok stored, v) ∧
          g.does (complete (rowOf stored) (some limit)) v = (.ok stored, v) := by
  intro db stored
  have hsound : g.Sound db := g.sound_after os
  -- the same write twice: to the database as it is, and to the one without the order
  obtain ⟨v, hv, hrows⟩ := g.writes_of_takes hsound htakes
  obtain ⟨w, hw, hrows'⟩ := g.writes_of_takes (hsound.without g o.uid hn) hfresh
  refine ⟨v, w, hv, ?_, ?_, ?_, fun t => ?_, hrows.rest, hrows'.rest.trans (rest_without n),
    fun limit hlimit => g.does_load hdate htakes.2 hrows.own hlimit⟩
  · rw [does_upsert, hv]
    rfl
  · rw [hw, own_without]
    rfl
  · rw [hrows.own, g.storedRows_eq hdate]
  · rw [hrows.own, hrows'.own]
    exact g.unnumbered_storedRows _ _ o t

def lenient : Engine where
  number n := n + 1
  positive := Nat.succ_pos
  ascending n := Nat.lt_succ_self (n + 1)
  keep t := t
  keep_whole _ _ := rfl
  fits _ _ := true

theorem replacement_of_samples :
    let a := Order.sample "b563feb7b2b84b6test" 1
    let o := Order.sample "b563feb7b2b84b6test" 2
    ∃ v w, lenient.writes o (lenient.after [a]) = (.ok (lenient.stored 1 o, .replace), v) ∧
      lenient.writes o ((lenient.after [a]).without o.uid 7) =
        (.ok (lenient.stored 7 o, .insert), w) ∧
      ∀ t, (v.own o.uid t).map t.unnumbered = (w.own o.uid t).map t.unnumbered := by
  intro a o
  have htakes (given count : Nat) (h : given + count < twoTo 63) :
      lenient.Takes given (Order.sample "b563feb7b2b84b6test" count) := by
    refine ⟨fun _ _ _ => rfl, fun k hk => ?_⟩
    have hcount : (Order.sample "b563feb7b2b84b6test" count).items.length = count := by
      rw [Order.sample, List.length_map, List.length_range]
    rw [hcount] at hk
    change given + k + 1 < twoTo 63
    omega
  have hafter : lenient.after [a] = (lenient.writes a .empty).2 := lenient.after_concat [] a
  obtain ⟨u, hu, hrows⟩ := lenient.writes_of_takes lenient.sound_empty (htakes 0 1 (by decide))
  rw [hu] at hafter
  have hgiven : (lenient.after [a]).given = 1 := by rw [hafter]; exact hrows.given
  have hown : (lenient.after [a]).own o.uid .orders ≠ [] := by
    rw [hafter]
    exact congrFun hrows.own .orders ▸ List.cons_ne_nil _ _
  obtain ⟨v, w, hv, -, hw, -, hsame, -⟩ := lenient.replacement_inserts_afresh [a] o 7 (by decide)
    (by rw [hgiven]; decide) (by rw [hgiven]; exact htakes 1 2 (by decide)) (htakes 7 2 (by decide))
  rw [if_neg hown, hgiven] at hv
  exact ⟨v, w, hv, hw, hsame⟩

end Engine

end OrderDesk.Tables
