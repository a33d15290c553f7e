import OrderDesk.Proofs.Tables.Runs
import OrderDesk.Tables.Read
import OrderDesk.Tables.Write

/-!
Holdings: the rows that hold an order, and what the statements about an order do to them. They leave
the rows of other orders alone.
-/

namespace OrderDesk.Tables

/-! ## The rows of an order -/

def cells (vs : List Value) : Row := vs.map some

def orderRow (o : Order) : Row :=
  cells [.text o.uid, .text o.trackNumber, .text o.entry, .text o.locale.name,
    .text o.internalSignature, .text o.customerId, .text o.deliveryService, .text o.shardKey,
    .integer o.smId, .moment o.dateCreated, .text o.oofShard]

def deliveryRow (uid : String) (d : Delivery) : Row :=
  cells [.text uid, .text d.name, .text d.phone, .text d.zip, .text d.city, .text d.address,
    .text d.region, .text d.email]

def paymentRow (uid : String) (p : Payment) : Row :=
  cells [.text uid, .text p.requestId, .text p.currency.name, .text p.provider, .integer p.amount,
    .integer p.paidAt, .text p.bank, .integer p.deliveryCost, .integer p.goodsTotal,
    .integer p.customFee]

def itemRow (uid : String) (x : Item) : Row :=
  cells [.integer x.id, .text uid, .integer x.chrtId, .text x.trackNumber, .integer x.price,
    .text x.rid, .text x.name, .integer x.sale, .text x.size, .integer x.totalPrice,
    .integer x.nmId, .text x.brand, .integer x.status]

def heldRows (o : Order) : Holdings
  | .orders => [orderRow o]
  | .deliveries => [deliveryRow o.uid o.delivery]
  | .payments => [paymentRow o.uid o.payment]
  | .items => o.items.map (itemRow o.uid)

namespace Table

def keyOf (uid : String) : Table → Binding
  | .payments => paymentKey uid
  | _ => orderKey uid

def isOf (t : Table) (uid : String) (row : Row) : Bool := t.has (t.keyOf uid) row

variable {t : Table} {uid : String} {row : Row} {others : Holdings}

theorem isOf_iff :
    t.isOf uid row = true ↔ cellOf t.names row (t.keyOf uid).column = some (.text uid) := by
  cases t <;> exact decide_eq_true_iff

theorem eq_of_isOf {vid : String} (h : t.isOf uid row = true) (hv : t.isOf vid row = true) :
    uid = vid := by
  have hcolumn : (t.keyOf vid).column = (t.keyOf uid).column := by cases t <;> rfl
  rw [isOf_iff] at h hv
  rw [hcolumn, h] at hv
  simpa using hv

theorem free_of_isOf (ht : t ≠ .items) (h : t.isOf uid row = true)
    (ho : ∀ r ∈ others t, t.isOf uid r = false) : t.free others row = true := by
  have hkey : t.keyNames = [(t.keyOf uid).column] := by cases t <;> trivial
  refine List.all_eq_true.2 fun r hr => decide_eq_true fun heq => ?_
  rw [hkey, List.map_singleton, List.map_singleton, List.singleton_inj, isOf_iff.1 h, ← isOf_iff,
    ho r hr] at heq
  cases heq

theorem referenced_of_isOf (h : t.isOf uid row = true)
    (ho : t = .orders ∨ ∃ r ∈ others .orders, Table.orders.isOf uid r = true) :
    t.referenced others row = true := by
  rcases ho with rfl | ⟨r, hr, hof⟩
  · rfl
  · have hlinks : ∀ link ∈ t.links, link = ((t.keyOf uid).column, .orders, "order_uid") := by
      cases t <;> simp [links, columns, Column.key, Column.orderKey, Column.text, Column.optionalText,
        Column.integer, Column.amount, keyOf, orderKey, paymentKey, Binding.text]
    refine List.all_eq_true.2 fun link hlink => ?_
    rw [hlinks link hlink]
    refine List.any_eq_true.2 ⟨r, hr, decide_eq_true ?_⟩
    rw [isOf_iff.1 h]
    exact isOf_iff.1 hof

theorem isOf_of_mem_heldRows {o : Order} (h : row ∈ heldRows o t) : t.isOf o.uid row = true := by
  rw [isOf_iff]
  cases t with
  | orders => exact List.mem_singleton.1 h ▸ rfl
  | deliveries => exact List.mem_singleton.1 h ▸ rfl
  | payments => exact List.mem_singleton.1 h ▸ rfl
  | items =>
    obtain ⟨x, -, rfl⟩ := List.mem_map.1 h
    rfl

theorem isOf_itemRow (uid : String) (x : Item) : Table.items.isOf uid (itemRow uid x) = true :=
  isOf_iff.2 rfl

end Table

namespace Holdings

variable {rows : Holdings} {t : Table} {rs qs : List Row}

@[simp] theorem set_self : rows.set t rs t = rs := if_pos rfl

@[simp] theorem set_set : (rows.set t rs).set t qs = rows.set t qs := by
  funext u
  by_cases hu : u = t <;> simp [set, hu]

end Holdings

namespace Database

variable {db : Database} {uid : String} {t : Table} {r : Row}

def own (db : Database) (uid : String) : Holdings := fun t => (db.rows t).filter (t.isOf uid)

def rest (db : Database) (uid : String) : Holdings :=
  fun t => (db.rows t).filter fun r => !t.isOf uid r

theorem own_append (h : t.isOf uid r = true) :
    (db.set t (db.rows t ++ [r])).own uid = (db.own uid).set t (db.own uid t ++ [r]) := by
  funext u
  by_cases hu : u = t
  · subst hu
    simp [own, set, Holdings.set, h]
  · simp [own, set, Holdings.set, hu]

theorem rest_append (h : t.isOf uid r = true) :
    (db.set t (db.rows t ++ [r])).rest uid = db.rest uid := by
  funext u
  by_cases hu : u = t
  · subst hu
    simp [rest, set, Holdings.set, h]
  · simp [rest, set, Holdings.set, hu]

theorem isOf_change {f : Row → Row} (h : ∀ r ∈ db.own uid t, t.isOf uid (f r) = true) :
    ∀ r ∈ db.rows t, t.isOf uid (if t.isOf uid r then f r else r) = t.isOf uid r := by
  intro r hr
  cases hof : t.isOf uid r with
  | true => exact h r (List.mem_filter.2 ⟨hr, hof⟩)
  | false => exact hof

theorem own_change {f : Row → Row} (h : ∀ r ∈ db.own uid t, t.isOf uid (f r) = true) :
    (db.set t ((db.rows t).map fun r => if t.isOf uid r then f r else r)).own uid =
      (db.own uid).set t ((db.own uid t).map f) := by
  funext u
  by_cases hu : u = t
  · subst hu
    simp only [own, set, Holdings.set, if_true, List.filter_map, Function.comp_def]
    rw [List.filter_congr (isOf_change h)]
    exact List.map_congr_left fun r hr => if_pos (List.mem_filter.1 hr).2
  · simp [own, set, Holdings.set, hu]

theorem rest_change {f : Row → Row} (h : ∀ r ∈ db.own uid t, t.isOf uid (f r) = true) :
    (db.set t ((db.rows t).map fun r => if t.isOf uid r then f r else r)).rest uid = db.rest uid := by
  funext u
  by_cases hu : u = t
  · subst hu
    simp only [rest, set, Holdings.set, if_true, List.filter_map, Function.comp_def]
    rw [List.filter_congr fun r hr => congrArg not (isOf_change h r hr)]
    refine (List.map_congr_left fun r hr => if_neg ?_).trans (List.map_id _)
    simpa using (List.mem_filter.1 hr).2
  · simp [rest, set, Holdings.set, hu]

theorem own_remove : (db.set t (db.rest uid t)).own uid = (db.own uid).set t [] := by
  funext u
  by_cases hu : u = t
  · subst hu
    simp [own, rest, set, Holdings.set, List.filter_filter]
  · simp [own, set, Holdings.set, hu]

theorem own_of_rest {vid : String} (h : vid ≠ uid) :
    db.own vid t = (db.rest uid t).filter (t.isOf vid) := by
  rw [own, rest, List.filter_filter]
  refine List.filter_congr fun r _ => ?_
  cases hv : t.isOf vid r with
  | false => rfl
  | true =>
    cases hof : t.isOf uid r with
    | false => rfl
    | true => exact absurd (Table.eq_of_isOf hv hof) h

theorem mem_rows_iff : r ∈ db.rows t ↔ r ∈ db.own uid t ∨ r ∈ db.rest uid t := by
  rw [own, rest, List.mem_filter, List.mem_filter, ← and_or_left]
  cases t.isOf uid r <;> simp

theorem rest_remove : (db.set t (db.rest uid t)).rest uid = db.rest uid := by
  funext u
  by_cases hu : u = t
  · subst hu
    simp [rest, set, Holdings.set, List.filter_filter]
  · simp [rest, set, Holdings.set, hu]

end Database

/-! ## Values in rows -/

namespace Engine

variable (g : Engine)

def keptOrder (o : Order) : Order := { o with dateCreated := g.keep o.dateCreated }

theorem newRow_orders (n : Nat) (o : Order) :
    g.newRow n .orders (orderKey o.uid :: orderValues o) = orderRow (g.keptOrder o) := rfl

theorem newRow_deliveries (n : Nat) (uid : String) (d : Delivery) :
    g.newRow n .deliveries (orderKey uid :: deliveryValues d) = deliveryRow uid d := rfl

theorem newRow_payments (n : Nat) (uid : String) (p : Payment) :
    g.newRow n .payments (paymentKey uid :: paymentValues p) = paymentRow uid p := rfl

theorem changed_orders {o v : Order} (h : v.uid = o.uid) :
    g.changed .orders (orderValues o) (orderRow v) = orderRow (g.keptOrder o) := by
  have hrow : g.changed .orders (orderValues o) (orderRow v) =
    orderRow { g.keptOrder o with uid := v.uid } := rfl
  rw [hrow, h]
  rfl

theorem changed_deliveries (uid : String) (d e : Delivery) :
    g.changed .deliveries (deliveryValues d) (deliveryRow uid e) = deliveryRow uid d := rfl

theorem changed_payments (uid : String) (p q : Payment) :
    g.changed .payments (paymentValues p) (paymentRow uid q) = paymentRow uid p := rfl

end Engine

end OrderDesk.Tables
