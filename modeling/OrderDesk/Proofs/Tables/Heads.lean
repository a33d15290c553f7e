import OrderDesk.Proofs.Tables.Holdings

/-!
Head rows: the rows of an order, its items apart. Inserting them where there were none and changing
them where there were some leaves the same rows of the order, and no others are touched. If a row is
not fit for its table, the work ends there.
-/

namespace OrderDesk.Tables

namespace Database

structure Rewrites (db : Database) (uid : String) (rows : Holdings) (given : Nat) (v : Database) :
    Prop where
  own : v.own uid = rows
  rest : v.rest uid = db.rest uid
  before : v.before = db.before
  given : v.given = given

theorem Rewrites.trans {db v w : Database} {uid : String} {rows rs : Holdings} {m n : Nat}
    (h : db.Rewrites uid rows m v) (hw : v.Rewrites uid rs n w) : db.Rewrites uid rs n w :=
  ⟨hw.own, hw.rest.trans h.rest, hw.before.trans h.before, hw.given⟩

end Database

namespace Engine

variable (g : Engine) {α β : Type} {db : Database} {uid context : String} {t : Table}
  {values : List Binding} {row : Row}

/-! ## One row -/

def Puts (t : Table) (uid : String) (row : Row) (db : Database) :
    Except OrderError α → Database → Prop
  | .ok _, v => g.fits t row = true ∧ db.Rewrites uid ((db.own uid).set t [row]) db.given v
  | .error e, v => e.isTemporary = true ∧ g.fits t row = false ∧ v = db

theorem admits_eq {others : Holdings} (ht : t ≠ .items) (hof : t.isOf uid row = true)
    (ho : ∀ r ∈ others t, t.isOf uid r = false)
    (hown : t = .orders ∨ ∃ r ∈ others .orders, Table.orders.isOf uid r = true) :
    g.admits others t row = g.fits t row := by
  rw [admits, Table.free_of_isOf ht hof ho, Table.referenced_of_isOf hof hown, Bool.and_true,
    Bool.and_true]

theorem server_insertRow (hk : (Statement.insert t values none).isKnown = true)
    (hn : t.needsNumber values = false) (hrow : g.newRow db.given t values = row)
    (ht : t ≠ .items) (hof : t.isOf uid row = true) (hnone : db.own uid t = [])
    (hown : t = .orders ∨ db.own uid .orders ≠ []) :
    g.server (.insert t values none) db = if g.fits t row = true then
      (.affected 1, db.set t (db.rows t ++ [row])) else (refusal, db) := by
  have hadmits : g.admits db.rows t row = g.fits t row := by
    refine g.admits_eq ht hof (fun r hr => ?_) (hown.imp_right fun h => ?_)
    · simpa using List.filter_eq_nil_iff.1 hnone r hr
    · obtain ⟨r, hr⟩ := List.exists_mem_of_ne_nil _ h
      exact ⟨r, List.mem_filter.1 hr⟩
  rw [g.server_eq hk]
  simp only [execute, insert, hn, hrow, hadmits, Bool.not_false, Bool.true_or, Bool.true_and,
    Bool.false_eq_true, if_false]

theorem server_updateRow {old : Row}
    (hk : (Statement.update t values (t.keyOf uid)).isKnown = true)
    (hrow : g.changed t values old = row) (ht : t ≠ .items) (hof : t.isOf uid row = true)
    (hold : db.own uid t = [old]) (hown : t = .orders ∨ db.own uid .orders ≠ []) :
    g.server (.update t values (t.keyOf uid)) db =
      if g.fits t row = true then (.affected 1, db.set t ((db.rows t).map fun r =>
        if t.isOf uid r then g.changed t values r else r)) else (refusal, db) := by
  have hadmits : g.admits (db.rows.set t (db.rest uid t)) t row = g.fits t row := by
    refine g.admits_eq ht hof (fun r hr => ?_) ?_
    · rw [Holdings.set_self] at hr
      simpa using (List.mem_filter.1 hr).2
    -- the row that is changed does not stand beside itself, but the order's own row does
    · by_cases ho : t = .orders
      · exact .inl ho
      · obtain ⟨r, hr⟩ := List.exists_mem_of_ne_nil _ (hown.resolve_left ho)
        refine .inr ⟨r, ?_, (List.mem_filter.1 hr).2⟩
        rw [Holdings.set, if_neg (Ne.symm ho)]
        exact (List.mem_filter.1 hr).1
  rw [g.server_eq hk]
  change (if ((db.own uid t).all fun r => g.admits (db.rows.set t (db.rest uid t)) t
    (g.changed t values r)) = true then (Reply.affected (db.own uid t).length, _) else _) = _
  rw [hold, List.all_cons, List.all_nil, Bool.and_true, hrow, hadmits]
  rfl

theorem ends_insertRow (hk : (Statement.insert t values none).isKnown = true)
    (hn : t.needsNumber values = false) (hrow : g.newRow db.given t values = row)
    (ht : t ≠ .items) (hof : t.isOf uid row = true) (hnone : db.own uid t = [])
    (hown : t = .orders ∨ db.own uid .orders ≠ []) :
    Work.Ends g.server (Work.ask context uid (.insert t values none) Reply.count) db
      (g.Puts t uid row db) := by
  have hs := g.server_insertRow hk hn hrow ht hof hnone hown
  cases hf : g.fits t row with
  | false =>
    rw [hf, if_neg Bool.false_ne_true] at hs
    exact Work.ends_send hs ⟨rfl, hf, rfl⟩
  | true =>
    rw [hf, if_pos rfl] at hs
    refine Work.ends_send hs ⟨hf, ?_, Database.rest_append hof, rfl, rfl⟩
    rw [Database.own_append hof, hnone]
    rfl

theorem ends_updateRow {old : Row}
    (hk : (Statement.update t values (t.keyOf uid)).isKnown = true)
    (hrow : g.changed t values old = row) (ht : t ≠ .items) (hof : t.isOf uid row = true)
    (hold : db.own uid t = [old]) (hown : t = .orders ∨ db.own uid .orders ≠ []) :
    Work.Ends g.server (Work.ask context uid (.update t values (t.keyOf uid)) Reply.count) db
      fun r v => g.Puts t uid row db r v ∧ ∀ n, r = .ok n → n = 1 := by
  have hs := g.server_updateRow hk hrow ht hof hold hown
  have hkept : ∀ r ∈ db.own uid t, t.isOf uid (g.changed t values r) = true := by
    rw [hold]
    intro r hr
    rw [List.mem_singleton.1 hr, hrow]
    exact hof
  cases hf : g.fits t row with
  | false =>
    rw [hf, if_neg Bool.false_ne_true] at hs
    refine Work.ends_send hs ⟨⟨rfl, hf, rfl⟩, ?_⟩
    rintro n ⟨⟩
  | true =>
    rw [hf, if_pos rfl] at hs
    refine Work.ends_send hs ⟨⟨hf, ?_, Database.rest_change hkept, rfl, rfl⟩, ?_⟩
    · rw [Database.own_change hkept, hold, List.map_singleton, hrow]
    · rintro n ⟨⟩
      rfl

theorem ends_put {p : Work α} {f : α → Work β} {Q : Except OrderError β → Database → Prop}
    (hp : Work.Ends g.server p db (g.Puts t uid row db))
    (hok : g.fits t row = true → ∀ a v,
      db.Rewrites uid ((db.own uid).set t [row]) db.given v → Work.Ends g.server (f a) v Q)
    (herr : g.fits t row = false → ∀ e, e.isTemporary = true → Q (.error e) db) :
    Work.Ends g.server (p >>= f) db Q := by
  refine Work.ends_bind (hp.mono ?_)
  rintro (e | a) v hv
  · obtain ⟨he, hf, rfl⟩ := hv
    exact herr hf e he
  · exact hok hv.1 a v hv.2

/-! ## The rows of an order, its items apart -/

def Fit (rows : Holdings) : Prop := ∀ t, ∀ row ∈ rows t, g.fits t row = true

def headRows (o : Order) : Holdings := heldRows (g.keptOrder o.withoutItems)

theorem fit_headRows_iff {o : Order} :
    g.Fit (g.headRows o) ↔ g.fits .orders (orderRow (g.keptOrder o)) = true ∧
      g.fits .deliveries (deliveryRow o.uid o.delivery) = true ∧
      g.fits .payments (paymentRow o.uid o.payment) = true := by
  constructor
  · exact fun h => ⟨h .orders _ (.head _), h .deliveries _ (.head _), h .payments _ (.head _)⟩
  · rintro ⟨ho, hd, hp⟩ t row hrow
    cases t with
    | orders => exact List.mem_singleton.1 hrow ▸ ho
    | deliveries => exact List.mem_singleton.1 hrow ▸ hd
    | payments => exact List.mem_singleton.1 hrow ▸ hp
    | items => cases hrow

def PutsHead (o : Order) (db : Database) : Except OrderError α → Database → Prop
  | .ok _, v => g.Fit (g.headRows o) ∧ db.Rewrites o.uid (g.headRows o) db.given v
  | .error e, v => e.isTemporary = true ∧ ¬ g.Fit (g.headRows o) ∧ v.before = db.before ∧
    v.given = db.given

theorem own_eq_headRows {o : Order} {rows : Holdings} (h : rows .items = []) :
    ((rows.set .orders [orderRow (g.keptOrder o)]).set .deliveries
      [deliveryRow o.uid o.delivery]).set .payments [paymentRow o.uid o.payment] =
        g.headRows o := by
  funext t
  cases t with
  | items => exact h
  | _ => rfl

theorem isOf_headRows {o : Order} {t : Table} {row : Row} (h : row ∈ g.headRows o t) :
    t.isOf o.uid row = true :=
  Table.isOf_of_mem_heldRows (o := g.keptOrder o.withoutItems) h

theorem ends_putHead {o : Order} {p : Work α} {q : Work β} {r : Work Unit}
    (hitems : db.own o.uid .items = [])
    (hp : Work.Ends g.server p db (g.Puts .orders o.uid (orderRow (g.keptOrder o)) db))
    (hq : ∀ v : Database,
      v.own o.uid = (db.own o.uid).set .orders [orderRow (g.keptOrder o)] →
        Work.Ends g.server q v (g.Puts .deliveries o.uid (deliveryRow o.uid o.delivery) v))
    (hr : ∀ v : Database,
      v.own o.uid = ((db.own o.uid).set .orders [orderRow (g.keptOrder o)]).set .deliveries
        [deliveryRow o.uid o.delivery] →
        Work.Ends g.server r v (g.Puts .payments o.uid (paymentRow o.uid o.payment) v)) :
    Work.Ends g.server (p >>= fun _ => q >>= fun _ => r) db (g.PutsHead o db) := by
  unfold PutsHead
  simp only [fit_headRows_iff]
  refine g.ends_put hp (fun ho _ v hv => ?_) fun ho e he =>
    ⟨he, fun h => Bool.eq_false_iff.1 ho h.1, rfl, rfl⟩
  refine g.ends_put (hq v hv.own) (fun hd _ w hw => ?_) fun hd e he =>
    ⟨he, fun h => Bool.eq_false_iff.1 hd h.2.1, hv.before, hv.given⟩
  -- the third row goes where the first two have been put
  have hvw : w.own o.uid = ((db.own o.uid).set .orders [orderRow (g.keptOrder o)]).set .deliveries
      [deliveryRow o.uid o.delivery] := by rw [hw.own, hv.own]
  refine (hr w hvw).mono fun e z hz => ?_
  cases e with
  | error e =>
    obtain ⟨he, hp, rfl⟩ := hz
    exact ⟨he, fun h => Bool.eq_false_iff.1 hp h.2.2, (hv.trans hw).before,
      hw.given.trans hv.given⟩
  | ok _ =>
    obtain ⟨hp, hz⟩ := hz
    refine ⟨⟨ho, hd, hp⟩, ?_, ((hv.trans hw).trans hz).rest, ((hv.trans hw).trans hz).before, ?_⟩
    · rw [hz.own, hvw]
      exact g.own_eq_headRows hitems
    · rw [hz.given, hw.given, hv.given]

theorem ends_insertRows {o : Order} (hnone : db.own o.uid = fun _ => []) :
    Work.Ends g.server (insertRows o) db (g.PutsHead o db) := by
  refine g.ends_putHead (congrFun hnone _) ?_ (fun v hv => ?_) fun v hv => ?_
  · exact g.ends_insertRow rfl rfl (g.newRow_orders _ o) nofun
      (g.isOf_headRows (t := .orders) (.head _)) (congrFun hnone _) (.inl rfl)
  · refine g.ends_insertRow rfl rfl (g.newRow_deliveries _ o.uid o.delivery) nofun
      (g.isOf_headRows (t := .deliveries) (.head _)) ?_ (.inr ?_) <;> rw [hv]
    · exact congrFun hnone _
    · exact List.cons_ne_nil _ _
  · refine g.ends_put (g.ends_insertRow rfl rfl (g.newRow_payments _ o.uid o.payment) nofun
      (g.isOf_headRows (t := .payments) (.head _)) ?_ (.inr ?_))
      (fun hf _ w hw => Work.ends_pure ⟨hf, hw⟩) fun hf e he => ⟨he, hf, rfl⟩ <;> rw [hv]
    · exact congrFun hnone _
    · exact List.cons_ne_nil _ _

theorem ends_updateOne {part : String} {s : Statement}
    (h : ∀ context, Work.Ends g.server (Work.ask context uid s Reply.count) db
      fun r v => g.Puts t uid row db r v ∧ ∀ n, r = .ok n → n = 1) :
    Work.Ends g.server (updateOne context part uid s) db (g.Puts t uid row db) := by
  refine Work.ends_bind ((h context).mono ?_)
  rintro (e | n) v ⟨hv, hone⟩
  · exact hv
  · rw [hone n rfl]
    exact Work.ends_pure hv

theorem server_deleteItems (db : Database) (uid : String) :
    g.server (deleteItems uid) db =
      (.affected (db.own uid .items).length, db.set .items (db.rest uid .items)) :=
  g.server_eq rfl db

theorem PutsHead.of_rewrites {o : Order} {rows : Holdings} {v w : Database}
    {r : Except OrderError α} (h : db.Rewrites o.uid rows db.given v) (hr : g.PutsHead o v r w) :
    g.PutsHead o db r w := by
  cases r with
  | ok a => exact ⟨hr.1, h.trans (h.given ▸ hr.2)⟩
  | error e => exact ⟨hr.1, hr.2.1, hr.2.2.1.trans h.before, hr.2.2.2.trans h.given⟩

theorem ends_replaceRows {o v : Order} (huid : v.uid = o.uid) (hold : db.own o.uid = heldRows v) :
    Work.Ends g.server (replaceRows o) db (g.PutsHead o db) := by
  refine Work.ends_bind (Work.ends_send (g.server_deleteItems db o.uid) ?_)
  have hcleared : db.Rewrites o.uid ((heldRows v).set .items []) db.given
      (db.set .items (db.rest o.uid .items)) :=
    ⟨by rw [Database.own_remove, hold], Database.rest_remove, rfl, rfl⟩
  refine (g.ends_putHead ?_ ?_ (fun w hw => ?_) fun w hw => ?_).mono fun r w hw =>
    PutsHead.of_rewrites g hcleared hw
  · exact congrFun hcleared.own .items
  · exact (g.ends_updateRow rfl (g.changed_orders huid) nofun
      (g.isOf_headRows (t := .orders) (.head _)) (congrFun hcleared.own .orders)
      (.inl rfl)).mono fun _ _ => And.left
  · refine g.ends_updateOne fun context => g.ends_updateRow rfl
      (g.changed_deliveries o.uid o.delivery v.delivery) nofun
      (g.isOf_headRows (t := .deliveries) (.head _)) ?_ (.inr ?_) <;> rw [hw]
    · rw [hcleared.own, ← huid]
      rfl
    · exact List.cons_ne_nil _ _
  · refine g.ends_updateOne fun context => g.ends_updateRow rfl
      (g.changed_payments o.uid o.payment v.payment) nofun
      (g.isOf_headRows (t := .payments) (.head _)) ?_ (.inr ?_) <;> rw [hw]
    · rw [hcleared.own, ← huid]
      rfl
    · exact List.cons_ne_nil _ _

end Engine

end OrderDesk.Tables
