import Mathlib.Data.List.Forall2
import OrderDesk.Proofs.Tables.Failures

/-!
What is sent when orders are read, and what comes of it. Orders are collected from their rows one after
the other, each from the rows of its own parts, until a reply is of no use.
-/

namespace OrderDesk.Tables

variable {α β : Type}

/-! ## Work -/

inductive Asks (s : Statement) (read : Reply → Except ReplyFault α)
    (P : α → Except OrderError β → List Exchange → Prop) :
    Except OrderError β → List Exchange → Prop where
  | unread {q e} (h : ∀ a, read q ≠ .ok a) : Asks s read P (.error e) [⟨s, q⟩]
  | read {q a r xs} (h : read q = .ok a) (hs : P a r xs) : Asks s read P r (⟨s, q⟩ :: xs)

def Results (a : Except OrderError β) (r : Except OrderError β) (xs : List Exchange) : Prop :=
  r = a ∧ xs = []

def Assembled (limit : Option Int64) (r : OrderRow) :
    Except OrderError Order → List Exchange → Prop :=
  Asks (selectDelivery r.uid) (Reply.first readDeliveryRow) fun delivery =>
    Asks (selectPayment r.uid) (Reply.first readPaymentRow) fun payment =>
      match limit with
      | some limit => Asks (selectItems r.uid 0 limit) (Reply.all readItemRow) fun items =>
        Results (r.order delivery payment items)
      | none => Results (r.order delivery payment [])

structure Parts where
  row : OrderRow
  delivery : Reply
  payment : Reply
  items : Reply

namespace Parts

def exchanges (limit : Int64) (p : Parts) : List Exchange :=
  [⟨selectDelivery p.row.uid, p.delivery⟩, ⟨selectPayment p.row.uid, p.payment⟩,
    ⟨selectItems p.row.uid 0 limit, p.items⟩]

structure Make (p : Parts) (o : Order) : Prop where
  delivery : p.delivery.first readDeliveryRow = .ok o.delivery
  payment : ∃ q, p.payment.first readPaymentRow = .ok q ∧
    p.row.order o.delivery q o.items = .ok o
  items : p.items.all readItemRow = .ok o.items

end Parts

/-- Orders are collected from rows, one for each and in their order, or up to the row that none is
assembled from. -/
inductive Collected (limit : Int64) (rs : List OrderRow) :
    Except OrderError (List Order) → List Exchange → Prop where
  | all (ps : List Parts) {os} (hrows : rs = ps.map Parts.row) (h : List.Forall₂ Parts.Make ps os) :
      Collected limit rs (.ok os) (ps.flatMap (Parts.exchanges limit))
  | stopped (ps : List Parts) {os r rest e xs} (hrows : rs = ps.map Parts.row ++ r :: rest)
      (h : List.Forall₂ Parts.Make ps os) (hr : Assembled (some limit) r (.error e) xs) :
      Collected limit rs (.error e) (ps.flatMap (Parts.exchanges limit) ++ xs)

def OrderRead (uid : String) : Except OrderError Order → List Exchange → Prop :=
  Asks (selectOrder uid) (Reply.first readOrderRow) (Assembled none)

def OrdersRead (limit : Int64) : Except OrderError (List Order) → List Exchange → Prop :=
  Asks (selectOrders limit) (Reply.all readOrderRow) (Collected limit)

def ItemsRead (uid : String) (last limit : Int64) :
    Except OrderError (List Item) → List Exchange → Prop :=
  Asks (selectItems uid last limit) (Reply.all readItemRow) fun items => Results (.ok items)

/-! ## Names -/

def OrderRow.Named (r : OrderRow) : Prop := ∃ l, Locale.ofName? r.locale = some l

def PaymentRow.Named (p : PaymentRow) : Prop := ∃ c, Currency.ofName? p.currency = some c

theorem order_eq_ok_iff {r : OrderRow} {d : Delivery} {p : PaymentRow} {xs : List Item} :
    (∃ o, r.order d p xs = .ok o) ↔ r.Named ∧ p.Named := by
  unfold OrderRow.order PaymentRow.payment OrderRow.Named PaymentRow.Named
  unfold Locale.ofName Currency.ofName
  cases Locale.ofName? r.locale <;> cases Currency.ofName? p.currency <;>
    simp [named, bind, Except.bind, pure, Except.pure]

theorem parts_of_order {r : OrderRow} {d : Delivery} {p : PaymentRow} {xs : List Item} {o : Order}
    (h : r.order d p xs = .ok o) : o.delivery = d ∧ o.items = xs := by
  unfold OrderRow.order at h
  cases hl : named ("order " ++ r.uid) (Locale.ofName r.locale) with
  | error f =>
    rw [hl] at h
    cases h
  | ok locale =>
    rw [hl] at h
    cases hp : p.payment with
    | error f =>
      rw [hp] at h
      cases h
    | ok payment =>
      rw [hp] at h
      obtain rfl := Except.ok.inj h
      exact ⟨rfl, rfl⟩

namespace Work

theorem conducts_asks {s : Statement} {read : Reply → Except ReplyFault α}
    {fail : ReplyFault → OrderError} {f : α → Work β}
    {P : α → Except OrderError β → List Exchange → Prop}
    (h : ∀ a, (f a).run.Conducts (P a)) :
    (send s read fail >>= f).run.Conducts (Asks s read P) := by
  refine conducts_bind (conducts_send (fun q a hq => ?_) fun q e hq => ?_)
  · exact (h a).mono fun r xs hr => .read hq hr
  · refine .unread fun a ha => ?_
    cases hq.symm.trans ha

theorem conducts_complete (r : OrderRow) (limit : Option Int64) :
    (complete r limit).run.Conducts (Assembled limit r) := by
  refine conducts_asks fun delivery => conducts_asks fun payment => ?_
  cases limit with
  | none => exact Session.conducts_done ⟨rfl, rfl⟩
  | some limit => exact conducts_asks fun items => Session.conducts_done ⟨rfl, rfl⟩

end Work

theorem exists_parts_of_assembled {r : OrderRow} {limit : Int64} {o : Order} {xs : List Exchange}
    (h : Assembled (some limit) r (.ok o) xs) :
    ∃ p : Parts, p.row = r ∧ p.Make o ∧ xs = p.exchanges limit := by
  obtain - | ⟨hdelivery, - | ⟨hpayment, - | ⟨hitems, horder, rfl⟩⟩⟩ := h
  obtain ⟨hd, hx⟩ := parts_of_order horder.symm
  refine ⟨⟨r, _, _, _⟩, rfl, ⟨hd ▸ hdelivery, ⟨_, hpayment, ?_⟩, hx ▸ hitems⟩, rfl⟩
  rw [hd, hx, horder]

theorem Collected.cons {limit : Int64} {r : OrderRow} {rs : List OrderRow} {o : Order}
    {a : Except OrderError (List Order)} {xs ys : List Exchange}
    (h : Assembled (some limit) r (.ok o) xs) (hs : Collected limit rs a ys) :
    Collected limit (r :: rs) (a.map (o :: ·)) (xs ++ ys) := by
  obtain ⟨p, rfl, hmake, rfl⟩ := exists_parts_of_assembled h
  cases hs with
  | all ps hrows hps =>
    exact .all (p :: ps) (congrArg (p.row :: ·) hrows) (.cons hmake hps)
  | stopped ps hrows hps hr =>
    have hstopped := Collected.stopped (p :: ps) (congrArg (p.row :: ·) hrows) (.cons hmake hps) hr
    rwa [List.flatMap_cons, List.append_assoc] at hstopped

namespace Work

theorem conducts_completeAll (limit : Int64) (rs : List OrderRow) :
    (completeAll limit rs).run.Conducts (Collected limit rs) := by
  induction rs with
  | nil => exact conducts_pure (.all [] rfl .nil)
  | cons r rs ih =>
    refine conducts_bind ((conducts_complete r (some limit)).mono fun a xs ha => ?_)
    cases a with
    | error e => exact .stopped [] rfl .nil ha
    | ok o =>
      refine conducts_bind (ih.mono fun b ys hb => ?_)
      have hcons := hb.cons ha
      cases b with
      | error e => exact hcons
      | ok os =>
        refine conducts_pure ?_
        rwa [List.append_nil]

theorem conducts_loadOrder (uid : String) : (loadOrder uid none).run.Conducts (OrderRead uid) :=
  conducts_asks fun r => conducts_complete r none

theorem conducts_loadOrders (limit : Int64) : (loadOrders limit).run.Conducts (OrdersRead limit) :=
  conducts_asks fun rs => conducts_completeAll limit rs

theorem conducts_loadItems (uid : String) (last limit : Int64) :
    (loadItems uid last limit).run.Conducts (ItemsRead uid last limit) := by
  refine conducts_send (fun q xs hq => .read hq ⟨rfl, rfl⟩) fun q e hq => .unread fun a ha => ?_
  cases hq.symm.trans ha

end Work

/-! ## Usable replies -/

namespace Exchange

/-- Whether the query succeeded: the reply has the rows that were asked for, with their columns. -/
def Readable (x : Exchange) : Prop :=
  match x.statement with
  | .select .orders _ (.first ..) => ∃ rs, x.reply.all readOrderRow = .ok rs
  | .select .orders .. => ∃ r, x.reply.first readOrderRow = .ok r
  | .select .deliveries .. => ∃ d, x.reply.first readDeliveryRow = .ok d
  | .select .payments .. => ∃ p, x.reply.first readPaymentRow = .ok p
  | .select .items .. => ∃ xs, x.reply.all readItemRow = .ok xs
  | _ => x.reply.Accepted

def Misnamed (x : Exchange) : Prop :=
  match x.statement with
  | .select .orders _ (.first ..) => ∃ rs, x.reply.all readOrderRow = .ok rs ∧ ∃ r ∈ rs, ¬ r.Named
  | .select .orders .. => ∃ r, x.reply.first readOrderRow = .ok r ∧ ¬ r.Named
  | .select .payments .. => ∃ p, x.reply.first readPaymentRow = .ok p ∧ ¬ p.Named
  | _ => False

def Usable (x : Exchange) : Prop := x.Readable ∧ ¬ x.Misnamed

end Exchange

def Statement.isSelect : Statement → Bool
  | .select .. => true
  | _ => false

structure Selects (p : Prop) (r : Except OrderError α) (xs : List Exchange) : Prop where
  selects : ∀ x ∈ xs, x.statement.isSelect = true
  usable : (∃ a, r = .ok a) ↔ p ∧ ∀ x ∈ xs, x.Usable
  storage : ∀ e, r = .error e → (∀ x ∈ xs, x.Readable) → ∃ t, e = .storage t

theorem selects_of_results {p : Prop} {a r : Except OrderError α} {xs : List Exchange}
    (hok : (∃ b, a = .ok b) ↔ p) (he : ∀ e, a = .error e → ∃ t, e = .storage t)
    (h : Results a r xs) : Selects p r xs := by
  obtain ⟨rfl, rfl⟩ := h
  exact ⟨by simp, by simpa using hok, fun e h _ => he e h⟩

structure AsksFor (s : Statement) (read : Reply → Except ReplyFault α) (k : α → Prop) : Prop where
  isSelect : s.isSelect = true
  readable : ∀ q, Exchange.Readable ⟨s, q⟩ ↔ ∃ a, read q = .ok a
  misnamed : ∀ q, Exchange.Misnamed ⟨s, q⟩ ↔ ∃ a, read q = .ok a ∧ ¬ k a

theorem AsksFor.selects {s : Statement} {read : Reply → Except ReplyFault α} {k : α → Prop}
    {P : α → Except OrderError β → List Exchange → Prop} {p : Prop} (hs : AsksFor s read k)
    (hP : ∀ a r xs, P a r xs → Selects (p ∧ k a) r xs) {r : Except OrderError β}
    {xs : List Exchange} (h : Asks s read P r xs) : Selects p r xs := by
  cases h with
  | @unread q e hq =>
    have hunreadable : ¬ Exchange.Readable ⟨s, q⟩ := fun hread => by
      obtain ⟨a, ha⟩ := (hs.readable q).1 hread
      exact hq a ha
    constructor
    case selects => simpa using hs.isSelect
    case usable =>
      exact iff_of_false nofun fun h => hunreadable (h.2 _ List.mem_cons_self).1
    case storage => exact fun _ _ h => absurd (h _ List.mem_cons_self) hunreadable
  | @read q a _ xs hq hrest =>
    obtain ⟨hselects, husable, hstorage⟩ := hP a r xs hrest
    have hreadable : Exchange.Readable ⟨s, q⟩ := (hs.readable q).2 ⟨a, hq⟩
    have hnamed : ¬ Exchange.Misnamed ⟨s, q⟩ ↔ k a := by
      rw [hs.misnamed, hq]
      simp
    constructor
    case selects => exact List.forall_mem_cons.2 ⟨hs.isSelect, hselects⟩
    case usable =>
      rw [husable, List.forall_mem_cons, Exchange.Usable, hnamed]
      tauto
    case storage =>
      exact fun e he hall => hstorage e he (List.forall_mem_cons.1 hall).2

theorem asksFor_delivery (uid : String) :
    AsksFor (selectDelivery uid) (Reply.first readDeliveryRow) fun _ => True :=
  ⟨rfl, fun _ => Iff.rfl, fun _ => by simp [Exchange.Misnamed, selectDelivery]⟩

theorem asksFor_payment (uid : String) :
    AsksFor (selectPayment uid) (Reply.first readPaymentRow) PaymentRow.Named :=
  ⟨rfl, fun _ => Iff.rfl, fun _ => Iff.rfl⟩

theorem asksFor_items (uid : String) (last limit : Int64) :
    AsksFor (selectItems uid last limit) (Reply.all readItemRow) fun _ => True :=
  ⟨rfl, fun _ => Iff.rfl, fun _ => by simp [Exchange.Misnamed, selectItems]⟩

theorem asksFor_order (uid : String) :
    AsksFor (selectOrder uid) (Reply.first readOrderRow) OrderRow.Named :=
  ⟨rfl, fun _ => Iff.rfl, fun _ => Iff.rfl⟩

theorem asksFor_orders (limit : Int64) :
    AsksFor (selectOrders limit) (Reply.all readOrderRow) fun rs => ∀ r ∈ rs, r.Named :=
  ⟨rfl, fun _ => Iff.rfl, fun _ => by simp [Exchange.Misnamed, selectOrders]⟩

theorem selects_assembled {limit : Option Int64} {r : OrderRow} {a : Except OrderError Order}
    {xs : List Exchange} (h : Assembled limit r a xs) : Selects r.Named a xs := by
  refine (asksFor_delivery r.uid).selects (fun d b ys hb => ?_) h
  refine (asksFor_payment r.uid).selects (fun p c zs hc => ?_) hb
  have hok (items : List Item) : (∃ o, r.order d p items = .ok o) ↔ (r.Named ∧ True) ∧ p.Named := by
    rw [order_eq_ok_iff, and_true]
  cases limit with
  | none => exact selects_of_results (hok []) (fun e => storage_of_order) hc
  | some limit =>
    refine (asksFor_items r.uid 0 limit).selects (fun items b us hb => ?_) hc
    rw [and_true]
    exact selects_of_results (hok items) (fun e => storage_of_order) hb

theorem Parts.Make.assembled {p : Parts} {o : Order} (h : p.Make o) (limit : Int64) :
    Assembled (some limit) p.row (.ok o) (p.exchanges limit) := by
  obtain ⟨q, hq, horder⟩ := h.payment
  exact .read h.delivery (.read hq (.read h.items ⟨horder.symm, rfl⟩))

theorem usable_of_made {ps : List Parts} {os : List Order} (h : List.Forall₂ Parts.Make ps os)
    (limit : Int64) :
    (∀ r ∈ ps.map Parts.row, r.Named) ∧
      ∀ x ∈ ps.flatMap (Parts.exchanges limit), x.statement.isSelect = true ∧ x.Usable := by
  induction h with
  | nil => exact ⟨by simp, by simp⟩
  | @cons p o ps os hmake _ ih =>
    have hparts := selects_assembled (hmake.assembled limit)
    obtain ⟨hnamed, husable⟩ := hparts.usable.1 ⟨o, rfl⟩
    refine ⟨List.forall_mem_cons.2 ⟨hnamed, ih.1⟩, ?_⟩
    rw [List.flatMap_cons]
    exact List.forall_mem_append.2 ⟨fun x hx => ⟨hparts.selects x hx, husable x hx⟩, ih.2⟩

theorem selects_collected {limit : Int64} {rs : List OrderRow} {a : Except OrderError (List Order)}
    {xs : List Exchange} (h : Collected limit rs a xs) : Selects (∀ r ∈ rs, r.Named) a xs := by
  cases h with
  | @all ps os hrows hps =>
    obtain ⟨hnamed, hsent⟩ := usable_of_made hps limit
    rw [hrows]
    exact ⟨fun x hx => (hsent x hx).1, iff_of_true ⟨os, rfl⟩ ⟨hnamed, fun x hx => (hsent x hx).2⟩,
      nofun⟩
  | @stopped ps os r rest e ys hrows hps hr =>
    obtain ⟨-, hsent⟩ := usable_of_made hps limit
    obtain ⟨hselects, husable, hstorage⟩ := selects_assembled hr
    constructor
    case selects => exact List.forall_mem_append.2 ⟨fun x hx => (hsent x hx).1, hselects⟩
    case usable =>
      refine iff_of_false nofun fun ⟨hnamed, hall⟩ => ?_
      obtain ⟨o, ho⟩ := husable.2 ⟨hnamed r (by simp [hrows]), (List.forall_mem_append.1 hall).2⟩
      cases ho
    case storage =>
      intro f hf hall
      obtain rfl := Except.error.inj hf
      exact hstorage e rfl (List.forall_mem_append.1 hall).2

theorem selects_orderRead {uid : String} {r : Except OrderError Order} {xs : List Exchange}
    (h : OrderRead uid r xs) : Selects True r xs := by
  refine (asksFor_order uid).selects (fun row a ys ha => ?_) h
  rw [true_and]
  exact selects_assembled ha

theorem selects_ordersRead {limit : Int64} {r : Except OrderError (List Order)} {xs : List Exchange}
    (h : OrdersRead limit r xs) : Selects True r xs := by
  refine (asksFor_orders limit).selects (fun rs a ys ha => ?_) h
  rw [true_and]
  exact selects_collected ha

theorem selects_itemsRead {uid : String} {last limit : Int64} {r : Except OrderError (List Item)}
    {xs : List Exchange} (h : ItemsRead uid last limit r xs) : Selects True r xs := by
  refine (asksFor_items uid last limit).selects (fun items a ys ha => ?_) h
  exact selects_of_results (iff_of_true ⟨items, rfl⟩ ⟨trivial, trivial⟩) nofun ha

end OrderDesk.Tables
