import OrderDesk.Order.Sample
import OrderDesk.Proofs.Tables.Upserts
import OrderDesk.Tables.Read

/-!
Failures of what is done with the tables, by their causes. A failure is one of storage, except when
the last thing asked for was a row that is not there: such a lookup makes it a failure to find.
-/

namespace OrderDesk.Tables

open Work (ask)

def Missed (lookup : Statement → Prop) (xs : List Exchange) : Prop :=
  ∃ ys x, xs = ys ++ [x] ∧ lookup x.statement ∧ x.reply.rowList = .ok []

def Unfound (lookup : Statement → Prop) (xs : List Exchange) : Prop :=
  ∃ ys q, xs = ys ++ [⟨.rollback, q⟩] ∧ Missed lookup ys ∧ q.Accepted

structure Tells (missing : Prop) (e : OrderError) : Prop where
  notFound : e.isNotFound = true ↔ missing
  storage : e.isTemporary = true ↔ ¬ missing

def Classified {α : Type} (lookup : Statement → Prop) :
    Except OrderError α → List Exchange → Prop
  | .ok _, _ => True
  | .error e, xs => Tells (Unfound lookup xs) e

variable {α β : Type} {lookup : Statement → Prop} {xs ys : List Exchange}

/-! ## Lookups -/

theorem not_missed_nil : ¬ Missed lookup [] := by
  rintro ⟨ys, x, h, -⟩
  simp at h

theorem missed_concat (xs : List Exchange) {x : Exchange} :
    Missed lookup (xs ++ [x]) ↔ lookup x.statement ∧ x.reply.rowList = .ok [] := by
  constructor
  · rintro ⟨ys, y, h, hy⟩
    obtain ⟨-, rfl⟩ := List.append_inj' h rfl |>.imp_right List.singleton_inj.1
    exact hy
  · exact fun h => ⟨xs, x, rfl, h⟩

theorem missed_append (h : ¬ Missed lookup xs) (ys : List Exchange) :
    Missed lookup (xs ++ ys) ↔ Missed lookup ys := by
  rcases ys.eq_nil_or_concat with rfl | ⟨zs, z, rfl⟩
  · rw [List.append_nil]
    exact iff_of_false h not_missed_nil
  · rw [List.concat_eq_append, ← List.append_assoc, missed_concat, missed_concat]

theorem unfound_concat {s : Statement} {q : Reply} :
    Unfound lookup (xs ++ [⟨s, q⟩]) ↔ s = .rollback ∧ Missed lookup xs ∧ q.Accepted := by
  constructor
  · rintro ⟨ys, r, h, hys⟩
    obtain ⟨rfl, hlast⟩ := List.append_inj' h rfl
    cases hlast
    exact ⟨rfl, hys⟩
  · rintro ⟨rfl, hxs⟩
    exact ⟨xs, q, rfl, hxs⟩

theorem Tells.congr {p q : Prop} {e : OrderError} (h : Tells p e) (hpq : p ↔ q) : Tells q e :=
  ⟨h.notFound.trans hpq, h.storage.trans (not_congr hpq)⟩

theorem tells_storage {missing : Prop} (h : ¬ missing) (t : String) :
    Tells missing (.storage t) :=
  ⟨iff_of_false nofun h, iff_of_true rfl h⟩

theorem tells_notFound {missing : Prop} (h : missing) (t : String) : Tells missing (.notFound t) :=
  ⟨iff_of_true rfl h, iff_of_false nofun (not_not_intro h)⟩

/-! ## Readers -/

def Seen (r : Except ReplyFault α) : Prop := r ≠ .error .noRow

theorem seen_bind {r : Except ReplyFault α} {f : α → Except ReplyFault β} (h : Seen r)
    (hf : ∀ a, Seen (f a)) : Seen (r >>= f) := by
  cases r with
  | ok a => exact hf a
  | error e => exact fun he => h (congrArg Except.error (Except.error.inj he))

theorem seen_pure (a : α) : Seen (pure a) := nofun

theorem seen_text (columns : List String) (row : List Cell) (column : String) :
    Seen (text columns row column) := by
  unfold text textCell Seen
  split <;> nofun

theorem seen_integer (columns : List String) (row : List Cell) (column : String) :
    Seen (integer columns row column) := by
  unfold integer integerCell Seen
  split <;> nofun

theorem seen_moment (columns : List String) (row : List Cell) (column : String) :
    Seen (moment columns row column) := by
  unfold moment momentCell Seen
  split <;> nofun

theorem seen_readOrderRow (row : List Cell) : Seen (readOrderRow row) := by
  unfold readOrderRow
  repeat refine seen_bind (by first
    | exact seen_text _ _ _ | exact seen_integer _ _ _ | exact seen_moment _ _ _) fun _ => ?_
  exact seen_pure _

theorem seen_readDeliveryRow (row : List Cell) : Seen (readDeliveryRow row) := by
  unfold readDeliveryRow
  repeat refine seen_bind (seen_text _ _ _) fun _ => ?_
  exact seen_pure _

theorem seen_readPaymentRow (row : List Cell) : Seen (readPaymentRow row) := by
  unfold readPaymentRow
  repeat refine seen_bind (by first | exact seen_text _ _ _ | exact seen_integer _ _ _) fun _ => ?_
  exact seen_pure _

theorem seen_readItemRow (row : List Cell) : Seen (readItemRow row) := by
  unfold readItemRow
  repeat refine seen_bind (by first | exact seen_text _ _ _ | exact seen_integer _ _ _) fun _ => ?_
  exact seen_pure _

theorem seen_readText (row : List Cell) : Seen (readText row) := by
  unfold readText textCell Seen
  repeat' split
  all_goals nofun

theorem seen_readInteger (row : List Cell) : Seen (readInteger row) := by
  unfold readInteger integerCell Seen
  repeat' split
  all_goals nofun

theorem seen_rowList (q : Reply) : Seen q.rowList := by
  unfold Reply.rowList Seen
  split <;> nofun

theorem seen_count (q : Reply) : Seen q.count := by
  unfold Reply.count Seen
  split <;> nofun

theorem seen_map {r : Except ReplyFault α} (f : α → β) (h : Seen r) : Seen (r.map f) := by
  cases r with
  | ok a => nofun
  | error e => exact fun he => h (congrArg Except.error (Except.error.inj he))

theorem seen_first? {read : RowReader α} (h : ∀ row, Seen (read row)) (q : Reply) :
    Seen (q.first? read) := by
  refine seen_bind (seen_rowList q) fun rs => ?_
  cases rs with
  | nil => nofun
  | cons row rs => exact seen_map some (h row)

theorem seen_all {read : RowReader α} (h : ∀ row, Seen (read row)) (q : Reply) :
    Seen (q.all read) := by
  refine seen_bind (seen_rowList q) fun rs => ?_
  induction rs with
  | nil => exact seen_pure _
  | cons row rs ih =>
    rw [List.mapM_cons]
    exact seen_bind (h row) fun a => seen_bind ih fun as => seen_pure _

theorem first_eq_noRow_iff {read : RowReader α} (h : ∀ row, Seen (read row)) (q : Reply) :
    q.first read = .error .noRow ↔ q.rowList = .ok [] := by
  have hrows := seen_rowList q
  unfold Reply.first Reply.first?
  cases hq : q.rowList with
  | error f => simpa [Except.bind, Seen, hq] using hrows
  | ok rs =>
    cases rs with
    | nil => exact iff_of_true rfl rfl
    | cons row rs =>
      have hrow := h row
      cases hr : read row with
      | ok a => simp [Except.bind, Except.map, hr]
      | error f =>
        rw [hr] at hrow
        simpa [Except.bind, Except.map, hr, Seen] using hrow

/-! ## Work -/

namespace Work

def Classifies (lookup : Statement → Prop) (p : Work α) : Prop :=
  p.run.Conducts fun
    | .ok _, xs => ¬ Missed lookup xs
    | .error e, xs => Tells (Missed lookup xs) e

theorem Classifies.bind {p : Work α} {f : α → Work β} (h : Classifies lookup p)
    (hf : ∀ a, Classifies lookup (f a)) : Classifies lookup (p >>= f) := by
  refine conducts_bind (h.mono fun r xs hr => ?_)
  cases r with
  | error e => exact hr
  | ok a =>
    refine (hf a).mono fun s ys hs => ?_
    have happend := missed_append hr ys
    cases s with
    | ok b => exact mt happend.1 hs
    | error e => exact hs.congr happend.symm

theorem classifies_pure (a : α) : Classifies lookup (pure a) := conducts_pure not_missed_nil

theorem classifies_throw (t : String) : Classifies lookup (throw (.storage t) : Work α) :=
  conducts_throw (tells_storage not_missed_nil t)

variable {s : Statement} {context part uid : String}

theorem missed_singleton {q : Reply} :
    Missed lookup [⟨s, q⟩] ↔ lookup s ∧ q.rowList = .ok [] := missed_concat []

theorem classifies_ask {read : Reply → Except ReplyFault α}
    (h : ∀ q, read q = .error .noRow ↔ lookup s ∧ q.rowList = .ok []) :
    Classifies lookup (ask context uid s read) := by
  refine conducts_send (fun q a ha => ?_) fun q f hf => ?_
  · change ¬ Missed lookup _
    rw [missed_singleton, ← h, ha]
    nofun
  · have hmissed : Missed lookup [⟨s, q⟩] ↔ f = .noRow := by
      rw [missed_singleton, ← h, hf, Except.error.injEq]
    cases f with
    | noRow => exact tells_notFound (hmissed.2 rfl) _
    | refused | null | mismatched => exact tells_storage (mt hmissed.1 nofun) _

theorem classifies_ask_seen {read : Reply → Except ReplyFault α} (hs : ¬ lookup s)
    (h : ∀ q, Seen (read q)) : Classifies lookup (ask context uid s read) :=
  classifies_ask fun q => iff_of_false (h q) fun hq => hs hq.1

theorem classifies_lookup {read : RowReader α} (hs : lookup s) (h : ∀ row, Seen (read row)) :
    Classifies lookup (ask context uid s (Reply.first read)) :=
  classifies_ask fun q => (first_eq_noRow_iff h q).trans (iff_and_self.2 fun _ => hs)

theorem classifies_updateOne (hs : ¬ lookup s) :
    Classifies lookup (updateOne context part uid s) := by
  refine (classifies_ask_seen hs seen_count).bind fun n => ?_
  split
  · exact classifies_throw _
  · exact classifies_pure ()

end Work

/-! ## Transactions -/

def Statement.isFrame : Statement → Bool
  | .begin | .readOnly | .commit | .rollback => true
  | _ => false

theorem not_missed_of_frames (hl : ∀ s, lookup s → s.isFrame = false)
    (h : ∀ x ∈ xs, x.statement.isFrame = true) : ¬ Missed lookup xs := by
  rintro ⟨ys, x, rfl, hx, -⟩
  have hframe := h x (by simp)
  rw [hl _ hx] at hframe
  cases hframe

namespace Work

theorem conducts_opening {P : Except OrderError Unit → List Exchange → Prop} (readOnly : Bool)
    (h : ∀ xs, (∀ x ∈ xs, x.statement.isFrame = true) → P (.ok ()) xs)
    (he : ∀ xs t, (∀ x ∈ xs, x.statement.isFrame = true) → P (.error (.storage t)) xs) :
    (begin readOnly).run.Conducts P := by
  refine conducts_bind (conducts_send (fun b n hb => ?_) fun b f hb => ?_)
  · cases readOnly with
    | false => exact conducts_pure (h _ (by simp [Statement.isFrame]))
    | true =>
      refine conducts_reply .readOnly fun r => ?_
      cases r.count with
      | ok n => exact conducts_pure (h _ (by simp [Statement.isFrame]))
      | error f => exact conducts_giveUp fun q => he _ _ (by simp [Statement.isFrame])
  · exact he _ _ (by simp [Statement.isFrame])

theorem classified_transaction (readOnly : Bool) (hl : ∀ s, lookup s → s.isFrame = false)
    {work : Work α} (h : Classifies lookup work) :
    (transaction readOnly work).run.Conducts (Classified lookup) := by
  refine conducts_bind (conducts_opening readOnly (fun xs hxs => ?_) fun xs t hxs => ?_)
  · refine conducts_bind (conducts_lift (h.mono fun r ys hys => ?_))
    have hwork : Missed lookup (xs ++ ys) ↔ Missed lookup ys :=
      missed_append (not_missed_of_frames hl hxs) ys
    have hframe {s : Statement} {c r : Reply} (hs : s.isFrame = true) :
        ¬ Unfound lookup (xs ++ (ys ++ [⟨s, c⟩, ⟨.rollback, r⟩])) := by
      intro hunfound
      rw [show xs ++ (ys ++ [⟨s, c⟩, ⟨.rollback, r⟩]) = (xs ++ ys ++ [⟨s, c⟩]) ++ [⟨.rollback, r⟩] by
        simp, unfound_concat, missed_concat] at hunfound
      cases hs.symm.trans (hl s hunfound.2.1.1)
    cases r with
    | ok a => exact conducts_finish_ok (fun _ _ => trivial) fun c r t _ => tells_storage (hframe rfl) t
    | error e =>
      refine conducts_finish_error (fun r hr => ?_) fun r q t _ => tells_storage (hframe rfl) t
      refine Tells.congr hys ?_
      rw [← List.append_assoc, unfound_concat, hwork]
      exact ⟨fun hm => ⟨rfl, hm, hr⟩, fun hm => hm.2.1⟩
  · refine tells_storage ?_ t
    rintro ⟨zs, q, rfl, hmissed, -⟩
    exact not_missed_of_frames hl (fun x hx => hxs x (List.mem_append_left _ hx)) hmissed

end Work

/-! ## Operations -/

def LooksUpPart (s : Statement) : Prop := ∃ uid, s = selectDelivery uid ∨ s = selectPayment uid

def LooksUpOrder (uid : String) (s : Statement) : Prop := s = selectOrder uid ∨ LooksUpPart s

def ReturnsId (o : Order) (s : Statement) : Prop := ∃ x ∈ o.items, s = insertItem o.uid x

theorem storage_of_named {row : String} {r : Except UnknownName α} {e : OrderError}
    (h : named row r = .error e) : ∃ t, e = .storage t := by
  cases r with
  | ok a => cases h
  | error f => exact ⟨_, (Except.error.inj h).symm⟩

theorem storage_of_order {r : OrderRow} {d : Delivery} {p : PaymentRow} {xs : List Item}
    {e : OrderError} (h : r.order d p xs = .error e) : ∃ t, e = .storage t := by
  unfold OrderRow.order at h
  cases hl : named ("order " ++ r.uid) (Locale.ofName r.locale) with
  | error f =>
    rw [hl] at h
    obtain rfl : f = e := Except.error.inj h
    exact storage_of_named hl
  | ok locale =>
    cases hp : named ("payment " ++ p.transaction) (Currency.ofName p.currency) with
    | error f =>
      simp only [hl, PaymentRow.payment, hp] at h
      obtain rfl : f = e := Except.error.inj h
      exact storage_of_named hp
    | ok currency =>
      simp only [hl, PaymentRow.payment, hp] at h
      cases h

namespace Work

theorem classifies_result {r : Except OrderError α}
    (h : ∀ e, r = .error e → ∃ t, e = .storage t) :
    Classifies lookup (ExceptT.mk (pure r) : Work α) := by
  refine Session.conducts_done ?_
  cases r with
  | ok a => exact not_missed_nil
  | error e =>
    obtain ⟨t, rfl⟩ := h e rfl
    exact tells_storage not_missed_nil t

theorem classifies_loadItems (hl : ∀ uid last limit, ¬ lookup (selectItems uid last limit))
    (uid : String) (last limit : Int64) : Classifies lookup (loadItems uid last limit) :=
  classifies_ask_seen (hl uid last limit) (seen_all seen_readItemRow)

theorem not_looksUpPart_items (uid : String) (last limit : Int64) :
    ¬ LooksUpPart (selectItems uid last limit) := by
  rintro ⟨v, h | h⟩ <;> cases h

theorem classifies_complete (hp : ∀ s, LooksUpPart s → lookup s)
    (hl : ∀ uid last limit, ¬ lookup (selectItems uid last limit)) (r : OrderRow)
    (limit : Option Int64) : Classifies lookup (complete r limit) := by
  refine (classifies_lookup (hp _ ⟨_, .inl rfl⟩) seen_readDeliveryRow).bind fun delivery => ?_
  refine (classifies_lookup (hp _ ⟨_, .inr rfl⟩) seen_readPaymentRow).bind fun payment => ?_
  have hlast (xs : List Item) :
      Classifies lookup (ExceptT.mk (pure (r.order delivery payment xs)) : Work Order) :=
    classifies_result fun e => storage_of_order
  cases limit with
  | none => exact (classifies_pure []).bind hlast
  | some n => exact (classifies_loadItems hl r.uid 0 n).bind hlast

theorem classifies_completeAll (limit : Int64) (rs : List OrderRow) :
    Classifies LooksUpPart (completeAll limit rs) := by
  induction rs with
  | nil => exact classifies_pure []
  | cons r rs ih =>
    refine (classifies_complete (fun _ h => h) not_looksUpPart_items r _).bind fun o => ?_
    exact ih.bind fun os => classifies_pure _

theorem classifies_insertItems (o : Order) {xs : List Item} (h : ∀ x ∈ xs, x ∈ o.items) :
    Classifies (ReturnsId o) (insertItems o.uid xs) := by
  induction xs with
  | nil => exact classifies_pure []
  | cons x xs ih =>
    refine (classifies_lookup ⟨x, h x List.mem_cons_self, rfl⟩ seen_readInteger).bind fun id => ?_
    exact (ih fun y hy => h y (List.mem_cons_of_mem x hy)).bind fun ys => classifies_pure _

theorem classifies_writeOrder (o : Order) : Classifies (ReturnsId o) (writeOrder o) := by
  have hother {s : Statement} (hs : s.returns = false) : ¬ ReturnsId o s := by
    rintro ⟨x, -, rfl⟩
    cases hs
  have hcount {context : String} {s : Statement} (hs : s.returns = false) :
      Classifies (ReturnsId o) (ask context o.uid s Reply.count) :=
    classifies_ask_seen (hother hs) seen_count
  have hitems : Classifies (ReturnsId o) (insertItems o.uid o.items) :=
    classifies_insertItems o fun _ => id
  refine (classifies_ask_seen (hother rfl) (seen_first? seen_readText)).bind fun found => ?_
  have hrest (kind : WriteKind) : Classifies (ReturnsId o) (do
      let items ← insertItems o.uid o.items
      pure ({ o with payment := { o.payment with transaction := o.uid }, items }, kind)) :=
    hitems.bind fun xs => classifies_pure _
  cases found with
  | some uid =>
    have hrows : Classifies (ReturnsId o) (replaceRows o) := by
      refine (hcount rfl).bind fun _ => (hcount rfl).bind fun _ => ?_
      exact (classifies_updateOne (hother rfl)).bind fun _ => classifies_updateOne (hother rfl)
    exact hrows.bind fun _ => hrest .replace
  | none =>
    have hrows : Classifies (ReturnsId o) (insertRows o) := by
      refine (hcount rfl).bind fun _ => (hcount rfl).bind fun _ => ?_
      exact (hcount rfl).bind fun _ => classifies_pure ()
    exact hrows.bind fun _ => hrest .insert

theorem classified_upsert (o : Order) : (upsert o).run.Conducts (Classified (ReturnsId o)) := by
  have hframe : ∀ s, ReturnsId o s → s.isFrame = false := by
    rintro s ⟨x, -, rfl⟩
    rfl
  refine conducts_bind ((classified_transaction false hframe (classifies_writeOrder o)).mono ?_)
  intro r xs hr
  cases r with
  | error e => exact hr
  | ok stored =>
    refine conducts_bind (conducts_lift (Session.conducts_count _ ?_))
    refine conducts_bind (conducts_lift (Session.conducts_note _ ?_))
    exact conducts_pure trivial

theorem classifies_loadOrder (uid : String) (limit : Option Int64) :
    Classifies (LooksUpOrder uid) (loadOrder uid limit) := by
  refine (classifies_lookup (.inl rfl) seen_readOrderRow).bind fun r => ?_
  refine classifies_complete (fun _ => .inr) (fun v last n h => ?_) r limit
  exact h.elim nofun (not_looksUpPart_items v last n)

theorem classifies_loadOrders (limit : Int64) : Classifies LooksUpPart (loadOrders limit) := by
  have hs : ¬ LooksUpPart (selectOrders limit) := by rintro ⟨v, h | h⟩ <;> cases h
  have hmissed (q : Reply) : ¬ Missed LooksUpPart [⟨selectOrders limit, q⟩] :=
    fun h => hs (missed_singleton.1 h).1
  have hselect : Classifies LooksUpPart (send (selectOrders limit) (Reply.all readOrderRow)
      fun f => .storage ("failed to get all orders: " ++ f.message)) :=
    conducts_send (fun q _ _ => hmissed q) fun q _ _ => tells_storage (hmissed q) _
  exact hselect.bind fun rs => classifies_completeAll limit rs

theorem not_frame_of_looksUpPart {s : Statement} (h : LooksUpPart s) : s.isFrame = false := by
  obtain ⟨uid, rfl | rfl⟩ := h <;> rfl

theorem classified_order (uid : String) :
    (order uid).run.Conducts (Classified (LooksUpOrder uid)) := by
  refine classified_transaction true ?_ (classifies_loadOrder uid none)
  rintro s (rfl | h)
  · rfl
  · exact not_frame_of_looksUpPart h

theorem classified_orders (limit : Int64) :
    (orders limit).run.Conducts (Classified LooksUpPart) :=
  classified_transaction true (fun _ => not_frame_of_looksUpPart) (classifies_loadOrders limit)

theorem classified_items (uid : String) (last limit : Int64) :
    (items uid last limit).run.Conducts (Classified fun _ => False) :=
  classified_transaction true (fun _ => False.elim)
    (classifies_loadItems (fun _ _ _ => not_false) uid last limit)

end Work

/-- Whatever a server replies, a failure is one of storage, unless the transaction was rolled back for
the insertion of an item that returned no id, or for the lookup of an order or of a part of one. -/
theorem errors_classified (o : Order) (uid : String) (last limit : Int64) :
    (upsert o).run.Conducts (Classified (ReturnsId o)) ∧
      (orders limit).run.Conducts (Classified LooksUpPart) ∧
      (items uid last limit).run.Conducts (Classified fun _ => False) ∧
      (order uid).run.Conducts (Classified (LooksUpOrder uid)) :=
  ⟨Work.classified_upsert o, Work.classified_orders limit, Work.classified_items uid last limit,
    Work.classified_order uid⟩

def scripted : Server (List Reply) := fun _ replies => (replies.headD (.affected 0), replies.tail)

/-- An id that is not returned and a part that is missing are failures to find, though it is an order
that is written, all orders that are read, or one whose own row was found. -/
theorem errors_misclassified :
    let o := Order.sample "b563feb7b2b84b6test" 1
    let found := Reply.rows [(orderKey o.uid :: orderValues o).map fun b => some b.value]
    let done := Reply.affected 1
    let nothing := Reply.rows []
    (∃ e, ((upsert o).run.run scripted [done, nothing, done, done, done, nothing, done]).1 =
      .error e ∧ e.isTemporary = false ∧ e.isNotFound = true) ∧
    (∃ e, ((orders 10).run.run scripted [done, done, found, nothing, done]).1 =
      .error e ∧ e.isTemporary = false ∧ e.isNotFound = true) ∧
    ∃ e, ((order o.uid).run.run scripted [done, done, found, nothing, done]).1 =
      .error e ∧ e.isTemporary = false ∧ e.isNotFound = true :=
  ⟨⟨_, rfl, rfl, rfl⟩, ⟨_, rfl, rfl, rfl⟩, ⟨_, rfl, rfl, rfl⟩⟩

end OrderDesk.Tables
