import OrderDesk.Proofs.Tables.Transactions
import OrderDesk.Tables.Write

/-!
What is sent when an order is written. The order's row is locked first, and whether there is one
decides on the other statements. They are sent one after the other until one is not served.
-/

namespace OrderDesk.Tables

open Work (ask)

def Statement.returns : Statement → Bool
  | .insert _ _ (some _) => true
  | _ => false

namespace Exchange

/-- Whether the reply has what is asked for. A part of an order is one row, and is to be found. -/
def Served (x : Exchange) : Prop :=
  match x.statement with
  | .select .. => ∃ row, x.reply.first? readText = .ok row
  | .insert _ _ (some _) => ∃ id, x.reply.first readInteger = .ok id
  | .update .deliveries _ _ => x.reply.count = .ok 1
  | .update .payments _ _ => x.reply.count = .ok 1
  | _ => x.reply.Accepted

def id? (x : Exchange) : Option Int64 :=
  if x.statement.returns then (x.reply.first readInteger).toOption else none

end Exchange

def Reply.found (r : Reply) : Bool :=
  match r.first? readText with
  | .ok (some _) => true
  | _ => false

def rowStatements (o : Order) (found : Bool) : List Statement :=
  (if found then [deleteItems o.uid, updateOrder o, updateDelivery o, updatePayment o]
    else [insertOrder o, insertDelivery o, insertPayment o]) ++ o.items.map (insertItem o.uid)

def Completed (plan : List Statement) (xs : List Exchange) : Prop :=
  xs.map Exchange.statement = plan ∧ ∀ x ∈ xs, x.Served

def Broken (plan : List Statement) (xs : List Exchange) : Prop :=
  ∃ ys x, xs = ys ++ [x] ∧ xs.map Exchange.statement <+: plan ∧ (∀ y ∈ ys, y.Served) ∧ ¬ x.Served

def identified (o : Order) (ids : List Int64) : Order :=
  { o with
    payment := { o.payment with transaction := o.uid }
    items := o.items.zipWith (fun x id => { x with id }) ids }

inductive Written (o : Order) : Except OrderError Order → List Exchange → Prop where
  | unlocked {l e} (hl : ¬ Exchange.Served ⟨lockOrder o.uid, l⟩) :
      Written o (.error e) [⟨lockOrder o.uid, l⟩]
  | broken {l xs e} (hl : Exchange.Served ⟨lockOrder o.uid, l⟩)
      (hxs : Broken (rowStatements o l.found) xs) :
      Written o (.error e) (⟨lockOrder o.uid, l⟩ :: xs)
  | completed {l xs} (hl : Exchange.Served ⟨lockOrder o.uid, l⟩)
      (hxs : Completed (rowStatements o l.found) xs)
      (hids : (xs.filterMap Exchange.id?).length = o.items.length) :
      Written o (.ok (identified o (xs.filterMap Exchange.id?))) (⟨lockOrder o.uid, l⟩ :: xs)

/-! ## Plans -/

variable {α β : Type} {plan next : List Statement} {xs ys : List Exchange}

theorem Completed.append (h : Completed plan xs) (hs : Completed next ys) :
    Completed (plan ++ next) (xs ++ ys) := by
  refine ⟨by rw [List.map_append, h.1, hs.1], fun x hx => ?_⟩
  rcases List.mem_append.1 hx with hx | hx
  · exact h.2 x hx
  · exact hs.2 x hx

theorem Broken.append (h : Broken plan xs) (next : List Statement) : Broken (plan ++ next) xs := by
  obtain ⟨ys, x, rfl, hplan, hys, hx⟩ := h
  exact ⟨ys, x, rfl, hplan.trans (List.prefix_append ..), hys, hx⟩

theorem Completed.append_broken (h : Completed plan xs) (hb : Broken next ys) :
    Broken (plan ++ next) (xs ++ ys) := by
  obtain ⟨zs, z, rfl, hplan, hzs, hz⟩ := hb
  refine ⟨xs ++ zs, z, (List.append_assoc ..).symm, ?_, fun x hx => ?_, hz⟩
  · rw [List.map_append, h.1]
    exact (List.prefix_append_right_inj _).2 hplan
  · rcases List.mem_append.1 hx with hx | hx
    · exact h.2 x hx
    · exact hzs x hx

def Work.Executes (plan : List Statement) (p : Work α) (Q : α → List Exchange → Prop) : Prop :=
  p.run.Conducts fun
    | .ok a, xs => Completed plan xs ∧ Q a xs
    | .error _, xs => Broken plan xs

namespace Work

theorem Executes.bind {p : Work α} {f : α → Work β} {P : α → List Exchange → Prop}
    {Q : β → List Exchange → Prop} (h : Executes plan p P)
    (hf : ∀ a xs, P a xs → Executes next (f a) fun b ys => Q b (xs ++ ys)) :
    Executes (plan ++ next) (p >>= f) Q := by
  refine conducts_bind (h.mono fun r xs hr => ?_)
  cases r with
  | error e => exact hr.append next
  | ok a =>
    obtain ⟨hxs, hp⟩ := hr
    refine (hf a xs hp).mono fun s ys hs => ?_
    cases s with
    | error e => exact hxs.append_broken hs
    | ok b => exact ⟨hxs.append hs.1, hs.2⟩

theorem executes_pure {a : α} {Q : α → List Exchange → Prop} (h : Q a []) :
    Executes [] (pure a) Q :=
  conducts_pure ⟨⟨rfl, by simp⟩, h⟩

theorem completed_singleton {x : Exchange} (h : x.Served) : Completed [x.statement] [x] :=
  ⟨rfl, by simpa using h⟩

theorem broken_singleton {x : Exchange} (h : ¬ x.Served) : Broken [x.statement] [x] :=
  ⟨[], x, rfl, List.prefix_rfl, by simp, h⟩

theorem Executes.map {p : Work α} {P : α → List Exchange → Prop} {Q : β → List Exchange → Prop}
    {f : α → β} (h : Executes plan p P) (hf : ∀ a xs, P a xs → Q (f a) xs) :
    Executes plan (p >>= fun a => pure (f a)) Q := by
  rw [← List.append_nil plan]
  refine h.bind fun a xs hp => executes_pure ?_
  rw [List.append_nil]
  exact hf a xs hp

variable {context part uid : String} {s : Statement}

theorem executes_ask {read : Reply → Except ReplyFault α} {Q : α → List Exchange → Prop}
    (hs : ∀ q, Exchange.Served ⟨s, q⟩ ↔ ∃ a, read q = .ok a)
    (h : ∀ q a, read q = .ok a → Q a [⟨s, q⟩]) :
    Executes [s] (ask context uid s read) Q := by
  refine conducts_send (fun q a hq => ⟨completed_singleton ((hs q).2 ⟨a, hq⟩), h q a hq⟩) ?_
  intro q f hq
  refine broken_singleton fun hserved => ?_
  obtain ⟨a, ha⟩ := (hs q).1 hserved
  cases hq.symm.trans ha

theorem executes_updateOne (hs : ∀ q, Exchange.Served ⟨s, q⟩ ↔ q.count = .ok 1) :
    Executes [s] (updateOne context part uid s) fun _ _ => True := by
  refine conducts_bind (conducts_send (fun q n hq => ?_) fun q f hq => ?_)
  · change Session.Conducts (ExceptT.run (ite (n ≠ 1) _ _)) _
    by_cases hn : n = 1
    · rw [if_neg (not_not_intro hn)]
      exact conducts_pure ⟨completed_singleton ((hs q).2 (hn ▸ hq)), trivial⟩
    · rw [if_pos hn]
      refine conducts_throw (broken_singleton fun hserved => hn ?_)
      exact Except.ok.inj (hq.symm.trans ((hs q).1 hserved))
  · refine broken_singleton fun hserved => ?_
    cases hq.symm.trans ((hs q).1 hserved)

theorem Executes.quiet {p : Work α} {Q : α → List Exchange → Prop} (h : Executes plan p Q)
    (hp : ∀ s ∈ plan, s.returns = false) :
    Executes plan p fun _ xs => xs.filterMap Exchange.id? = [] := by
  refine h.mono fun r xs hr => ?_
  cases r with
  | error e => exact hr
  | ok a =>
    obtain ⟨hxs, -⟩ := hr
    refine ⟨hxs, List.filterMap_eq_nil_iff.2 fun x hx => ?_⟩
    have hreturns : x.statement.returns = false := hp _ (hxs.1 ▸ List.mem_map_of_mem hx)
    rw [Exchange.id?, hreturns]
    rfl

theorem executes_count (context : String) (hs : ∀ q, Exchange.Served ⟨s, q⟩ ↔ q.Accepted) :
    Executes [s] (ask context uid s Reply.count) fun _ _ => True :=
  executes_ask hs fun _ _ _ => trivial

theorem executes_replaceRows (o : Order) :
    Executes [deleteItems o.uid, updateOrder o, updateDelivery o, updatePayment o] (replaceRows o)
      fun _ _ => True := by
  refine (executes_count _ fun _ => Iff.rfl).bind fun _ _ _ => ?_
  refine (executes_count _ fun _ => Iff.rfl).bind fun _ _ _ => ?_
  refine (executes_updateOne fun _ => Iff.rfl).bind fun _ _ _ => ?_
  exact executes_updateOne fun _ => Iff.rfl

theorem executes_insertRows (o : Order) :
    Executes [insertOrder o, insertDelivery o, insertPayment o] (insertRows o)
      fun _ _ => True := by
  refine (executes_count _ fun _ => Iff.rfl).bind fun _ _ _ => ?_
  refine (executes_count _ fun _ => Iff.rfl).bind fun _ _ _ => ?_
  exact (executes_count _ fun _ => Iff.rfl).map fun _ _ _ => trivial

theorem executes_insertItems (uid : String) (items : List Item) :
    Executes (items.map (insertItem uid)) (insertItems uid items) fun ys xs =>
      (xs.filterMap Exchange.id?).length = items.length ∧
        ys = items.zipWith (fun x id => { x with id }) (xs.filterMap Exchange.id?) := by
  induction items with
  | nil => exact executes_pure ⟨rfl, rfl⟩
  | cons x items ih =>
    have hask : Executes [insertItem uid x] (ask "failed to insert item of order" uid
        (insertItem uid x) (Reply.first readInteger))
        fun id xs => xs.filterMap Exchange.id? = [id] := by
      refine executes_ask (fun _ => Iff.rfl) fun q id hq => ?_
      simp [Exchange.id?, insertItem, Statement.returns, hq, Except.toOption]
    refine hask.bind fun id xs hxs => ih.map fun zs ys hys => ?_
    obtain ⟨hlen, hzs⟩ := hys
    rw [List.filterMap_append, hxs, List.singleton_append, List.zipWith_cons_cons, ← hzs]
    exact ⟨congrArg (· + 1) hlen, rfl⟩

theorem executes_withItems (o : Order) (kind : WriteKind) {rows : Work Unit}
    (h : Executes plan rows fun _ _ => True) (hp : ∀ s ∈ plan, s.returns = false) :
    Executes (plan ++ o.items.map (insertItem o.uid))
      (do
        rows
        let items ← insertItems o.uid o.items
        pure ({ o with payment := { o.payment with transaction := o.uid }, items }, kind))
      fun stored xs => (xs.filterMap Exchange.id?).length = o.items.length ∧
        stored.1 = identified o (xs.filterMap Exchange.id?) := by
  refine (h.quiet hp).bind fun _ xs hxs => (executes_insertItems o.uid o.items).map ?_
  rintro items ys ⟨hlen, rfl⟩
  rw [List.filterMap_append, hxs, List.nil_append]
  exact ⟨hlen, rfl⟩

theorem conducts_rows {o : Order} {l : Reply} {p : Work (Order × WriteKind)}
    (hl : Exchange.Served ⟨lockOrder o.uid, l⟩)
    (h : Executes (rowStatements o l.found) p fun stored xs =>
      (xs.filterMap Exchange.id?).length = o.items.length ∧
        stored.1 = identified o (xs.filterMap Exchange.id?)) :
    p.run.Conducts fun r xs => Written o (r.map Prod.fst) (⟨lockOrder o.uid, l⟩ :: xs) := by
  refine h.mono fun r xs hr => ?_
  cases r with
  | error e => exact .broken hl hr
  | ok stored =>
    obtain ⟨hxs, hlen, hstored⟩ := hr
    have hwritten := Written.completed hl hxs hlen
    rwa [← hstored] at hwritten

theorem conducts_writeOrder (o : Order) :
    (writeOrder o).run.Conducts fun r xs => Written o (r.map Prod.fst) xs := by
  refine conducts_bind (conducts_send (fun l row hl => ?_) fun l f hl => ?_)
  · refine conducts_rows ⟨row, hl⟩ ?_
    cases row with
    | some uid =>
      rw [show l.found = true by rw [Reply.found, hl]]
      exact executes_withItems o .replace (executes_replaceRows o) (by
        simp [deleteItems, updateOrder, updateDelivery, updatePayment, Statement.returns])
    | none =>
      rw [show l.found = false by rw [Reply.found, hl]]
      exact executes_withItems o .insert (executes_insertRows o) (by
        simp [insertOrder, insertDelivery, insertPayment, Statement.returns])
  · refine .unlocked fun hserved => ?_
    obtain ⟨row, hrow⟩ := hserved
    cases hl.symm.trans hrow

end Work

/-- The transaction in which an order is written, whatever the server replies to any statement. -/
theorem conducts_upsert (o : Order) : (upsert o).run.Conducts (Transacted (Written o)) := by
  refine Work.conducts_bind ((Work.conducts_transaction (Work.conducts_writeOrder o)).mono ?_)
  intro r xs hr
  have hwritten : Transacted (Written o) (r.map Prod.fst) xs := hr.map Prod.fst fun _ _ h => h
  cases r with
  | error e => exact hwritten
  | ok stored =>
    refine Work.conducts_bind (Work.conducts_lift (Session.conducts_count _ ?_))
    refine Work.conducts_bind (Work.conducts_lift (Session.conducts_note _ ?_))
    refine Work.conducts_pure ?_
    simp only [List.append_nil]
    exact hwritten

end OrderDesk.Tables
