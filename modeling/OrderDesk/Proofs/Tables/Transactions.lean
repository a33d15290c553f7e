import OrderDesk.Proofs.Tables.Exchanges

/-!
Transactions. The exchanges of some work stand between a beginning and an end; the end is a commit if
the work succeeded, and a rollback if it failed.
-/

namespace OrderDesk.Tables

def Reply.Accepted (r : Reply) : Prop := ∃ n, r.count = .ok n

variable {α β : Type} {P : Except OrderError α → List Exchange → Prop}

inductive Transacted (P : Except OrderError α → List Exchange → Prop) :
    Except OrderError α → List Exchange → Prop where
  | unbegun {b e} (hb : ¬ b.Accepted) : Transacted P (.error e) [⟨.begin, b⟩]
  | committed {a xs b c} (hb : b.Accepted) (h : P (.ok a) xs) (hc : c.Accepted) :
      Transacted P (.ok a) (⟨.begin, b⟩ :: xs ++ [⟨.commit, c⟩])
  /-- The commit failed, and the transaction was given up. -/
  | uncommitted {a xs b c r e} (hb : b.Accepted) (h : P (.ok a) xs) (hc : ¬ c.Accepted) :
      Transacted P (.error e) (⟨.begin, b⟩ :: xs ++ [⟨.commit, c⟩, ⟨.rollback, r⟩])
  | rolledBack {xs b r e} (hb : b.Accepted) (h : P (.error e) xs) (hr : r.Accepted) :
      Transacted P (.error e) (⟨.begin, b⟩ :: xs ++ [⟨.rollback, r⟩])
  /-- The rollback failed too, and the transaction was given up. -/
  | abandoned {xs b r q e f} (hb : b.Accepted) (h : P (.error e) xs) (hr : ¬ r.Accepted) :
      Transacted P (.error f) (⟨.begin, b⟩ :: xs ++ [⟨.rollback, r⟩, ⟨.rollback, q⟩])

theorem Transacted.map {Q : Except OrderError β → List Exchange → Prop} (f : α → β)
    (h : ∀ r xs, P r xs → Q (r.map f) xs) {r : Except OrderError α} {xs : List Exchange}
    (ht : Transacted P r xs) : Transacted Q (r.map f) xs := by
  cases ht with
  | unbegun hb => exact .unbegun hb
  | committed hb hp hc => exact .committed hb (h _ _ hp) hc
  | uncommitted hb hp hc => exact .uncommitted hb (h _ _ hp) hc
  | rolledBack hb hp hr => exact .rolledBack hb (h _ _ hp) hr
  | abandoned hb hp hr => exact .abandoned hb (h _ _ hp) hr

namespace Work

theorem conducts_pure {a : α} (h : P (.ok a) []) : (pure a : Work α).run.Conducts P :=
  Session.conducts_done h

theorem conducts_throw {e : OrderError} (h : P (.error e) []) :
    (throw e : Work α).run.Conducts P :=
  Session.conducts_done h

theorem conducts_lift {p : Session α} (h : p.Conducts fun a xs => P (.ok a) xs) :
    (ExceptT.lift p : Work α).run.Conducts P := by
  refine Session.Conducts.bind h fun a xs hp => Session.conducts_done ?_
  rwa [List.append_nil]

theorem conducts_bind {p : Work α} {f : α → Work β} {Q : Except OrderError β → List Exchange → Prop}
    (h : p.run.Conducts fun
      | .ok a, xs => (f a).run.Conducts fun r ys => Q r (xs ++ ys)
      | .error e, xs => Q (.error e) xs) : (p >>= f).run.Conducts Q := by
  refine Session.Conducts.bind h fun r xs hr => ?_
  cases r with
  | ok a => exact hr
  | error e =>
    refine Session.conducts_done ?_
    rw [List.append_nil]
    exact hr

theorem conducts_reply {f : Reply → Work β} {Q : Except OrderError β → List Exchange → Prop}
    (s : Statement) (h : ∀ q, (f q).run.Conducts fun r ys => Q r (⟨s, q⟩ :: ys)) :
    (ExceptT.lift (Session.perform s) >>= f).run.Conducts Q :=
  conducts_bind (conducts_lift (Session.conducts_perform s h))

theorem conducts_send {s : Statement} {read : Reply → Except ReplyFault α}
    {fail : ReplyFault → OrderError} (h : ∀ q a, read q = .ok a → P (.ok a) [⟨s, q⟩])
    (he : ∀ q f, read q = .error f → P (.error (fail f)) [⟨s, q⟩]) :
    (send s read fail).run.Conducts P := by
  refine conducts_reply s fun q => ?_
  cases hread : read q with
  | ok a => exact conducts_pure (h q a hread)
  | error f => exact conducts_throw (he q f hread)

theorem conducts_giveUp {e : OrderError} (h : ∀ r, P (.error e) [⟨.rollback, r⟩]) :
    (giveUp e : Work α).run.Conducts P :=
  conducts_reply .rollback fun r => conducts_throw (h r)

theorem not_accepted {r : Reply} {f : ReplyFault} (h : r.count = .error f) : ¬ r.Accepted := by
  rintro ⟨n, hn⟩
  cases h.symm.trans hn

theorem conducts_begin {P : Except OrderError Unit → List Exchange → Prop}
    (h : ∀ b, b.Accepted → P (.ok ()) [⟨.begin, b⟩])
    (he : ∀ b e, ¬ b.Accepted → P (.error e) [⟨.begin, b⟩]) :
    (begin false).run.Conducts P := by
  refine conducts_bind (conducts_send (fun b n hb => ?_) fun b f hb => ?_)
  · exact conducts_pure (h b ⟨n, hb⟩)
  · exact he b _ (not_accepted hb)

theorem conducts_finish_ok {a : α} (h : ∀ c, c.Accepted → P (.ok a) [⟨.commit, c⟩])
    (he : ∀ c r t, ¬ c.Accepted → P (.error (.storage t)) [⟨.commit, c⟩, ⟨.rollback, r⟩]) :
    (finish (.ok a)).run.Conducts P := by
  refine conducts_reply .commit fun c => ?_
  cases hc : c.count with
  | ok n => exact conducts_pure (h c ⟨n, hc⟩)
  | error f => exact conducts_giveUp fun r => he c r _ (not_accepted hc)

theorem conducts_finish_error {e : OrderError}
    (h : ∀ r, r.Accepted → P (.error e) [⟨.rollback, r⟩])
    (he : ∀ r q t, ¬ r.Accepted → P (.error (.storage t)) [⟨.rollback, r⟩, ⟨.rollback, q⟩]) :
    (finish (.error e : Except OrderError α)).run.Conducts P := by
  refine conducts_reply .rollback fun r => ?_
  cases hr : r.count with
  | ok n => exact conducts_throw (h r ⟨n, hr⟩)
  | error f =>
    refine conducts_bind (conducts_lift (Session.conducts_note _ ?_))
    exact conducts_giveUp fun q => he r q _ (not_accepted hr)

theorem conducts_transaction {work : Work α} (h : work.run.Conducts P) :
    (transaction false work).run.Conducts (Transacted P) := by
  refine conducts_bind (conducts_begin (fun b hb => ?_) fun b e hb => .unbegun hb)
  refine conducts_bind (conducts_lift (h.mono fun r xs hr => ?_))
  cases r with
  | ok a =>
    exact conducts_finish_ok (fun c hc => .committed hb hr hc) fun c r t hc => .uncommitted hb hr hc
  | error e =>
    exact conducts_finish_error (fun r hq => .rolledBack hb hr hq) fun r q t hq =>
      .abandoned hb hr hq

end Work

end OrderDesk.Tables
