import OrderDesk.Proofs.Tables.Exchanges
import OrderDesk.Proofs.Tables.Reading
import OrderDesk.Tables.Database

/-!
Runs of work with one server: what it answers, and what it leaves the server in. The laws here say
how a run follows from the runs of its parts, and how a transaction runs with a server that keeps the
tables.
-/

namespace OrderDesk.Tables

namespace Work

variable {σ α β : Type} {server : Server σ} {w v : σ} {Q : Except OrderError α → σ → Prop}

structure Ends (server : Server σ) (p : Work α) (w : σ) (Q : Except OrderError α → σ → Prop) :
    Prop where
  result : Q (p.run.run server w).1 (p.run.run server w).2.2

theorem Ends.mono {p : Work α} {P : Except OrderError α → σ → Prop} (h : Ends server p w P)
    (hPQ : ∀ r v, P r v → Q r v) : Ends server p w Q := ⟨hPQ _ _ h.result⟩

theorem ends_pure {a : α} (h : Q (.ok a) w) : Ends server (pure a) w Q := ⟨h⟩

theorem ends_throw {e : OrderError} (h : Q (.error e) w) : Ends server (throw e) w Q := ⟨h⟩

theorem ends_bind {p : Work β} {f : β → Work α}
    (h : Ends server p w fun
      | .ok b, v => Ends server (f b) v Q
      | .error e, v => Q (.error e) v) : Ends server (p >>= f) w Q := by
  obtain ⟨ha, -, hw⟩ := Session.run_bind p.run (ExceptT.bindCont f) server w
  obtain ⟨h⟩ := h
  constructor
  change Q ((p.run >>= ExceptT.bindCont f).run server w).1
    ((p.run >>= ExceptT.bindCont f).run server w).2.2
  rw [ha, hw]
  rcases hr : p.run.run server w with ⟨_ | _, t, v⟩ <;> rw [hr] at h
  · exact h
  · exact h.result

theorem ends_lift {p : Session α} (h : Q (.ok (p.run server w).1) (p.run server w).2.2) :
    Ends server (ExceptT.lift p) w Q := by
  let answer (a : α) : Session (Except OrderError α) := .done (.ok a)
  obtain ⟨ha, -, hw⟩ := Session.run_bind p answer server w
  constructor
  change Q ((p >>= answer).run server w).1 ((p >>= answer).run server w).2.2
  rw [ha, hw]
  exact h

theorem ends_reply {f : Reply → Work α} (s : Statement)
    (h : Ends server (f (server s w).1) (server s w).2 Q) :
    Ends server (ExceptT.lift (Session.perform s) >>= f) w Q :=
  ends_bind (ends_lift h)

theorem ends_send {s : Statement} {read : Reply → Except ReplyFault α}
    {fail : ReplyFault → OrderError} {q : Reply} (hs : server s w = (q, v))
    (h : match read q with
      | .ok a => Q (.ok a) v
      | .error f => Q (.error (fail f)) v) : Ends server (send s read fail) w Q := by
  refine ends_reply s ?_
  rw [hs]
  cases hr : read q with
  | ok a =>
    rw [hr] at h
    exact ends_pure h
  | error f =>
    rw [hr] at h
    exact ends_throw h

theorem ends_answer {s : Statement} {read : Reply → Except ReplyFault α}
    {fail : ReplyFault → OrderError} {q : Reply} {a : α} (hs : server s w = (q, v))
    (hr : read q = .ok a) (h : Q (.ok a) v) : Ends server (send s read fail) w Q := by
  refine ends_send hs ?_
  rw [hr]
  exact h

end Work

/-! ## A server that keeps the tables -/

theorem Table.isName_of_contains {t : Table} {column : String}
    (h : t.names.contains column = true) : isName column = true := by
  have hnames : t.names.all isName = true := by cases t <;> decide
  exact List.all_eq_true.1 hnames column (List.contains_iff_mem.1 h)

theorem Statement.isPlain_of_isKnown {s : Statement} (h : s.isKnown = true) :
    s.isPlain = true := by
  have hall {t : Table} {columns : List String} (hc : columns.all t.names.contains = true) :
      columns.all isName = true :=
    List.all_eq_true.2 fun c hcs => Table.isName_of_contains (List.all_eq_true.1 hc c hcs)
  cases s with
  | select t columns s =>
    have hs := hall h
    rw [List.all_append, Bool.and_eq_true] at hs
    cases s <;> simpa [isPlain, Selection.isPlain, Selection.columns] using hs
  | insert t values returning =>
    have hs := hall h
    rw [List.all_append, List.all_map] at hs
    cases returning <;> simpa [isPlain] using hs
  | update t values key =>
    have hs := hall h
    rw [List.all_cons, List.all_map, Bool.and_comm] at hs
    exact hs
  | delete t key => exact Table.isName_of_contains h
  | script sql => exact h
  | _ => rfl

namespace Engine

variable {α : Type} (g : Engine) {db : Database}

theorem server_eq {s : Statement} (h : s.isKnown = true) (db : Database) :
    g.server s db = g.execute db s := by
  rw [server, Statement.read?_text (Statement.isPlain_of_isKnown h)]
  exact if_pos h

theorem ends_transaction {work : Work α} {Q : Except OrderError α → Database → Prop}
    (readOnly : Bool) (hb : db.before = none)
    (h : Work.Ends g.server work { db with before := some db.rows } fun
      | .ok a, v => Q (.ok a) { v with before := none }
      | .error e, v => Q (.error e) { v with rows := v.before.getD v.rows, before := none }) :
    Work.Ends g.server (Work.transaction readOnly work) db Q := by
  have hbegin : g.server .begin db = (.affected 0, { db with before := some db.rows }) := by
    rw [g.server_eq rfl, execute, hb]
    rfl
  have hopen : Work.Ends g.server (Work.begin readOnly) db fun r v =>
      r = .ok () ∧ v = { db with before := some db.rows } := by
    refine Work.ends_bind (Work.ends_send hbegin ?_)
    cases readOnly with
    | false => exact ⟨rfl, rfl⟩
    | true =>
      refine Work.ends_reply .readOnly ?_
      rw [g.server_eq rfl]
      exact ⟨rfl, rfl⟩
  refine Work.ends_bind (hopen.mono ?_)
  rintro r v ⟨rfl, rfl⟩
  refine Work.ends_bind (Work.ends_lift ?_)
  -- the work decides between a commit, and a rollback to the rows kept at the begin
  replace h := h.result
  rcases hr : work.run.run g.server { db with before := some db.rows } with ⟨e | a, t, v⟩ <;>
    rw [hr] at h
  · refine Work.ends_reply .rollback ?_
    rw [g.server_eq rfl]
    exact Work.ends_throw h
  · refine Work.ends_reply .commit ?_
    rw [g.server_eq rfl]
    exact Work.ends_pure h

end Engine

end OrderDesk.Tables
