import OrderDesk.Ingest.Run
import OrderDesk.Proofs.Desk.Deeds
import OrderDesk.Proofs.Ingest.Course

/-!
Deeds of a pipeline at its desk. Of all a pipeline does, only the handler writes there, and it
persists whole orders: the acts tell which.
-/

namespace OrderDesk

namespace Act

def isHandling : Act → Bool
  | .called .. | .answered .. => true
  | _ => false

def Passes : Act → Prop
  | .dropped _ | .closed => True
  | _ => False

theorem Passes.not_handling {a : Act} (h : a.Passes) : a.isHandling = false := by
  cases a <;> first | rfl | exact h.elim

def Aside : Act → Prop
  | .polled _ | .idled _ | .marked _ | .dropped _ | .closed => True
  | _ => False

theorem Aside.not_handling {a : Act} (h : a.Aside) : a.isHandling = false := by
  cases a <;> first | rfl | exact h.elim

theorem Passes.aside {a : Act} (h : a.Passes) : a.Aside := by
  cases a <;> trivial

/-- The orders of the calls that the handler answered without a failure. A call that is open at the
start is one for the pending order. -/
def written : Option Order → List Act → List Order
  | _, [] => []
  | _, .called _ o :: as => written (some o) as
  | pending, .answered _ (.ok ()) :: as => pending.toList ++ written none as
  | _, .answered _ (.error _) :: as => written none as
  | pending, _ :: as => written pending as

theorem written_cons_of_not_handling {a : Act} (ha : a.isHandling = false)
    (pending : Option Order) (as : List Act) : written pending (a :: as) = written pending as := by
  cases a <;> first | rfl | cases ha

theorem written_filter (pending : Option Order) (as : List Act) :
    written pending (as.filter isHandling) = written pending as := by
  induction as generalizing pending with
  | nil => rfl
  | cons a as ih =>
    cases ha : a.isHandling with
    | false => rw [List.filter_cons_of_neg (by simp [ha]), written_cons_of_not_handling ha, ih]
    | true =>
      rw [List.filter_cons_of_pos ha]
      cases a with
      | called t o => exact ih (some o)
      | answered t r =>
        cases r with
        | ok => exact congrArg (pending.toList ++ ·) (ih none)
        | error e => exact ih none
      | _ => cases ha

theorem written_append (pending : Option Order) (as bs : List Act) :
    ∃ open', written pending (as ++ bs) = written pending as ++ written open' bs := by
  induction as generalizing pending with
  | nil => exact ⟨pending, rfl⟩
  | cons a as ih =>
    cases ha : a.isHandling with
    | false =>
      obtain ⟨p, hp⟩ := ih pending
      refine ⟨p, ?_⟩
      rw [List.cons_append, written_cons_of_not_handling ha, written_cons_of_not_handling ha, hp]
    | true =>
      cases a with
      | called t o => exact ih (some o)
      | answered t r =>
        obtain ⟨p, hp⟩ := ih none
        cases r with
        | ok =>
          refine ⟨p, ?_⟩
          change pending.toList ++ written none (as ++ bs) = _
          rw [hp, ← List.append_assoc]
          rfl
        | error e => exact ⟨p, hp⟩
      | _ => cases ha

theorem written_eq_nil {as : List Act} (h : ∀ a ∈ as, a.isHandling = false)
    (pending : Option Order) : written pending as = [] := by
  have hnone : as.filter isHandling = [] := List.filter_eq_nil_iff.2 fun a ha => by simp [h a ha]
  rw [← written_filter, hnone]
  rfl

end Act

theorem Tried.act_written {m : Message} {o : Order} (ho : m.order? = some o) {left : Nat}
    {last : Option OrderError} {acts : List Act} {cause : Option Cause}
    (h : Tried o left last acts cause) (pending : Option Order) :
    Act.written pending acts = acts.filterMap m.written? := by
  induction h generalizing pending with
  | exhausted | notCalled | notAnswered | rejected => rfl
  | processed left last t u =>
    have hanswer : m.written? (.answered u (.ok ())) = some o := ho
    rw [List.filterMap_cons_none rfl, List.filterMap_cons_some hanswer]
    rfl
  | again left last t u e acts cause he h ih => exact ih none

theorem Handled.act_written {most : Nat} {m : Message} {acts : List Act} {cause : Option Cause}
    (h : Handled most m acts cause) (pending : Option Order) :
    Act.written pending acts = acts.filterMap m.written? := by
  cases h with
  | tried o acts cause ho h => exact h.act_written ho pending
  | _ => rfl

theorem Ending.not_handling_of_mem_acts {m : Message} {e : Ending} {a : Act} (h : a ∈ e.acts m) :
    a.isHandling = false := by
  rcases cases_of_mem_acts h with ⟨accepted, rfl⟩ | rfl <;> rfl

namespace Pipeline

variable {w u v : Pipeline} {m : Message} {stop : Stop} {as : List Act}

open Desk (Persists)

/-! ## Moves -/

theorem persists_passTo (w : Pipeline) (t : Nat) : Persists w.desk [] (w.passTo t).desk :=
  .still (w.store_passTo t) (w.cache_passTo t)

theorem Move.persists (h : Move m stop w as u) :
    Persists w.desk (as.filterMap m.written?) u.desk := by
  cases h with
  | note | count | call | fail => exact .still rfl rfl
  | pass t => exact w.persists_passTo t
  | interrupt =>
    cases stop with
    | never => exact .refl w.desk
    | cancel d => exact w.persists_passTo d
    | close d => exact .still (w.store_passTo d) (w.cache_passTo d)
  | persist o ho =>
    have hp := Persists.persist w.desk o
    have hwritten : [Act.answered w.now (w.access (Desk.persist o)).1].filterMap m.written? =
        Desk.written o ((Desk.persist o).run w.desk).1 := by
      unfold access
      cases ((Desk.persist o).run w.desk).1 with
      | ok =>
        have hanswer : m.written? (.answered w.now (.ok ())) = some o := ho
        exact List.filterMap_cons_some hanswer
      | error e => rfl
    rw [hwritten]
    exact hp

theorem Moves.persists (h : Moves m stop w as u) :
    Persists w.desk (as.filterMap m.written?) u.desk := by
  induction h with
  | refl w => exact .refl w.desk
  | step h _ ih =>
    rw [List.filterMap_append]
    exact h.persists.trans ih

/-! ## Acts and deeds -/

def Works (w v : Pipeline) : Prop :=
  ∃ during, v.history = w.history ++ during ∧
    ∀ pending, Persists w.desk (Act.written pending during) v.desk

theorem Works.trans (h : w.Works u) (hs : u.Works v) : w.Works v := by
  obtain ⟨as, ha, hfirst⟩ := h
  obtain ⟨bs, hb, hlast⟩ := hs
  refine ⟨as ++ bs, by rw [hb, ha, List.append_assoc], fun pending => ?_⟩
  obtain ⟨p, hp⟩ := Act.written_append pending as bs
  rw [hp]
  exact (hfirst pending).trans (hlast p)

theorem Works.of_acts (as : List Act) (hh : v.history = w.history ++ as)
    (ha : ∀ a ∈ as, a.isHandling = false) (hd : Persists w.desk [] v.desk) : w.Works v := by
  refine ⟨as, hh, fun pending => ?_⟩
  rw [Act.written_eq_nil ha]
  exact hd

theorem Works.of_act (a : Act) (ha : a.isHandling = false) (hh : v.history = w.history ++ [a])
    (hd : Persists w.desk [] v.desk) : w.Works v :=
  .of_acts [a] hh (by simpa using ha) hd

theorem history_passTo (w : Pipeline) (t : Nat) :
    ∃ as, (w.passTo t).history = w.history ++ as ∧ ∀ a ∈ as, a.Passes := by
  have hclean : ∃ keys, w.cleanUp.history = w.history ++ [.dropped keys] := by
    simp only [cleanUp]
    split <;> exact ⟨_, history_record ..⟩
  rcases w.passTo_eq t with ⟨next, he⟩ | he <;> rw [he]
  · obtain ⟨keys, hk⟩ := hclean
    exact ⟨_, hk, by simp [Act.Passes]⟩
  · exact ⟨[], (List.append_nil _).symm, by simp⟩

theorem history_interrupt (w : Pipeline) (stop : Stop) :
    ∃ as, (w.interrupt stop).history = w.history ++ as ∧ ∀ a ∈ as, a.Passes := by
  cases stop with
  | never => exact ⟨[], (List.append_nil _).symm, by simp⟩
  | cancel d => exact w.history_passTo d
  | close d =>
    obtain ⟨as, hh, ha⟩ := w.history_passTo d
    refine ⟨as ++ [.closed], ?_, ?_⟩
    · have hclose := history_record ((w.passTo d).note .info "Closing ingestion pipeline") .closed
      rw [history_note, hh, List.append_assoc] at hclose
      exact hclose
    · intro a h
      rcases List.mem_append.1 h with h | h
      · exact ha a h
      · rw [List.mem_singleton.1 h]
        trivial

/-! ## Messages -/

theorem Move.handling (h : Move m stop w as u) :
    ∃ during, u.history = w.history ++ during ∧ during.filter Act.isHandling = as ∧
      ∀ a ∈ during, a.isHandling = true ∨ a.Passes := by
  have hnone {bs : List Act} (hb : ∀ a ∈ bs, a.Passes) : bs.filter Act.isHandling = [] :=
    List.filter_eq_nil_iff.2 fun a ha => by simp [(hb a ha).not_handling]
  cases h with
  | note | count => exact ⟨[], (List.append_nil _).symm, rfl, by simp⟩
  | call | fail | persist => exact ⟨[_], history_record .., rfl, by simp [Act.isHandling]⟩
  | pass t =>
    obtain ⟨bs, hh, hb⟩ := w.history_passTo t
    exact ⟨bs, hh, hnone hb, fun a ha => .inr (hb a ha)⟩
  | interrupt =>
    obtain ⟨bs, hh, hb⟩ := w.history_interrupt stop
    exact ⟨bs, hh, hnone hb, fun a ha => .inr (hb a ha)⟩

theorem Moves.handling (h : Moves m stop w as u) :
    ∃ during, u.history = w.history ++ during ∧ during.filter Act.isHandling = as ∧
      ∀ a ∈ during, a.isHandling = true ∨ a.Passes := by
  induction h with
  | refl w => exact ⟨[], (List.append_nil _).symm, rfl, by simp⟩
  | step h _ ih =>
    obtain ⟨first, hfirst, rfl, hpass⟩ := h.handling
    obtain ⟨rest, hrest, rfl, hpasses⟩ := ih
    refine ⟨first ++ rest, by rw [hrest, hfirst, List.append_assoc], List.filter_append .., ?_⟩
    exact List.forall_mem_append.2 ⟨hpass, hpasses⟩

theorem Moves.works {cause : Option Cause} {most : Nat} (h : Moves m stop w as u)
    (hh : Handled most m as cause) : w.Works u := by
  obtain ⟨during, hhistory, hfilter, -⟩ := h.handling
  refine ⟨during, hhistory, fun pending => ?_⟩
  rw [← Act.written_filter, hfilter, hh.act_written]
  exact h.persists

theorem Ends.works {cause : Option Cause} {r : Except OrderError Outcome}
    (h : Ends w m cause r v) : w.Works v :=
  .of_acts _ h.history (fun _ => Ending.not_handling_of_mem_acts) (.still h.store h.cache)

theorem works_process (w : Pipeline) (m : Message) (stop : Stop) :
    w.Works (w.process m stop).2 := by
  obtain ⟨acts, cause, u, hh, hmoves, -, -, hend⟩ := (w.record (.began m)).carry_ends m stop
  have hbegin : w.Works (w.record (.began m)) :=
    .of_act (.began m) rfl (history_record ..) (.refl w.desk)
  have hcarry := (hbegin.trans (hmoves.works hh)).trans hend.works
  exact hcarry.trans (.of_act (.ended _ m _) rfl (history_record ..) (.refl _))

/-! ## Steps -/

structure Quiet (w v : Pipeline) : Prop where
  acts : ∃ as, v.history = w.history ++ as ∧ ∀ a ∈ as, a.Aside
  persists : Persists w.desk [] v.desk
  counted : v.desk.counted = w.desk.counted

inductive Steps : Pipeline → Pipeline → Prop where
  | quiet {w v : Pipeline} (h : w.Quiet v) : Steps w v
  | process (w : Pipeline) (m : Message) (stop : Stop) : Steps w (w.process m stop).2
  | trans {w u v : Pipeline} (h : Steps w u) (hs : Steps u v) : Steps w v

theorem Steps.works (h : w.Steps v) : w.Works v := by
  induction h with
  | quiet h =>
    obtain ⟨as, hh, ha⟩ := h.acts
    exact .of_acts as hh (fun a has => (ha a has).not_handling) h.persists
  | process w m stop => exact w.works_process m stop
  | trans _ _ ih ihs => exact ih.trans ihs

theorem Quiet.of_trace (ht : v.trace = w.trace) (hd : Persists w.desk [] v.desk)
    (hc : v.desk.counted = w.desk.counted) : w.Quiet v := by
  refine ⟨⟨[], ?_, by simp⟩, hd, hc⟩
  rw [history, ht, List.append_nil, history]

theorem quiet_passTo (w : Pipeline) (t : Nat) : w.Quiet (w.passTo t) := by
  obtain ⟨as, hh, ha⟩ := w.history_passTo t
  exact ⟨⟨as, hh, fun a has => (ha a has).aside⟩, w.persists_passTo t, w.counted_passTo t⟩

theorem quiet_poll (w : Pipeline) (timeout : Nat) : w.Quiet (w.poll timeout).2 := by
  unfold poll
  split
  · exact .of_trace rfl (.refl w.desk) rfl
  · split
    · have hpass := w.quiet_passTo (w.wakeAfter timeout)
      exact ⟨hpass.acts, hpass.persists, hpass.counted⟩
    · exact .of_trace rfl (.refl w.desk) rfl

theorem Steps.of_trace (ht : v.trace = w.trace) (hd : Persists w.desk [] v.desk)
    (hc : v.desk.counted = w.desk.counted) : w.Steps v :=
  .quiet (.of_trace ht hd hc)

theorem Steps.of_act (a : Act) (ha : a.Aside) (hh : v.history = w.history ++ [a])
    (hd : Persists w.desk [] v.desk) (hc : v.desk.counted = w.desk.counted) : w.Steps v :=
  .quiet ⟨⟨[a], hh, by simpa using ha⟩, hd, hc⟩

theorem Steps.refl (w : Pipeline) : w.Steps w := .of_trace rfl (.refl w.desk) rfl

theorem steps_note (w : Pipeline) (level : Level) (text : String) : w.Steps (w.note level text) :=
  .of_trace rfl (.still rfl rfl) rfl

theorem steps_passTo (w : Pipeline) (t : Nat) : w.Steps (w.passTo t) := .quiet (w.quiet_passTo t)

theorem steps_close (w : Pipeline) : w.Steps w.close :=
  .of_act .closed trivial (history_record ..) (.still rfl rfl) rfl

theorem steps_mark (w : Pipeline) (key : String) : w.Steps (w.mark key) :=
  .of_act (.marked key) trivial (history_record ..) (.refl w.desk) rfl

theorem steps_purge (w : Pipeline) (age : Span) : w.Steps (w.purge age).2 :=
  .of_act (.dropped _) trivial (history_record ..) (.refl w.desk) rfl

theorem steps_processMessage (w : Pipeline) (m : Message) : w.Steps (w.processMessage m).2 :=
  .process w m _

theorem steps_processAndClose (w : Pipeline) (m : Message) (after : Nat) :
    w.Steps (w.processAndClose m after).2 := by
  have hlast (u : Pipeline) : u.Steps ((u.passTo (w.wakeAfter after)).close) :=
    (u.steps_passTo _).trans (steps_close _)
  simp only [processAndClose]
  split
  · exact w.steps_close.trans (w.close.steps_processMessage m)
  · split
    · exact (w.steps_processMessage m).trans (hlast _)
    · have hprocess := Steps.process w m (.close (w.wakeAfter after))
      dsimp only
      split
      · exact hprocess
      · exact hprocess.trans (hlast _)

/-! ## Runs -/

theorem steps_react (w : Pipeline) (stop : Stop) (p : Polled) : w.Steps (w.react stop p) := by
  cases p with
  | idle => exact .refl w
  | failed e => exact w.steps_note _ _
  | message m =>
    have hprocess := Steps.process w m stop
    unfold react
    dsimp only
    rcases hp : w.process m stop with ⟨_ | _, v⟩ <;> rw [hp] at hprocess
    · exact hprocess.trans (v.steps_note _ _)
    · exact hprocess

theorem steps_take (w : Pipeline) (p : Polled) (script : List Polled) :
    w.Steps (w.take p script) :=
  .of_act (.polled p) trivial (history_record ..) (.refl w.desk) rfl

theorem steps_idleUntil (w : Pipeline) (time : Nat) : w.Steps (w.idleUntil time) := by
  unfold idleUntil
  split
  · exact (w.steps_passTo time).trans (.of_act (.idled _) trivial (history_record ..) (.refl _) rfl)
  · exact .refl w

theorem steps_consume (time : Nat) (script : List Polled) (w : Pipeline) :
    w.Steps (consume time script w) := by
  induction script generalizing w with
  | nil => exact w.steps_idleUntil time
  | cons p script ih =>
    unfold consume
    split
    · exact .refl w
    · exact ((w.steps_take p script).trans (steps_react _ _ p)).trans (ih _)

theorem steps_pollUntil (w : Pipeline) (time : Nat) : w.Steps (w.pollUntil time) := by
  unfold pollUntil
  split
  · split
    -- a closed log fails the one poll that is made
    · have hpoll : w.Steps { w.record (.polled (.failed ScriptedLog.closedError)) with
          log := w.log.idle 1 } :=
        .of_act (.polled (.failed ScriptedLog.closedError)) trivial (history_record ..) (.refl w.desk)
          rfl
      exact (hpoll.trans (steps_react _ _ _)).trans (steps_passTo _ time)
    · exact .refl w
  · exact steps_consume time w.log.script w

theorem steps_startCleaning (w : Pipeline) : w.Steps w.startCleaning := by
  unfold startCleaning
  dsimp only
  split
  · exact w.steps_note _ _
  · split
    · exact .refl w
    · exact .of_trace rfl (.refl w.desk) rfl

theorem steps_runUntil (w : Pipeline) (time : Nat) : w.Steps (w.runUntil time) := by
  have hstart := w.steps_startCleaning.trans
    (steps_note _ .info "Ingestion pipeline started")
  exact (hstart.trans (steps_pollUntil _ time)).trans (steps_note _ _ _)

theorem steps_run (w : Pipeline) (forMillis : Nat) (cancelled : Bool) :
    w.Steps (w.run forMillis cancelled) :=
  (w.steps_runUntil _).trans (steps_passTo _ _)

end Pipeline

end OrderDesk
