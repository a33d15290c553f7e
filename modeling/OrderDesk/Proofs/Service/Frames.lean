import OrderDesk.Proofs.Desk.Frames
import OrderDesk.Proofs.Ingest.Admission
import OrderDesk.Proofs.Service.Deeds

/-!
Frames of commands. A command that has nothing to do with an order leaves it as it is.
-/

namespace OrderDesk

open Desk (Untouched)

variable {uid : String}

namespace Pipeline

variable {w u v : Pipeline} {m : Message} {stop : Stop} {as : List Act}

theorem untouched_passTo (w : Pipeline) (t : Nat) : Untouched uid w.desk (w.passTo t).desk := by
  have hstore := w.store_passTo t
  exact .of_eq (congrArg Store.shelf hstore) (w.cache_passTo t)
    (congrArg Store.readFailure hstore)

theorem untouched_close (w : Pipeline) : Untouched uid w.desk w.close.desk := .of_eq rfl rfl rfl

theorem Move.untouched (h : Move m stop w as u) (ho : ∀ o, m.order? = some o → o.uid ≠ uid) :
    Untouched uid w.desk u.desk := by
  cases h with
  | note | count | call | fail => exact .of_eq rfl rfl rfl
  | pass t => exact w.untouched_passTo t
  | interrupt =>
    cases stop with
    | never => exact .refl uid w.desk
    | cancel d => exact w.untouched_passTo d
    | close d => exact (w.untouched_passTo d).trans (untouched_close _)
  | persist o hm => exact Desk.untouched_persist w.desk (ho o hm)

theorem Moves.untouched (h : Moves m stop w as u) (ho : ∀ o, m.order? = some o → o.uid ≠ uid) :
    Untouched uid w.desk u.desk := by
  induction h with
  | refl w => exact .refl uid w.desk
  | step h _ ih => exact (h.untouched ho).trans ih

theorem untouched_process (w : Pipeline) (stop : Stop)
    (ho : ∀ o, m.order? = some o → o.uid ≠ uid) :
    Untouched uid w.desk (w.process m stop).2.desk := by
  obtain ⟨acts, cause, u, -, hmoves, -, -, hend⟩ := (w.record (.began m)).carry_ends m stop
  have hended : Untouched uid u.desk (w.process m stop).2.desk :=
    .of_eq (congrArg Store.shelf hend.store) hend.cache (congrArg Store.readFailure hend.store)
  exact (hmoves.untouched ho).trans hended

theorem untouched_processAndClose (w : Pipeline) (after : Nat)
    (ho : ∀ o, m.order? = some o → o.uid ≠ uid) :
    Untouched uid w.desk (w.processAndClose m after).2.desk := by
  have hlast (u : Pipeline) :
      Untouched uid u.desk ((u.passTo (w.wakeAfter after)).close).desk :=
    (u.untouched_passTo _).trans (untouched_close _)
  simp only [processAndClose]
  split
  · exact w.untouched_close.trans (w.close.untouched_process _ ho)
  · split
    · exact (w.untouched_process _ ho).trans (hlast _)
    · dsimp only
      split
      · exact w.untouched_process _ ho
      · exact (w.untouched_process _ ho).trans (hlast _)

theorem untouched_poll (w : Pipeline) (timeout : Nat) :
    Untouched uid w.desk (w.poll timeout).2.desk := by
  unfold poll
  split
  · exact .refl uid w.desk
  · split
    · exact w.untouched_passTo _
    · exact .refl uid w.desk

end Pipeline

namespace Api

variable {α : Type}

theorem untouched_answer (write : α → String) {operation : Access (Except OrderError α)} {d : Desk}
    (h : Untouched uid d (operation.run d).2) :
    Untouched uid d ((answer write operation).run d).2 := by
  simp only [answer, Access.run_bind]
  split
  · exact h
  · exact h.trans (.of_eq rfl rfl rfl)

theorem untouched_getOrder (id : List Char) (d : Desk) (h : segmentText? id ≠ some uid) :
    Untouched uid d ((getOrder id).run d).2 := by
  unfold getOrder
  split
  · exact .refl uid d
  · rename_i other hid
    have hother : other ≠ uid := fun he => h (hid.trans (congrArg some he))
    split
    · exact .of_eq rfl rfl rfl
    · exact untouched_answer _ (Desk.untouched_readOrder d hother)

theorem untouched_getItems (id query : List Char) (d : Desk) (h : segmentText? id ≠ some uid) :
    Untouched uid d ((getItems id query).run d).2 := by
  unfold getItems
  split
  · exact .refl uid d
  · rename_i other hid
    have hother : other ≠ uid := fun he => h (hid.trans (congrArg some he))
    split
    · exact .refl uid d
    · split
      · exact .of_eq rfl rfl rfl
      · split
        · exact .of_eq rfl rfl rfl
        · exact untouched_answer _ (Desk.untouched_readItems d hother)

def Route.Names (uid : String) : Route → Prop
  | .order id | .items id => segmentText? id = some uid
  | .health | .metrics => False

theorem untouched_respond (exposure : Exposure) (q : Request) (d : Desk)
    (h : ∀ route, Route.ofPath? q.target.path = some route → ¬ route.Names uid) :
    Untouched uid d (respond exposure q d).2 := by
  unfold respond
  split
  · exact .refl uid d
  · rename_i route hroute
    have hget : Untouched uid d (get exposure d q.target.query route).2 := by
      have hnames := h route hroute
      cases route with
      | order id => exact untouched_getOrder id d hnames
      | items id => exact untouched_getItems id _ d hnames
      | health | metrics => exact .refl uid d
    split
    · exact hget
    · split
      · exact hget
      · exact .refl uid d

end Api

def Command.Concerns (uid : String) : Command → Prop
  | .upsert o | .cacheOrder o | .persist o => o.uid = uid
  | .readOrder other | .readItems other _ _ => other = uid
  | .request method uri => ∃ q route, Api.Request.ofStrings? method uri = some q ∧
      Api.Route.ofPath? q.target.path = some route ∧ route.Names uid
  | .process m _ => ∃ o, m.order? = some o ∧ o.uid = uid
  | .failReads _ | .clearCache | .warmUp _ | .run .. => True
  | _ => False

namespace Service

theorem untouched_perform (s : Service) {c : Command} (hc : ¬ c.Concerns uid) :
    Untouched uid s.desk (s.perform c).2.desk := by
  cases c with
  | failReads | clearCache | warmUp | run => exact absurd trivial hc
  | upsert o =>
    rw [perform, access_eq]
    exact Desk.untouched_upsert s.desk hc
  | cacheOrder o => exact Desk.untouched_cache s.desk hc
  | persist o =>
    rw [perform, access_eq]
    exact Desk.untouched_persist s.desk hc
  | readOrder other =>
    rw [perform, access_eq]
    exact Desk.untouched_readOrder s.desk hc
  | readItems other last limit =>
    rw [perform, access_eq]
    exact Desk.untouched_readItems s.desk hc
  | storedOrder | storedItems | storedOrders | cachedOrder | cachedItems =>
    rw [perform, access_eq]
    exact .of_eq rfl rfl rfl
  | request method uri =>
    unfold perform
    dsimp only
    split
    · rename_i q hq
      exact Api.untouched_respond _ q _ fun route hroute hnames => hc ⟨q, route, hq, hroute, hnames⟩
    · exact .refl uid s.desk
  | process m closeAfter =>
    have ho : ∀ o, m.order? = some o → o.uid ≠ uid := fun o ho huid => hc ⟨o, ho, huid⟩
    cases closeAfter with
    | none => exact s.pipeline.untouched_process _ ho
    | some after => exact s.pipeline.untouched_processAndClose after ho
  | poll timeout => exact s.pipeline.untouched_poll timeout
  | inspect | advanceClock | commit =>
    unfold perform
    dsimp only
    split <;> exact .refl uid s.desk
  | _ => exact .of_eq rfl rfl rfl

theorem untouched_performAll (s : Service) {cs : List Command} (h : ∀ c ∈ cs, ¬ c.Concerns uid) :
    Untouched uid s.desk (s.performAll cs).2.desk := by
  induction cs generalizing s with
  | nil => exact .refl uid s.desk
  | cons c cs ih =>
    have hfirst := s.untouched_perform (h c List.mem_cons_self)
    exact hfirst.trans (ih (s.perform c).2 fun b hb => h b (List.mem_cons_of_mem c hb))

end Service

end OrderDesk
