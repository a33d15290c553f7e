import OrderDesk.Api.Router
import OrderDesk.Proofs.Desk.Discretion

/-!
Discretion of the read API. A failure is told by the status and the message of its kind, so alike desks
answer every request alike.
-/

namespace OrderDesk.Api

open Access (Agree agree_note)

variable {α : Type} {d e : Desk}

theorem Failure.tells_of_alike {e f : OrderError} (h : e.Alike f) :
    (Failure.order e).status = (Failure.order f).status ∧
      (Failure.order e).message = (Failure.order f).message := by
  cases h <;> exact ⟨rfl, rfl⟩

theorem agree_fail {f g : Failure} (hstatus : f.status = g.status) (hmessage : f.message = g.message) :
    Agree Eq (fail f) (fail g) := by
  have hresponse : Response.ofFailure f = Response.ofFailure g := by
    rw [Response.ofFailure, Response.ofFailure, Response.failureBody, Response.failureBody, hstatus,
      hmessage]
  unfold fail
  rw [hstatus, hresponse]
  exact (agree_note _).bind fun _ _ _ => .pure rfl

theorem agree_answer (write : α → String) {p q : Access (Except OrderError α)}
    (h : Agree AlikeAnswers p q) : Agree Eq (answer write p) (answer write q) := by
  refine h.bind fun _ _ hanswer => ?_
  cases hanswer with
  | ok a => exact .pure rfl
  | error h =>
    obtain ⟨hstatus, hmessage⟩ := Failure.tells_of_alike h
    exact agree_fail hstatus hmessage

theorem agree_getOrder (id : List Char) : Agree Eq (getOrder id) (getOrder id) := by
  unfold getOrder
  split
  · exact .pure rfl
  · split
    · exact agree_fail rfl rfl
    · exact agree_answer _ (Desk.agree_readOrder _)

theorem agree_getItems (id query : List Char) :
    Agree Eq (getItems id query) (getItems id query) := by
  unfold getItems
  split
  · exact .pure rfl
  · split
    · exact .pure rfl
    · split
      · exact agree_fail rfl rfl
      · split
        · exact agree_fail rfl rfl
        · exact agree_answer _ (Desk.agree_readItems _ _ _)

theorem alike_get (exposure : Exposure) (query : List Char) (route : Route) (h : d.Alike e) :
    Prod.RProd Eq Desk.Alike (get exposure d query route) (get exposure e query route) := by
  cases route with
  | order id => exact agree_getOrder id h
  | items id => exact agree_getItems id query h
  | health => exact ⟨rfl, h⟩
  | metrics =>
    refine ⟨?_, h⟩
    cases h with
    | intro => rfl

theorem alike_respond (exposure : Exposure) (q : Request) (h : d.Alike e) :
    Prod.RProd Eq Desk.Alike (respond exposure q d) (respond exposure q e) := by
  unfold respond
  split
  · exact ⟨rfl, h⟩
  · rename_i route _
    have hget := alike_get exposure q.target.query route h
    split
    · exact hget
    · split
      · match get exposure d q.target.query route, get exposure e q.target.query route, hget with
        | _, _, .intro rfl hdesk => exact ⟨rfl, hdesk⟩
      · exact ⟨rfl, h⟩

end OrderDesk.Api
