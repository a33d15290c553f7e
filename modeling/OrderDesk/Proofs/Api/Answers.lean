import OrderDesk.Api.Router

/-!
Answers of the read API: what a failure is answered with, and which page parameters are refused before
anything is read.
-/

namespace OrderDesk.Api

variable {α : Type}

/-! ## Failures -/

def notices : List (Nat × String) :=
  [(400, "Invalid request parameters"), (404, "Order not found"), (500, "Database error"),
    (500, "Kafka service error")]

/-- A failure in the one form that failures have: an object of the status and the message. -/
def Response.Uniform (r : Response) : Prop :=
  ∃ n ∈ notices, r =
    { status := n.1
      contentType := some "application/json"
      allow := none
      body := "\x7b\"status\":" ++ Text.Decimal.natText n.1 ++ ",\"message\":\"" ++ n.2 ++ "\"\x7d" }

theorem uniform_ofFailure (f : Failure) : (Response.ofFailure f).Uniform := by
  have hbody : ∀ n ∈ notices,
      String.ofList (Wire.writeObject
        [("status", Text.Decimal.ofNat n.1), ("message", Wire.writeText n.2)]) =
      "\x7b\"status\":" ++ Text.Decimal.natText n.1 ++ ",\"message\":\"" ++ n.2 ++ "\"\x7d" := by
    decide +kernel
  have hnotice : (f.status, f.message) ∈ notices := by
    rcases f with _ | (_ | _ | _ | _) <;> simp [Failure.status, Failure.message, notices]
  refine ⟨_, hnotice, ?_⟩
  rw [← hbody _ hnotice]
  rfl

theorem Response.not_uniform_plain (status : Nat) (body : String) :
    ¬ (plain status body).Uniform := by
  rintro ⟨n, -, h⟩
  have htype : some "text/plain; charset=utf-8" = some "application/json" :=
    congrArg Response.contentType h
  exact absurd htype (by decide)

theorem answer_answer (write : α → String) (operation : Access (Except OrderError α)) (d : Desk) :
    ((answer write operation).run d).1 =
      match (operation.run d).1 with
      | .ok a => .json 200 (write a)
      | .error e => .ofFailure (.order e) := by
  simp only [answer, Access.run_bind]
  cases (operation.run d).1 <;> rfl

theorem answer_answer_cases (write : α → String) (operation : Access (Except OrderError α))
    (d : Desk) :
    ((answer write operation).run d).1.status = 200 ∨
      ((answer write operation).run d).1.Uniform := by
  rw [answer_answer]
  split
  · exact .inl rfl
  · exact .inr (uniform_ofFailure _)

/-! ## Parameters of pages -/

def timesGiven (field : String) (pairs : List (String × String)) : Nat :=
  pairs.countP fun p => p.1 = field

theorem timesGiven_cons (field : String) (p : String × String) (pairs : List (String × String)) :
    timesGiven field (p :: pairs) = timesGiven field pairs + if p.1 = field then 1 else 0 := by
  simp [timesGiven, List.countP_cons]

theorem foldlM_takeParameter_iff (q : PageQuery) (pairs : List (String × String)) :
    (∃ field, pairs.foldlM takeParameter q = .error field) ↔
      2 ≤ timesGiven "limit" pairs + q.limit.toList.length ∨
        2 ≤ timesGiven "last_id" pairs + q.lastId.toList.length := by
  induction pairs generalizing q with
  | nil => cases q.limit <;> cases q.lastId <;> simp [timesGiven, pure, Except.pure]
  | cons p pairs ih =>
    simp only [List.foldlM_cons, timesGiven_cons, takeParameter]
    split
    · rename_i hlimit
      cases hq : q.limit <;> simp [bind, Except.bind, ih, hlimit]
    split
    · rename_i hlast
      cases hq : q.lastId <;> simp [bind, Except.bind, ih]
    · simp [bind, Except.bind, *]

theorem pageQuery_error_iff (pairs : List (String × String)) :
    (∃ field, pageQuery pairs = .error field) ↔
      2 ≤ timesGiven "limit" pairs ∨ 2 ≤ timesGiven "last_id" pairs :=
  foldlM_takeParameter_iff ⟨none, none⟩ pairs

/-! ## Refusals -/

/-- Whether a request is refused before it is looked at as one for an order: bytes of the id are no
UTF-8, or a page parameter is given more than once. -/
def Refused (query : List Char) : Route → Prop
  | .order id => segmentText? id = none
  | .items id => segmentText? id = none ∨
      2 ≤ timesGiven "limit" (formPairs query) ∨ 2 ≤ timesGiven "last_id" (formPairs query)
  | .health | .metrics => False

theorem getOrder_cases (id query : List Char) (d : Desk) :
    (Refused query (.order id) ∧ ∃ text, ((getOrder id).run d).1 = .plain 400 text) ∨
      (¬ Refused query (.order id) ∧
        (((getOrder id).run d).1.status = 200 ∨ ((getOrder id).run d).1.Uniform)) := by
  simp only [Refused, getOrder]
  cases segmentText? id with
  | none => exact .inl ⟨rfl, _, rfl⟩
  | some uid =>
    refine .inr ⟨nofun, ?_⟩
    dsimp only
    split
    · exact .inr (uniform_ofFailure _)
    · exact answer_answer_cases _ _ d

theorem getItems_cases (id query : List Char) (d : Desk) :
    (Refused query (.items id) ∧ ∃ text, ((getItems id query).run d).1 = .plain 400 text) ∨
      (¬ Refused query (.items id) ∧
        (((getItems id query).run d).1.status = 200 ∨ ((getItems id query).run d).1.Uniform)) := by
  have hrepeated := pageQuery_error_iff (formPairs query)
  simp only [Refused, getItems]
  cases segmentText? id with
  | none => exact .inl ⟨.inl rfl, _, rfl⟩
  | some uid =>
    dsimp only
    rw [← hrepeated]
    cases hq : pageQuery (formPairs query) with
    | error field => exact .inl ⟨.inr ⟨field, rfl⟩, _, rfl⟩
    | ok q =>
      refine .inr ⟨by simp, ?_⟩
      dsimp only
      split
      · exact .inr (uniform_ofFailure _)
      · split
        · exact .inr (uniform_ofFailure _)
        · exact answer_answer_cases _ _ d

theorem get_cases (exposure : Exposure) (d : Desk) (query : List Char) (route : Route) :
    (Refused query route ∧ ∃ text, (get exposure d query route).1 = .plain 400 text) ∨
      (¬ Refused query route ∧
        ((get exposure d query route).1.status = 200 ∨ (get exposure d query route).1.Uniform)) := by
  cases route with
  | order id => exact getOrder_cases id query d
  | items id => exact getItems_cases id query d
  | health | metrics => exact .inr ⟨id, .inl rfl⟩

end OrderDesk.Api
