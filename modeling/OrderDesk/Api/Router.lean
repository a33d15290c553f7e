import OrderDesk.Api.PageQuery
import OrderDesk.Api.Target
import OrderDesk.Api.Url
import OrderDesk.Desk.Metrics
import OrderDesk.Desk.Reads
import OrderDesk.Text.Blank
import OrderDesk.Wire.Order

/-!
The read API: orders, their items page by page, health, and metrics. Only the methods GET and HEAD
are served; HEAD answers as GET does, without the body.
-/

namespace OrderDesk.Api

inductive Route where
  | order (id : List Char)
  | items (id : List Char)
  | health
  | metrics
deriving DecidableEq, Repr

def stripStart? : List Char → List Char → Option (List Char)
  | [], s => some s
  | c :: cs, d :: s => if c = d then stripStart? cs s else none
  | _ :: _, [] => none

/-- An id, which is not empty, or a possibly empty id with `/items` after it. -/
def orderRoute (rest : List Char) : Option Route :=
  let id := rest.takeWhile (· ≠ '/')
  let tail := rest.dropWhile (· ≠ '/')
  if tail = [] then (if id = [] then none else some (.order id))
  else if tail = "/items".toList then some (.items id)
  else none

def Route.ofPath? (path : List Char) : Option Route :=
  if path = "/health".toList then some .health
  else if path = "/metrics".toList then some .metrics
  else (stripStart? "/api/orders/".toList path).bind orderRoute

structure Response where
  status : Nat
  contentType : Option String
  allow : Option String
  body : String
deriving DecidableEq, Repr

namespace Response

def json (status : Nat) (body : String) : Response :=
  ⟨status, some "application/json", none, body⟩

def plain (status : Nat) (body : String) : Response :=
  ⟨status, some "text/plain; charset=utf-8", none, body⟩

def bare (status : Nat) : Response := ⟨status, none, none, ""⟩

def failureBody (f : Failure) : List Char :=
  Wire.writeObject
    [("status", Text.Decimal.ofNat f.status), ("message", Wire.writeText f.message)]

def ofFailure (f : Failure) : Response := json f.status (String.ofList (failureBody f))

def healthy : Response :=
  json 200 (String.ofList
    (Wire.writeObject [("status", Wire.writeText "ok"), ("version", Wire.writeText "0.1.0")]))

end Response

def fail (f : Failure) : Access Response := do
  Access.perform
    (.note (if 500 ≤ f.status then ⟨.error, "Request failed"⟩ else ⟨.warn, "Client error"⟩))
  return .ofFailure f

def answer {α : Type} (write : α → String) (operation : Access (Except OrderError α)) :
    Access Response := do
  match ← operation with
  | .ok a => return .json 200 (write a)
  | .error e => fail (.order e)

/-- One more parameter of a page, by its name and value. It may not be given before; those of other
names are none of the page's. -/
def takeParameter (q : PageQuery) (p : String × String) : Except String PageQuery :=
  if p.1 = "limit" then
    if q.limit.isSome then .error "limit" else .ok { q with limit := some p.2 }
  else if p.1 = "last_id" then
    if q.lastId.isSome then .error "last_id" else .ok { q with lastId := some p.2 }
  else .ok q

def pageQuery (pairs : List (String × String)) : Except String PageQuery :=
  pairs.foldlM takeParameter ⟨none, none⟩

def badId : Response := .plain 400 "Invalid URL: Invalid UTF-8 in `id`"

def repeated (field : String) : Response :=
  .plain 400 ("Failed to deserialize query string: duplicate field `" ++ field ++ "`")

def getOrder (id : List Char) : Access Response :=
  match segmentText? id with
  | none => return badId
  | some uid =>
    if Text.blank uid then fail .badRequest
    else answer Wire.orderText (Desk.readOrder uid)

def getItems (id query : List Char) : Access Response :=
  match segmentText? id with
  | none => return badId
  | some uid =>
    match pageQuery (formPairs query) with
    | .error field => return repeated field
    | .ok q =>
      if Text.blank uid then fail .badRequest
      else match q.page with
        | .error f => fail f
        | .ok (last, limit) => answer Wire.itemsText (Desk.readItems uid last limit)

inductive Exposure where
  | hidden
  | plain
  | described
deriving DecidableEq, Repr

def Exposure.text : Exposure → List Counter → String
  | .hidden, _ => ""
  | .plain, counted => Metrics.text false counted
  | .described, counted => Metrics.text true counted

def get (exposure : Exposure) (d : Desk) (query : List Char) : Route → Response × Desk
  | .order id => (getOrder id).run d
  | .items id => (getItems id query).run d
  | .health => (.healthy, d)
  | .metrics => (.plain 200 (exposure.text d.counted), d)

def respond (exposure : Exposure) (q : Request) (d : Desk) : Response × Desk :=
  match Route.ofPath? q.target.path with
  | none => (.bare 404, d)
  | some route =>
    if q.method = "GET" then get exposure d q.target.query route
    else if q.method = "HEAD" then
      let (r, d) := get exposure d q.target.query route
      ({ r with body := "" }, d)
    else ({ Response.bare 405 with allow := some "GET,HEAD" }, d)

end OrderDesk.Api
