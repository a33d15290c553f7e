import OrderDesk.Api.Failure

/-!
Page parameters as a client sends them, and the page they ask for.
-/

namespace OrderDesk.Api

structure PageQuery where
  limit : Option String
  lastId : Option String
deriving DecidableEq, Repr

namespace PageQuery

def defaultLimit : Int64 := 10
def mostLimit : Int64 := 100

/-- A number of at least `least`; nothing, or an empty text, is the fallback. -/
def number (least fallback : Int64) (raw : Option String) : Except Failure Int64 :=
  match raw with
  | none => .ok fallback
  | some s =>
    if s = "" then .ok fallback
    else match Text.Decimal.int64? s.toList with
      | some i => if least ≤ i then .ok i else .error .badRequest
      | none => .error .badRequest

/-- The cursor and the limit, which is never above the largest one. -/
def page (q : PageQuery) : Except Failure (Int64 × Int64) := do
  let limit ← number 1 defaultLimit q.limit
  let last ← number 0 0 q.lastId
  pure (last, min limit mostLimit)

end PageQuery

end OrderDesk.Api
