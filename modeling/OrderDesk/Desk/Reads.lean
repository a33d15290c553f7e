import OrderDesk.Desk.Access

/-!
What clients do at the desk. A read asks the cache first and the store when the cache has nothing to
show, and leaves what the store answered in the cache. A write stores an order and caches it in its
stored form, with the numbers of its items.
-/

namespace OrderDesk.Desk

open Access (perform)

def info (text : String) : Access Unit := perform (.note ⟨.info, text⟩)

/-- Notes a failed read; that something does not exist is no error of the desk. -/
def noteFailure (text : String) (e : OrderError) : Access Unit :=
  perform (.note ⟨if e.isNotFound then .warn else .error, text⟩)

def readOrder (uid : String) : Access (Except OrderError Order) := do
  info "Request to get order by id"
  match ← perform (.cachedOrder uid) with
  | .ok o =>
    perform (.count .hit)
    return .ok o
  | .error _ =>
    perform (.count .miss)
    match ← perform (.storedOrder uid) with
    | .ok o =>
      perform (.cacheOrder o)
      return .ok o
    | .error e =>
      noteFailure "Failed to get order by id" e
      return .error e

/-- The order under which a fresh page is cached. It is no read of its own and counts as none. -/
def headerForPage (uid : String) : Access (Except OrderError Order) := do
  match ← perform (.cachedOrder uid) with
  | .ok o => return .ok o
  | .error _ => perform (.storedOrder uid)

def cachePage (uid : String) (page : List Item) : Access Unit := do
  match ← headerForPage uid with
  | .ok o => perform (.cacheOrder { o with items := page })
  | .error _ => perform (.note ⟨.warn, "Failed to refresh cached items"⟩)

def fetchItems (uid : String) (last limit : Int64) : Access (Except OrderError (List Item)) := do
  perform (.count .miss)
  match ← perform (.storedItems uid last limit) with
  | .ok page =>
    cachePage uid page
    return .ok page
  | .error e =>
    noteFailure "Failed to get items" e
    return .error e

/-- A page of an order's items. An empty page of the cache shows nothing. -/
def readItems (uid : String) (last limit : Int64) : Access (Except OrderError (List Item)) := do
  info "Request to get items by order id"
  match ← perform (.cachedItems uid last limit) with
  | .ok (x :: xs) =>
    perform (.count .hit)
    return .ok (x :: xs)
  | _ => fetchItems uid last limit

def persist (o : Order) : Access (Except OrderError Unit) := do
  match ← perform (.storeOrder o) with
  | .ok stored =>
    perform (.note ⟨.debug, "Caching stored order"⟩)
    perform (.cacheOrder stored)
    return .ok ()
  | .error e => return .error e

def cacheAll : List Order → Access Unit
  | [] => pure ()
  | o :: os => do
    perform (.cacheOrder o)
    cacheAll os

def warmUp (limit : Int64) : Access (Except OrderError Nat) := do
  match ← perform (.storedOrders limit) with
  | .ok os =>
    cacheAll os
    return .ok os.length
  | .error e => return .error e

end OrderDesk.Desk
