import OrderDesk.Desk.Cache
import OrderDesk.Desk.Counter
import OrderDesk.Desk.Store

/-!
Access to the desk, the store with the cache in front of it. What a client does there is a program of
steps. A step is atomic; between the steps of one program those of others may run.
-/

namespace OrderDesk

structure Desk where
  store : Store
  cache : Cache
  counted : List Counter
  journal : List Event

namespace Desk

def empty : Desk := ⟨.empty, .empty, [], []⟩

def count (d : Desk) (c : Counter) : Desk := { d with counted := c :: d.counted }

def note (d : Desk) (e : Event) : Desk := { d with journal := d.journal ++ [e] }

@[simp] theorem store_note (d : Desk) (e : Event) : (d.note e).store = d.store := rfl

@[simp] theorem cache_note (d : Desk) (e : Event) : (d.note e).cache = d.cache := rfl

end Desk

inductive Step : Type → Type where
  | cachedOrder (uid : String) : Step (Except OrderError Order)
  | cachedItems (uid : String) (last limit : Int64) : Step (Except OrderError (List Item))
  | cacheOrder (o : Order) : Step Unit
  | storedOrder (uid : String) : Step (Except OrderError Order)
  | storedItems (uid : String) (last limit : Int64) : Step (Except OrderError (List Item))
  | storedOrders (limit : Int64) : Step (Except OrderError (List Order))
  | storeOrder (o : Order) : Step (Except OrderError Order)
  | count (c : Counter) : Step Unit
  | note (e : Event) : Step Unit

def Step.run {α : Type} : Step α → Desk → α × Desk
  | .cachedOrder uid, d => (d.cache.order uid, d)
  | .cachedItems uid last limit, d => (d.cache.items uid last limit, d)
  | .cacheOrder o, d => ((), { d with cache := d.cache.set o })
  | .storedOrder uid, d =>
    let r := d.store.order uid
    (r.1, { d with store := r.2 })
  | .storedItems uid last limit, d =>
    let r := d.store.items uid last limit
    (r.1, { d with store := r.2 })
  | .storedOrders limit, d =>
    let r := d.store.all limit
    (r.1, { d with store := r.2 })
  | .storeOrder o, d =>
    let r := d.store.upsert o
    (r.1, { d with store := r.2 })
  | .count c, d => ((), d.count c)
  | .note e, d => ((), d.note e)

/-- A program of steps: each answer decides how it goes on. -/
inductive Access (α : Type) : Type 1 where
  | done (a : α)
  | step {β : Type} (s : Step β) (next : β → Access α)

namespace Access

def bind {α β : Type} : Access α → (α → Access β) → Access β
  | .done a, f => f a
  | .step s next, f => .step s fun b => (next b).bind f

instance : Monad Access where
  pure := .done
  bind := bind

def perform {α : Type} (s : Step α) : Access α := .step s .done

def run {α : Type} : Access α → Desk → α × Desk
  | .done a, d => (a, d)
  | .step s next, d => (next (s.run d).1).run (s.run d).2

@[simp] theorem run_step {α β : Type} (s : Step β) (next : β → Access α) (d : Desk) :
    (step s next).run d = (next (s.run d).1).run (s.run d).2 := rfl

@[simp] theorem run_pure {α : Type} (a : α) (d : Desk) : (pure a : Access α).run d = (a, d) := rfl

@[simp] theorem run_perform {α : Type} (s : Step α) (d : Desk) : (perform s).run d = s.run d := rfl

@[simp] theorem run_bind {α β : Type} (p : Access α) (f : α → Access β) (d : Desk) :
    (p >>= f).run d = (f (p.run d).1).run (p.run d).2 := by
  change (p.bind f).run d = _
  induction p generalizing d with
  | done a => rfl
  | step s next ih => exact ih _ _

end Access

end OrderDesk
