import OrderDesk.Desk.Reads
import OrderDesk.Proofs.Order.Shelves

/-!
Contents of a store up to the numbers of items. A write overwrites the contents at one uid, and to
replay the same writes once more changes nothing.
-/

namespace OrderDesk

def Order.unnumbered (o : Order) : Order :=
  { o with items := o.items.map fun x => { x with id := 0 } }

@[simp] theorem Order.uid_unnumbered (o : Order) : o.unnumbered.uid = o.uid := rfl

/-- What is found under each uid, with its items unnumbered. -/
abbrev Contents := String → Option Order

variable {os : List Order} {c : Contents}

def Contents.write (c : Contents) (o : Order) : Contents :=
  Function.update c o.uid (some (Store.stored 0 o).unnumbered)

def Contents.replay (c : Contents) (os : List Order) : Contents := os.foldl Contents.write c

namespace Contents

theorem replay_append (c : Contents) (os ps : List Order) :
    c.replay (os ++ ps) = (c.replay os).replay ps := List.foldl_append

theorem replay_apply (c : Contents) (os : List Order) (uid : String) :
    c.replay os uid =
      ((os.reverse.find? fun o => o.uid = uid).map fun o =>
        (Store.stored 0 o).unnumbered).or (c uid) := by
  -- the first write goes into the contents from which the others start
  induction os generalizing c with
  | nil => rfl
  | cons o os ih =>
    have hone : c.write o uid =
        (([o].find? fun o => o.uid = uid).map fun o =>
          (Store.stored 0 o).unnumbered).or (c uid) := by
      by_cases h : o.uid = uid
      · subst h
        simp [write]
      · have hne : uid ≠ o.uid := fun he => h he.symm
        simp [write, h, hne]
    rw [replay, List.foldl_cons, ← replay, ih, hone, List.reverse_cons, List.find?_append,
      Option.map_or, Option.or_assoc]

theorem replay_replay (c : Contents) (os : List Order) : (c.replay os).replay os = c.replay os := by
  funext uid
  rw [replay_apply, replay_apply]
  cases os.reverse.find? fun o => o.uid = uid <;> rfl

end Contents

namespace Store

variable {s t : Store} {o stored : Order} {e : OrderError}

def contents (s : Store) : Contents := fun uid => (s.shelf.find? uid).map Order.unnumbered

theorem unnumbered_numbered (given : Nat) (xs : List Item) :
    ((numbered given xs).map fun x => { x with id := 0 }) = xs.map fun x => { x with id := 0 } := by
  induction xs generalizing given with
  | nil => rfl
  | cons x xs ih => exact congrArg (List.cons _) (ih (given + 1))

theorem unnumbered_stored (given : Nat) (o : Order) :
    (Store.stored given o).unnumbered = (Store.stored 0 o).unnumbered := by
  simp only [Order.unnumbered, Store.stored, unnumbered_numbered]

theorem contents_upsert (s : Store) (o : Order) :
    match s.upsert o with
    | (.ok _, t) => t.contents = s.contents.write o
    | (.error _, t) => t.contents = s.contents := by
  unfold upsert
  cases s.upsertFailures with
  | cons e rest => rfl
  | nil =>
    funext uid
    change ((s.shelf.insert (Store.stored s.given o)).find? uid).map _ = _
    rw [Shelf.find?_insert]
    by_cases h : o.uid = uid
    · have hself : (Store.stored s.given o).uid = uid := h
      rw [if_pos hself, Option.map_some, unnumbered_stored, Contents.write, h, Function.update_self]
    · have hother : (Store.stored s.given o).uid ≠ uid := h
      rw [if_neg hother, Contents.write, Function.update_of_ne (Ne.symm h), contents]

theorem orders_eq_of_contents (h : s.contents = t.contents) :
    s.shelf.orders.map Order.unnumbered = t.shelf.orders.map Order.unnumbered :=
  Shelf.map_orders_eq Order.uid_unnumbered fun uid => congrFun h uid

end Store

namespace Desk

theorem contents_persist (d : Desk) (o : Order) :
    match (persist o).run d with
    | (.ok _, e) => e.store.contents = d.store.contents.write o
    | (.error _, e) => e.store.contents = d.store.contents := by
  have hs := d.store.contents_upsert o
  simp only [persist, Access.run_bind, Access.run_perform, Step.run]
  cases hu : d.store.upsert o with
  | mk r t =>
    rw [hu] at hs
    cases r <;> exact hs

end Desk

end OrderDesk
