import OrderDesk.Desk.Reads
import OrderDesk.Proofs.Order.Shelves

/-!
Frames. A client of one order leaves the others as they are, in the store and in the cache.
-/

namespace OrderDesk.Desk

variable {d e f : Desk} {o : Order} {uid other : String} {last limit : Int64}

structure Untouched (uid : String) (d e : Desk) : Prop where
  stored : e.store.shelf.find? uid = d.store.shelf.find? uid
  cached : e.cache.shelf.find? uid = d.cache.shelf.find? uid
  readable : e.store.readFailure = d.store.readFailure

theorem Untouched.trans (h : Untouched uid d e) (hs : Untouched uid e f) : Untouched uid d f :=
  ⟨hs.stored.trans h.stored, hs.cached.trans h.cached, hs.readable.trans h.readable⟩

theorem Untouched.of_eq (hs : e.store.shelf = d.store.shelf) (hc : e.cache = d.cache)
    (hr : e.store.readFailure = d.store.readFailure) : Untouched uid d e :=
  ⟨by rw [hs], by rw [hc], hr⟩

theorem Untouched.refl (uid : String) (d : Desk) : Untouched uid d d := .of_eq rfl rfl rfl

theorem find?_insert_other (s : Shelf) (h : o.uid ≠ uid) : (s.insert o).find? uid = s.find? uid := by
  rw [Shelf.find?_insert, if_neg h]

theorem untouched_cache (d : Desk) (h : o.uid ≠ uid) :
    Untouched uid d { d with cache := d.cache.set o } :=
  ⟨rfl, find?_insert_other _ h, rfl⟩

theorem untouched_upsert (d : Desk) (h : o.uid ≠ uid) :
    Untouched uid d { d with store := (d.store.upsert o).2 } := by
  unfold Store.upsert
  cases d.store.upsertFailures with
  | cons e rest => exact .of_eq rfl rfl rfl
  | nil => exact ⟨find?_insert_other (o := Store.stored _ o) _ h, rfl, rfl⟩

/-! ## Programs -/

theorem uid_of_store_order (h : (d.store.order other).1 = .ok o) : o.uid = other := by
  obtain ⟨-, b, hb, rfl⟩ := Store.order_eq_ok_iff.1 h
  exact Shelf.uid_of_find? (o := b) hb

theorem untouched_persist (d : Desk) (h : o.uid ≠ uid) :
    Untouched uid d ((persist o).run d).2 := by
  simp only [persist, Access.run_bind, Access.run_perform, Step.run, Store.upsert]
  cases d.store.upsertFailures with
  | cons e rest => exact .of_eq rfl rfl rfl
  | nil =>
    have hother (s : Shelf) : (s.insert (Store.stored d.store.given o)).find? uid = s.find? uid :=
      find?_insert_other s h
    exact ⟨hother d.store.shelf, hother d.cache.shelf, rfl⟩

theorem untouched_readOrder (d : Desk) (h : other ≠ uid) :
    Untouched uid d ((readOrder other).run d).2 := by
  simp only [readOrder, info, Access.run_bind, Access.run_perform, Step.run]
  split
  · exact .of_eq rfl rfl rfl
  · simp only [Access.run_bind, Access.run_perform, Step.run]
    split
    · rename_i o ho
      have huid : o.uid ≠ uid := (uid_of_store_order (d := d) ho).trans_ne h
      exact ⟨rfl, find?_insert_other _ huid, rfl⟩
    · exact .of_eq rfl rfl rfl

theorem headerForPage_untouched (d : Desk) (h : other ≠ uid) :
    Untouched uid d ((headerForPage other).run d).2 ∧
      ∀ o, ((headerForPage other).run d).1 = .ok o → o.uid ≠ uid := by
  simp only [headerForPage, Access.run_bind, Access.run_perform, Step.run]
  split
  · rename_i c hc
    obtain ⟨b, hb, rfl⟩ := Cache.order_eq_ok_iff.1 hc
    refine ⟨.refl uid d, fun o ho => ?_⟩
    rw [← Except.ok.inj ho]
    exact (Shelf.uid_of_find? hb).trans_ne h
  · exact ⟨.of_eq rfl rfl rfl, fun o ho => (uid_of_store_order ho).trans_ne h⟩

theorem untouched_readItems (d : Desk) (h : other ≠ uid) :
    Untouched uid d ((readItems other last limit).run d).2 := by
  have hpage (page : List Item) (c : Desk) (hc : Untouched uid d c) :
      Untouched uid d ((cachePage other page).run c).2 := by
    obtain ⟨hheader, huid⟩ := headerForPage_untouched c h
    simp only [cachePage, Access.run_bind]
    split
    · rename_i o ho
      exact (hc.trans hheader).trans (untouched_cache _ (huid o ho))
    · exact (hc.trans hheader).trans (.of_eq rfl rfl rfl)
  simp only [readItems, fetchItems, info, Access.run_bind, Access.run_perform, Step.run]
  split
  · exact .of_eq rfl rfl rfl
  · simp only [Access.run_bind, Access.run_perform, Step.run]
    split
    · simp only [Access.run_bind, Access.run_pure]
      exact hpage _ _ (.of_eq rfl rfl rfl)
    · exact .of_eq rfl rfl rfl

end OrderDesk.Desk
