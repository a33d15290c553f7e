import OrderDesk.Proofs.Desk.Coherence
import OrderDesk.Proofs.Desk.Versions

/-!
Deeds at the desk: programs that are run without interruption, and what leaves store and cache alone.
Each tells the orders it writes. What is stored after deeds are the last versions of those orders.
-/

namespace OrderDesk.Desk

def written (o : Order) : Except OrderError Unit → List Order
  | .ok () => [o]
  | .error _ => []

inductive Deed : Desk → List Order → Desk → Prop where
  | quiet {d e} (hg : e.store.given = d.store.given) (hs : e.store.shelf = d.store.shelf)
      (hc : e.cache = d.cache) : Deed d [] e
  | clear (d) : Deed d [] { d with cache := .empty }
  | readOrder (d uid) : Deed d [] ((readOrder uid).run d).2
  | readItems (d uid last limit) : Deed d [] ((readItems uid last limit).run d).2
  | warmUp (d limit) : Deed d [] ((warmUp limit).run d).2
  | persist (d o) : Deed d (written o ((persist o).run d).1) ((persist o).run d).2

inductive Deeds : Desk → List Order → Desk → Prop where
  | refl (d) : Deeds d [] d
  | step {d e f os ps} (h : Deed d os e) (hs : Deeds e ps f) : Deeds d (os ++ ps) f

inductive Persists : Desk → List Order → Desk → Prop where
  | still {d e} (hs : e.store = d.store) (hc : e.cache = d.cache) : Persists d [] e
  | persist (d o) : Persists d (written o ((persist o).run d).1) ((persist o).run d).2
  | trans {d e f os ps} (h : Persists d os e) (hs : Persists e ps f) : Persists d (os ++ ps) f

variable {d e f : Desk} {os ps : List Order} {uid : String} {last limit : Int64}

theorem Deed.deeds (h : Deed d os e) : Deeds d os e := by
  have hs := Deeds.step h (.refl e)
  rwa [List.append_nil] at hs

theorem Deeds.trans (h : Deeds d os e) (hs : Deeds e ps f) : Deeds d (os ++ ps) f := by
  induction h with
  | refl d => exact hs
  | step h _ ih =>
    rw [List.append_assoc]
    exact .step h (ih hs)

theorem Deeds.of_eq (hg : e.store.given = d.store.given) (hs : e.store.shelf = d.store.shelf)
    (hc : e.cache = d.cache) : Deeds d [] e := (Deed.quiet hg hs hc).deeds

theorem deeds_note (d : Desk) (ev : Event) : Deeds d [] (d.note ev) := .of_eq rfl rfl rfl

theorem Persists.refl (d : Desk) : Persists d [] d := .still rfl rfl

theorem Persists.deeds (h : Persists d os e) : Deeds d os e := by
  induction h with
  | still hs hc => exact .of_eq (congrArg Store.given hs) (congrArg Store.shelf hs) hc
  | persist d o => exact (Deed.persist d o).deeds
  | trans _ _ ih ihs => exact ih.trans ihs

/-! ## The cache -/

theorem Deed.evolves (h : Deed d os e) : d.Evolves e := by
  cases h with
  | quiet hg hs hc => exact .of_eq hg hs hc
  | clear => exact evolves_clear d
  | readOrder uid => exact evolves_readOrder d uid
  | readItems uid last limit => exact evolves_readItems d uid last limit
  | warmUp limit => exact evolves_warmUp d limit
  | persist o => exact evolves_persist d o

theorem Deeds.evolves (h : Deeds d os e) : d.Evolves e := by
  induction h with
  | refl d => exact .refl d
  | step h _ ih => exact h.evolves.trans ih

/-! ## The store -/

structure Stores (d : Desk) (os : List Order) (e : Desk) : Prop where
  given : e.store.given = Store.givenAfter d.store.given os
  shelf : e.store.shelf = (Store.versions d.store.given os).foldl Shelf.insert d.store.shelf

theorem Stores.of_same (hs : e.store.shelf = d.store.shelf) (hg : e.store.given = d.store.given) :
    Stores d [] e := ⟨hg, hs⟩

theorem Stores.trans (h : Stores d os e) (hs : Stores e ps f) : Stores d (os ++ ps) f where
  given := by rw [hs.given, h.given, Store.givenAfter_append]
  shelf := by rw [hs.shelf, h.shelf, h.given, Store.versions_append, List.foldl_append]

theorem stores_readOrder (d : Desk) (uid : String) : Stores d [] ((readOrder uid).run d).2 := by
  simp only [readOrder, info, Access.run_bind, Access.run_perform, Step.run]
  split
  · exact .of_same rfl rfl
  · simp only [Access.run_bind, Access.run_perform, Step.run]
    split <;> exact .of_same rfl rfl

theorem stores_fetchItems (d : Desk) (uid : String) (last limit : Int64) :
    Stores d [] ((fetchItems uid last limit).run d).2 := by
  simp only [fetchItems, Access.run_bind, Access.run_perform, Step.run]
  split
  · simp only [cachePage, Access.run_bind, Access.run_pure]
    have hheader (c : Desk) (hc : Stores d [] c) :
        Stores d [] ((headerForPage uid).run c).2 := by
      obtain ⟨-, hs, hg⟩ := headerForPage_same c uid
      exact hc.trans (.of_same hs hg)
    have hread := hheader { d.count .miss with store := (d.store.items uid last limit).2 }
      (.of_same rfl rfl)
    split <;> exact hread.trans (.of_same rfl rfl)
  · exact .of_same rfl rfl

theorem stores_readItems (d : Desk) (uid : String) (last limit : Int64) :
    Stores d [] ((readItems uid last limit).run d).2 := by
  simp only [readItems, info, Access.run_bind, Access.run_perform, Step.run]
  split
  · exact .of_same rfl rfl
  · have hnote (ev : Event) : Stores d [] (d.note ev) := .of_same rfl rfl
    exact (hnote _).trans (stores_fetchItems _ uid last limit)

theorem stores_warmUp (d : Desk) (limit : Int64) : Stores d [] ((warmUp limit).run d).2 := by
  simp only [warmUp, Access.run_bind, Access.run_perform, Step.run]
  split
  · rename_i os hos
    simp only [Access.run_bind, Access.run_pure]
    refine .of_same ?_ ?_ <;> rw [store_cacheAll] <;> rfl
  · exact .of_same rfl rfl

theorem stores_persist (d : Desk) (o : Order) :
    Stores d (written o ((persist o).run d).1) ((persist o).run d).2 := by
  simp only [persist, Access.run_bind, Access.run_perform, Step.run, Store.upsert]
  cases d.store.upsertFailures with
  | cons e rest => exact .of_same rfl rfl
  | nil =>
    refine ⟨?_, rfl⟩
    change _ = Store.givenAfter d.store.given [o]
    rw [Store.givenAfter_cons]
    rfl

theorem Deed.stores (h : Deed d os e) : Stores d os e := by
  cases h with
  | quiet hg hs => exact .of_same hs hg
  | clear => exact .of_same rfl rfl
  | readOrder uid => exact stores_readOrder d uid
  | readItems uid last limit => exact stores_readItems d uid last limit
  | warmUp limit => exact stores_warmUp d limit
  | persist o => exact stores_persist d o

theorem Deeds.stores (h : Deeds d os e) : Stores d os e := by
  induction h with
  | refl d => exact .of_same rfl rfl
  | step h _ ih => exact h.stores.trans ih

def Numbers (d : Desk) : Prop :=
  ∀ uid o, d.store.shelf.find? uid = some o → Store.Numbered d.store.given o

theorem Stores.numbers (h : Stores d os e) (hd : d.Numbers) : e.Numbers := by
  intro uid o ho
  rw [h.shelf, Shelf.find?_foldl_insert] at ho
  rw [h.given]
  cases hv : Order.latest (Store.versions d.store.given os) uid with
  | some v =>
    rw [hv] at ho
    obtain rfl := Option.some.inj ho
    obtain ⟨-, before, after, hsplit, -⟩ := Order.exists_eq_append_of_latest hv
    exact Store.numbered_of_mem_versions (by simp [hsplit])
  | none =>
    rw [hv] at ho
    exact (hd uid o ho).mono (Nat.le_add_right ..)

theorem Stores.find?_eq_latest (h : Stores .empty os e) (uid : String) :
    e.store.shelf.find? uid = Order.latest (Store.versions 0 os) uid := by
  have hshelf : e.store.shelf = (Store.versions 0 os).foldl Shelf.insert .empty := h.shelf
  rw [hshelf, Shelf.find?_foldl_insert, Shelf.find?_empty, Option.or_none]

theorem Deeds.find?_eq_latest (h : Deeds .empty os e) (uid : String) :
    e.store.shelf.find? uid = Order.latest (Store.versions 0 os) uid :=
  h.stores.find?_eq_latest uid

end OrderDesk.Desk
