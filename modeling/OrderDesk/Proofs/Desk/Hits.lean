import OrderDesk.Proofs.Desk.Frames
import OrderDesk.Proofs.Desk.Pages

/-!
Hits and misses. A read is answered by the cache, and then the store is not called, or it calls the
store, and each is counted as what it is.
-/

namespace OrderDesk.Desk

open Access (perform)

variable {d e : Desk} {o : Order} {uid : String} {last limit : Int64}

/-! ## What is cached -/

def Caches (d : Desk) (uid : String) : Prop := (d.cache.shelf.find? uid).isSome = true

def cachedPage (d : Desk) (uid : String) (last limit : Int64) : List Item :=
  match d.cache.items uid last limit with
  | .ok page => page
  | .error _ => []

theorem caches_of_eq (h : e.cache = d.cache) (hc : d.Caches uid) : e.Caches uid := by
  rw [Caches, h]
  exact hc

theorem caches_set (d : Desk) (o : Order) :
    Caches { d with cache := d.cache.set o } uid ↔ o.uid = uid ∨ d.Caches uid := by
  change ((d.cache.shelf.insert o).find? uid).isSome = true ↔ _
  rw [Shelf.find?_insert]
  by_cases h : o.uid = uid
  · simp [h]
  · simp [h, Caches]

/-! ## Hits and misses -/

structure Hit (d e : Desk) : Prop where
  counted : e.counted = .hit :: d.counted
  store : e.store = d.store
  cache : e.cache = d.cache

structure Miss (d : Desk) (orders pages : Nat) (e : Desk) : Prop where
  counted : e.counted = .miss :: d.counted
  store : e.store = { d.store with
    orderCalls := d.store.orderCalls + orders
    itemsCalls := d.store.itemsCalls + pages }

def refreshes (d : Desk) (uid : String) : Nat :=
  if d.store.readFailure = none ∧ (d.cache.shelf.find? uid).isNone = true then 1 else 0

theorem refreshes_le_one (d : Desk) (uid : String) : d.refreshes uid ≤ 1 := by
  unfold refreshes
  split
  · exact Nat.le_refl 1
  · exact Nat.zero_le 1

theorem not_caches_iff : ¬ d.Caches uid ↔ d.cache.shelf.find? uid = none := by
  simp [Caches]

theorem cache_order_eq_error (h : ¬ d.Caches uid) : ∃ e, d.cache.order uid = .error e := by
  rw [Cache.order, not_caches_iff.1 h]
  exact ⟨_, rfl⟩

theorem hit_readOrder (h : d.Caches uid) : Hit d ((readOrder uid).run d).2 := by
  obtain ⟨c, hc⟩ := Option.isSome_iff_exists.1 h
  rw [readOrder_hit hc]
  exact ⟨rfl, rfl, rfl⟩

theorem miss_readOrder (h : ¬ d.Caches uid) : Miss d 1 0 ((readOrder uid).run d).2 := by
  obtain ⟨e, he⟩ := cache_order_eq_error h
  simp only [readOrder, info, Access.run_bind, Access.run_perform, Step.run, cache_note, he]
  split <;> exact ⟨rfl, rfl⟩

theorem cache_readOrder_of_error {e : OrderError} (h : ((readOrder uid).run d).1 = .error e) :
    ((readOrder uid).run d).2.cache = d.cache := by
  by_cases hc : d.Caches uid
  · exact (hit_readOrder hc).cache
  · obtain ⟨f, hf⟩ := cache_order_eq_error hc
    simp only [readOrder, info, Access.run_bind, Access.run_perform, Step.run, cache_note, hf] at h ⊢
    split
    · rename_i o ho
      rw [ho] at h
      cases h
    · rfl

theorem cachedPage_of_find? {c : Order} (h : d.cache.shelf.find? uid = some c) :
    d.cachedPage uid last limit = Page.slice c.items last limit := by
  simp only [cachedPage, Cache.items, h]

theorem cachedPage_cases (d : Desk) (uid : String) (last limit : Int64) :
    (∃ c, d.cache.shelf.find? uid = some c ∧ Page.slice c.items last limit ≠ [] ∧
      d.cachedPage uid last limit ≠ []) ∨
    ((readItems uid last limit).run d =
      (fetchItems uid last limit).run (d.note ⟨.info, "Request to get items by order id"⟩) ∧
      d.cachedPage uid last limit = []) := by
  rcases d.hit_or_miss uid last limit with ⟨c, hc, hne⟩ | hnil
  · exact .inl ⟨c, hc, hne, by rwa [cachedPage_of_find? hc]⟩
  · refine .inr ⟨readItems_miss hnil, ?_⟩
    cases hc : d.cache.shelf.find? uid with
    | some c => rw [cachedPage_of_find? hc, hnil c hc]
    | none => simp only [cachedPage, Cache.items, hc]

theorem hit_readItems (h : d.cachedPage uid last limit ≠ []) :
    Hit d ((readItems uid last limit).run d).2 := by
  rcases d.cachedPage_cases uid last limit with ⟨c, hc, hne, -⟩ | ⟨-, hnil⟩
  · rw [readItems_hit hc hne]
    exact ⟨rfl, rfl, rfl⟩
  · exact absurd hnil h

theorem cachePage_calls (d : Desk) (uid : String) (page : List Item) :
    ((cachePage uid page).run d).2.counted = d.counted ∧
      ((cachePage uid page).run d).2.store = { d.store with
        orderCalls := d.store.orderCalls +
          if (d.cache.shelf.find? uid).isNone = true then 1 else 0 } := by
  have hheader : ((headerForPage uid).run d).2.counted = d.counted ∧
      ((headerForPage uid).run d).2.store = { d.store with
        orderCalls := d.store.orderCalls +
          if (d.cache.shelf.find? uid).isNone = true then 1 else 0 } := by
    simp only [headerForPage, Access.run_bind, Access.run_perform, Step.run]
    cases hc : d.cache.shelf.find? uid <;> simp only [Cache.order, hc] <;> exact ⟨rfl, rfl⟩
  simp only [cachePage, Access.run_bind]
  split <;> exact hheader

theorem miss_readItems (h : d.cachedPage uid last limit = []) :
    Miss d (d.refreshes uid) 1 ((readItems uid last limit).run d).2 := by
  rcases d.cachedPage_cases uid last limit with ⟨-, -, -, hne⟩ | ⟨hfetch, -⟩
  · exact absurd h hne
  rw [hfetch]
  simp only [fetchItems, Access.run_bind, Access.run_perform, Step.run]
  split
  · rename_i page hpage
    obtain ⟨hf, -⟩ := Store.items_eq_ok_iff.1 hpage
    have hread : d.store.readFailure = none := hf
    obtain ⟨hcounted, hstore⟩ := cachePage_calls
      { (d.note ⟨.info, "Request to get items by order id"⟩).count .miss with
        store := (d.store.items uid last limit).2 } uid page
    have hrefreshes : d.refreshes uid =
        if (d.cache.shelf.find? uid).isNone = true then 1 else 0 := by
      simp only [refreshes, hread, true_and]
    rw [hrefreshes]
    simp only [Access.run_bind, Access.run_pure]
    exact ⟨hcounted, hstore⟩
  · rename_i e he
    have hread : d.store.readFailure ≠ none := by
      intro hf
      have hok : (d.store.items uid last limit).1 = .ok _ := Store.items_eq_ok_iff.2 ⟨hf, rfl⟩
      cases hok.symm.trans he
    have hnone : d.refreshes uid = 0 := if_neg fun hboth => hread hboth.1
    rw [hnone]
    exact ⟨rfl, rfl⟩

theorem readItems_eq_error_iff {e : OrderError} :
    ((readItems uid last limit).run d).1 = .error e ↔
      d.cachedPage uid last limit = [] ∧ (d.store.items uid last limit).1 = .error e := by
  rcases d.cachedPage_cases uid last limit with ⟨c, hc, hne, hpage⟩ | ⟨hfetch, hnil⟩
  · rw [readItems_hit hc hne]
    exact iff_of_false nofun fun h => hpage h.1
  · rw [hfetch, fetchItems_eq]
    exact ⟨fun h => ⟨hnil, h⟩, fun h => h.2⟩

theorem cache_readItems_of_error {e : OrderError} (h : (d.store.items uid last limit).1 = .error e) :
    ((readItems uid last limit).run d).2.cache = d.cache := by
  rcases d.cachedPage_cases uid last limit with ⟨c, hc, hne, -⟩ | ⟨hfetch, -⟩
  · rw [readItems_hit hc hne]
    rfl
  · rw [hfetch]
    simp only [fetchItems, Access.run_bind, Access.run_perform, Step.run]
    rw [show ((d.note _).count .miss).store.items uid last limit = d.store.items uid last limit
      from rfl, h]
    rfl

end OrderDesk.Desk
