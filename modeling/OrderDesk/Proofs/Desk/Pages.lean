import OrderDesk.Proofs.Desk.Coherence

/-!
Pages read at a coherent desk. What is cached decides whether a page is the one the store would show.
-/

namespace OrderDesk.Desk

variable {d : Desk} {c o : Order} {uid : String} {last limit : Int64}

theorem fetchItems_eq (d : Desk) (uid : String) (last limit : Int64) :
    ((fetchItems uid last limit).run d).1 = (d.store.items uid last limit).1 := by
  simp only [fetchItems, Access.run_bind, Access.run_perform, Step.run]
  cases h : (d.store.items uid last limit).1 with
  | ok page =>
    rw [show ((d.count .miss).store.items uid last limit).1 = .ok page from h]
    simp only [Access.run_bind, Access.run_pure]
  | error e =>
    rw [show ((d.count .miss).store.items uid last limit).1 = .error e from h]
    simp only [Access.run_bind, Access.run_pure]

/-! ## Reads that the cache answers -/

theorem readOrder_hit (h : d.cache.shelf.find? uid = some c) :
    (readOrder uid).run d =
      (.ok c.withoutItems, (d.note ⟨.info, "Request to get order by id"⟩).count .hit) := by
  have hcached : d.cache.order uid = .ok c.withoutItems := by simp only [Cache.order, h]
  simp only [readOrder, info, Access.run_bind, Access.run_perform, Step.run, cache_note, hcached]
  rfl

theorem readItems_hit (h : d.cache.shelf.find? uid = some c)
    (hne : Page.slice c.items last limit ≠ []) :
    (readItems uid last limit).run d =
      (.ok (Page.slice c.items last limit),
        (d.note ⟨.info, "Request to get items by order id"⟩).count .hit) := by
  obtain ⟨x, xs, hpage⟩ := List.exists_cons_of_ne_nil hne
  have hcached : d.cache.items uid last limit = .ok (x :: xs) := by
    simp only [Cache.items, h, hpage]
  simp only [readItems, info, Access.run_bind, Access.run_perform, Step.run, cache_note, hcached,
    hpage]
  rfl

theorem readItems_miss
    (h : ∀ c, d.cache.shelf.find? uid = some c → Page.slice c.items last limit = []) :
    (readItems uid last limit).run d =
      (fetchItems uid last limit).run (d.note ⟨.info, "Request to get items by order id"⟩) := by
  simp only [readItems, info, Access.run_bind, Access.run_perform, Step.run, cache_note]
  split
  · rename_i x xs hitems
    obtain ⟨c, hc, hpage⟩ := Cache.items_eq_ok_iff.1 hitems
    rw [h c hc] at hpage
    cases hpage
  · rfl

theorem hit_or_miss (d : Desk) (uid : String) (last limit : Int64) :
    (∃ c, d.cache.shelf.find? uid = some c ∧ Page.slice c.items last limit ≠ []) ∨
      ∀ c, d.cache.shelf.find? uid = some c → Page.slice c.items last limit = [] := by
  by_cases h : ∃ c, d.cache.shelf.find? uid = some c ∧ Page.slice c.items last limit ≠ []
  · exact .inl h
  · exact .inr fun c hc => by_contra fun hne => h ⟨c, hc, hne⟩

/-! ## Reads in general -/

theorem readItems_cases (d : Desk) (uid : String) (last limit : Int64) :
    (∃ c, d.cache.shelf.find? uid = some c ∧ Page.slice c.items last limit ≠ [] ∧
      ((readItems uid last limit).run d).1 = .ok (Page.slice c.items last limit)) ∨
    ((∀ c, d.cache.shelf.find? uid = some c → Page.slice c.items last limit = []) ∧
      ((readItems uid last limit).run d).1 = (d.store.items uid last limit).1) := by
  rcases d.hit_or_miss uid last limit with ⟨c, hc, hne⟩ | hnil
  · exact .inl ⟨c, hc, hne, by rw [readItems_hit hc hne]⟩
  · exact .inr ⟨hnil, by rw [readItems_miss hnil, fetchItems_eq, store_note]⟩

theorem readOrder_cases (d : Desk) (uid : String) :
    (∃ c, d.cache.shelf.find? uid = some c ∧ ((readOrder uid).run d).1 = .ok c.withoutItems) ∨
      (d.cache.shelf.find? uid = none ∧ ((readOrder uid).run d).1 = (d.store.order uid).1) := by
  cases hc : d.cache.shelf.find? uid with
  | some c => exact .inl ⟨c, rfl, by rw [readOrder_hit hc]⟩
  | none =>
    obtain ⟨e, he⟩ : ∃ e, d.cache.order uid = .error e := by
      rw [Cache.order, hc]
      exact ⟨_, rfl⟩
    refine .inr ⟨rfl, ?_⟩
    simp only [readOrder, info, Access.run_bind, Access.run_perform, Step.run, cache_note, he]
    split <;> rename_i hanswer <;> exact hanswer.symm

theorem Coherent.readItems_eq_iff (hd : d.Coherent) (uid : String) (last : Int64)
    (hn : d.store.given < 2 ^ 63) (hf : d.store.readFailure = none) (hl : 0 < limit) :
    ∃ page, ((readItems uid last limit).run d).1 = .ok page ∧
      (page = d.store.page uid last limit ↔
        ∀ c o, d.cache.shelf.find? uid = some c → d.store.shelf.find? uid = some o →
          Page.Serves c.items o.items last limit) := by
  have hserves {c o : Order} (hc : d.cache.shelf.find? uid = some c)
      (ho : d.store.shelf.find? uid = some o) :
      Page.Serves c.items o.items last limit ↔ Page.slice c.items last limit = [] ∨
        Page.slice c.items last limit = d.store.page uid last limit := by
    obtain ⟨b, hb, -, hex⟩ := hd.cached uid c hc
    obtain rfl : o = b := Option.some.inj (ho.symm.trans hb)
    have hasc := hd.ascending hn ho
    rw [Page.slice_eq_select (hasc.of_block hex), Store.page_of_find? ho]
    exact Page.serves_iff hasc hex hl
  rcases d.readItems_cases uid last limit with ⟨c, hc, hne, he⟩ | ⟨hnil, he⟩
  · refine ⟨_, he, fun hpage a o ha ho => ?_, fun hall => ?_⟩
    · obtain rfl : a = c := Option.some.inj (ha.symm.trans hc)
      exact (hserves ha ho).2 (.inr hpage)
    · obtain ⟨o, ho, -⟩ := hd.cached uid c hc
      exact ((hserves hc ho).1 (hall c o hc ho)).resolve_left hne
  · refine ⟨_, he.trans (Store.items_eq_ok_iff.2 ⟨hf, rfl⟩), iff_of_true rfl fun c o hc ho => ?_⟩
    exact (hserves hc ho).2 (.inl (hnil c hc))

end OrderDesk.Desk
