import OrderDesk.Proofs.Desk.Deeds
import OrderDesk.Proofs.Desk.Frames
import OrderDesk.Proofs.Desk.Pages

/-!
Walks through the items of an order, page by page. Each page that comes from the store takes the place
of the cached items, so what is cached changes on the way. It stays a part of what is still to be
shown: that is what keeps a walk complete.
-/

namespace OrderDesk.Desk

variable {d e : Desk} {o : Order} {uid : String} {last limit : Int64}

/-! ## Pages from the store -/

theorem exists_header (ho : d.store.shelf.find? uid = some o)
    (hr : d.store.readFailure = none) :
    ∃ header, ((headerForPage uid).run d).1 = .ok header ∧ header.uid = uid := by
  simp only [headerForPage, Access.run_bind, Access.run_perform, Step.run]
  cases hc : d.cache.shelf.find? uid with
  | some c =>
    have huid : c.uid = uid := Shelf.uid_of_find? hc
    have hcached : d.cache.order uid = .ok c.withoutItems := by simp only [Cache.order, hc]
    rw [hcached]
    exact ⟨_, rfl, huid⟩
  | none =>
    obtain ⟨f, hf⟩ : ∃ f, d.cache.order uid = .error f := by
      rw [Cache.order, hc]
      exact ⟨_, rfl⟩
    have huid : o.uid = uid := Shelf.uid_of_find? ho
    rw [hf]
    exact ⟨_, Store.order_eq_ok_iff.2 ⟨hr, o, ho, rfl⟩, huid⟩

theorem readFailure_headerForPage (d : Desk) (uid : String) :
    ((headerForPage uid).run d).2.store.readFailure = d.store.readFailure := by
  simp only [headerForPage, Access.run_bind, Access.run_perform, Step.run]
  split <;> rfl

theorem readFailure_fetchItems (d : Desk) (uid : String) (last limit : Int64) :
    ((fetchItems uid last limit).run d).2.store.readFailure = d.store.readFailure := by
  simp only [fetchItems, Access.run_bind, Access.run_perform, Step.run]
  split
  · simp only [cachePage, Access.run_bind, Access.run_pure]
    have hheader (c : Desk) := readFailure_headerForPage c uid
    split <;> exact hheader _
  · rfl

theorem exists_cachePage (ho : d.store.shelf.find? uid = some o) (hr : d.store.readFailure = none)
    (page : List Item) :
    ∃ c, ((cachePage uid page).run d).2.cache.shelf.find? uid = some c ∧ c.items = page := by
  obtain ⟨header, hheader, huid⟩ := exists_header ho hr
  simp only [cachePage, Access.run_bind, hheader, Access.run_perform, Step.run]
  refine ⟨{ header with items := page }, ?_, rfl⟩
  refine (Shelf.find?_insert _ _ uid).trans ?_
  exact if_pos huid

theorem exists_fetchItems (ho : d.store.shelf.find? uid = some o)
    (hr : d.store.readFailure = none) (last limit : Int64) :
    ∃ c, ((fetchItems uid last limit).run d).2.cache.shelf.find? uid = some c ∧
      c.items = Page.select o.items last limit := by
  have hpage : ((d.count .miss).store.items uid last limit).1 =
      .ok (Page.select o.items last limit) :=
    Store.items_eq_ok_iff.2 ⟨hr, Store.page_of_find? ho⟩
  let read : Desk := { d.count .miss with store := (d.store.items uid last limit).2 }
  simp only [fetchItems, Access.run_bind, Access.run_perform, Step.run, hpage, Access.run_pure]
  exact exists_cachePage (d := read) ho hr _

/-! ## Steps of a walk -/

/-- A desk where a walk through an order can go on from a cursor: what is cached beyond the cursor is
the beginning of what is to come. -/
structure Midway (d : Desk) (o : Order) (last : Int64) : Prop where
  stored : d.store.shelf.find? o.uid = some o
  readable : d.store.readFailure = none
  cached : ∀ c, d.cache.shelf.find? o.uid = some c →
    Page.Ascending c.items ∧ Page.beyond last c.items <+: Page.beyond last o.items

theorem Midway.of_untouched (h : d.Midway o last) (he : d.Untouched o.uid e) : e.Midway o last where
  stored := he.stored.trans h.stored
  readable := he.readable.trans h.readable
  cached c hc := h.cached c (he.cached.symm.trans hc)

structure Steps (o : Order) (last : Int64) (page : List Item) (e : Desk) : Prop where
  midway : e.Midway o (Page.cursorAfter last page)
  rest : Page.beyond last o.items =
    page ++ Page.beyond (Page.cursorAfter last page) o.items
  /-- After the last item nothing is cached, so that a walk from the start finds no gap. -/
  done : page = [] → Page.beyond last o.items = [] ∧
    ∀ c, e.cache.shelf.find? o.uid = some c → c.items = []

theorem Midway.steps_hit (h : d.Midway o last) (hasc : Page.Ascending o.items) {c : Order}
    (hc : d.cache.shelf.find? o.uid = some c) (hne : Page.slice c.items last limit ≠ []) :
    Steps o last (Page.slice c.items last limit) ((readItems o.uid last limit).run d).2 := by
  obtain ⟨hcasc, later, hlater⟩ := h.cached c hc
  have hsplit : Page.beyond last c.items = Page.slice c.items last limit ++
      (Page.beyond last c.items).drop (Page.allowed limit) := by
    rw [Page.slice_eq_select hcasc, Page.select_eq, List.take_append_drop]
  have hall : Page.beyond last o.items = Page.slice c.items last limit ++
      ((Page.beyond last c.items).drop (Page.allowed limit) ++ later) := by
    rw [← hlater, ← List.append_assoc, ← hsplit]
  have hrest := Page.beyond_cursorAfter hasc hall
  rw [readItems_hit hc hne]
  refine ⟨⟨h.stored, h.readable, fun b hb => ?_⟩, hrest ▸ hall, fun hnil => absurd hnil hne⟩
  obtain rfl : c = b := Option.some.inj (hc.symm.trans hb)
  rw [Page.beyond_cursorAfter hcasc hsplit, hrest]
  exact ⟨hcasc, List.prefix_append ..⟩

theorem Midway.steps_miss (h : d.Midway o last) (hasc : Page.Ascending o.items) (hl : 0 < limit)
    (hc : ∀ c, d.cache.shelf.find? o.uid = some c → Page.slice c.items last limit = []) :
    Steps o last (Page.select o.items last limit) ((readItems o.uid last limit).run d).2 := by
  have hpage := Page.isPage_select hasc last limit
  have hall : Page.beyond last o.items = Page.select o.items last limit ++
      (Page.beyond last o.items).drop (Page.allowed limit) := by
    rw [Page.select_eq, List.take_append_drop]
  have hrest := Page.beyond_cursorAfter hasc hall
  rw [readItems_miss hc]
  let asked := d.note ⟨.info, "Request to get items by order id"⟩
  have hstores := stores_fetchItems asked o.uid last limit
  have hstored : ((fetchItems o.uid last limit).run asked).2.store.shelf.find? o.uid = some o := by
    rw [hstores.shelf]
    exact h.stored
  obtain ⟨c, hcached, hitems⟩ := exists_fetchItems (d := asked) h.stored h.readable last limit
  have hsame : ∀ b, ((fetchItems o.uid last limit).run asked).2.cache.shelf.find? o.uid = some b →
      b.items = Page.select o.items last limit := by
    intro b hb
    rw [← hitems, Option.some.inj (hcached.symm.trans hb)]
  refine ⟨⟨hstored, ?readable, fun b hb => ?cached⟩, hrest ▸ hall, fun hnil => ⟨?_, ?_⟩⟩
  case readable => exact (readFailure_fetchItems asked o.uid last limit).trans h.readable
  case cached =>
    -- the page that is cached now has been shown as a whole
    have hshown : Page.beyond last (Page.select o.items last limit) =
        Page.select o.items last limit ++ [] := by
      rw [List.append_nil, Page.beyond_eq_self hpage.beyond]
    rw [hsame b hb, Page.beyond_cursorAfter hpage.ascending hshown]
    exact ⟨hpage.ascending, List.nil_prefix⟩
  · exact Page.beyond_eq_nil_iff.2 ((Page.select_eq_nil_iff hl).1 hnil)
  · exact fun b hb => (hsame b hb).trans hnil

theorem Midway.exists_steps (h : d.Midway o last) (hasc : Page.Ascending o.items)
    (hl : 0 < limit) :
    ∃ page, ((readItems o.uid last limit).run d).1 = .ok page ∧
      Steps o last page ((readItems o.uid last limit).run d).2 := by
  rcases d.hit_or_miss o.uid last limit with ⟨c, hc, hne⟩ | hnil
  · exact ⟨_, by rw [readItems_hit hc hne], h.steps_hit hasc hc hne⟩
  · refine ⟨_, ?_, h.steps_miss hasc hl hnil⟩
    rw [readItems_miss hnil, fetchItems_eq]
    exact Store.items_eq_ok_iff.2 ⟨h.readable, Store.page_of_find? h.stored⟩

end OrderDesk.Desk
