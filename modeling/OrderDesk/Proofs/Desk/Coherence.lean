import OrderDesk.Desk.Reads
import OrderDesk.Proofs.Desk.Numbering
import OrderDesk.Proofs.Order.Shelves

/-!
Coherence of the cache. Each cached order is the stored one with a block of its items, whatever reads,
writes and warm-ups came before. A step of a program may break this and a later one restore it, so it
is stated of whole programs: they let the desk evolve.
-/

namespace OrderDesk

open Access (perform)

/-- An order that is another one with a block of its items. -/
def Order.Excerpt (c o : Order) : Prop :=
  c.withoutItems = o.withoutItems ∧ c.items <:+: o.items

theorem Order.Excerpt.refl (o : Order) : o.Excerpt o := ⟨rfl, List.infix_rfl⟩

theorem Order.Excerpt.uid_eq {c o : Order} (h : c.Excerpt o) : c.uid = o.uid := by
  change c.withoutItems.uid = o.withoutItems.uid
  rw [h.1]

namespace Desk

variable {d e f : Desk} {c o : Order} {uid : String} {last limit : Int64}

/-- Stored items are numbered in a row, and what is cached is an excerpt of what is stored. -/
structure Coherent (d : Desk) : Prop where
  numbered : ∀ uid o, d.store.shelf.find? uid = some o → Store.Numbered d.store.given o
  cached : ∀ uid c, d.cache.shelf.find? uid = some c →
    ∃ o, d.store.shelf.find? uid = some o ∧ c.Excerpt o

theorem coherent_empty : Coherent .empty where
  numbered := by intro uid o h; simp [Desk.empty, Store.empty] at h
  cached := by intro uid c h; simp [Desk.empty, Cache.empty] at h

theorem Coherent.ascending (h : d.Coherent) (hn : d.store.given < 2 ^ 63)
    (ho : d.store.shelf.find? uid = some o) : Page.Ascending o.items :=
  (h.numbered uid o ho).ascending hn

/-- What the desk may become: it gives numbers on, and stays coherent while there are enough. -/
def Evolves (d e : Desk) : Prop :=
  d.store.given ≤ e.store.given ∧ (e.store.given < 2 ^ 63 → d.Coherent → e.Coherent)

theorem Evolves.trans (h : d.Evolves e) (h' : e.Evolves f) : d.Evolves f :=
  ⟨h.1.trans h'.1, fun hn hd => h'.2 hn (h.2 (h'.1.trans_lt hn) hd)⟩

theorem Evolves.of_eq (hg : e.store.given = d.store.given) (hs : e.store.shelf = d.store.shelf)
    (hc : e.cache = d.cache) : d.Evolves e := by
  refine ⟨hg.ge, fun _ h => ⟨?_, ?_⟩⟩
  · rw [hs, hg]; exact h.numbered
  · rw [hs, hc]; exact h.cached

theorem Evolves.refl (d : Desk) : d.Evolves d := .of_eq rfl rfl rfl

theorem evolves_note (d : Desk) (ev : Event) : d.Evolves (d.note ev) := .of_eq rfl rfl rfl

theorem evolves_clear (d : Desk) : d.Evolves { d with cache := .empty } := by
  refine ⟨le_rfl, fun _ h => ⟨h.numbered, ?_⟩⟩
  intro uid c hc
  simp [Cache.empty] at hc

theorem Evolves.of_cache (hg : e.store.given = d.store.given) (hs : e.store.shelf = d.store.shelf)
    (hc : e.cache = d.cache.set c)
    (hex : d.store.given < 2 ^ 63 → d.Coherent →
      ∃ o, d.store.shelf.find? c.uid = some o ∧ c.Excerpt o) : d.Evolves e := by
  refine ⟨hg.ge, fun hn h => ⟨?_, fun uid b hb => ?_⟩⟩
  · rw [hs, hg]
    exact h.numbered
  · rw [hs]
    simp only [hc, Cache.set, Shelf.find?_insert] at hb
    split at hb
    · rename_i huid
      obtain rfl := Option.some.inj hb
      exact huid ▸ hex (hg ▸ hn) h
    · exact h.cached uid b hb

theorem Evolves.of_persist (o : Order)
    (hs : e.store.shelf = d.store.shelf.insert (Store.stored d.store.given o))
    (hg : e.store.given = d.store.given + o.items.length)
    (hc : e.cache = d.cache.set (Store.stored d.store.given o)) : d.Evolves e := by
  refine ⟨hg ▸ Nat.le_add_right .., fun _ h => ⟨fun uid b hb => ?_, fun uid b hb => ?_⟩⟩
  · rw [hg]
    rw [hs, Shelf.find?_insert] at hb
    split at hb
    · obtain rfl := Option.some.inj hb
      exact Store.numbered_stored _ _
    · exact (h.numbered uid b hb).mono (Nat.le_add_right ..)
  · rw [hc, Cache.set, Shelf.find?_insert] at hb
    rw [hs]
    simp only [Shelf.find?_insert]
    split at hb
    · rename_i huid
      obtain rfl := Option.some.inj hb
      exact ⟨_, if_pos huid, .refl _⟩
    · rename_i huid
      -- an entry of another uid stays an excerpt, since the write leaves its order alone
      obtain ⟨a, ha, hba⟩ := h.cached uid b hb
      exact ⟨a, by rw [if_neg huid, ha], hba⟩

/-! ## Programs -/

theorem evolves_persist (d : Desk) (o : Order) : d.Evolves ((persist o).run d).2 := by
  simp only [persist, Access.run_bind, Access.run_perform, Step.run, Store.upsert]
  cases hf : d.store.upsertFailures with
  | cons e rest => exact .of_eq rfl rfl rfl
  | nil => exact .of_persist o rfl rfl rfl

theorem excerpt_of_order (h : (d.store.order uid).1 = .ok o) :
    ∃ b, d.store.shelf.find? o.uid = some b ∧ o.Excerpt b := by
  obtain ⟨-, b, hb, rfl⟩ := Store.order_eq_ok_iff.1 h
  have huid : b.uid = uid := Shelf.uid_of_find? hb
  subst huid
  exact ⟨b, hb, rfl, List.nil_infix⟩

theorem evolves_readOrder (d : Desk) (uid : String) : d.Evolves ((readOrder uid).run d).2 := by
  simp only [readOrder, info, Access.run_bind, Access.run_perform, Step.run]
  split
  · exact .of_eq rfl rfl rfl
  · simp only [Access.run_bind, Access.run_perform, Step.run]
    split
    · rename_i ho
      exact .of_cache rfl rfl rfl fun _ _ => excerpt_of_order (d := d) ho
    · exact .of_eq rfl rfl rfl

theorem Store.page_of_find? {s : Store} (h : s.shelf.find? uid = some o) :
    s.page uid last limit = Page.select o.items last limit := by simp only [Store.page, h]

theorem excerpt_of_headerForPage (hn : d.store.given < 2 ^ 63) (hd : d.Coherent)
    (h : ((headerForPage uid).run d).1 = .ok o) (last limit : Int64) :
    ∃ b, d.store.shelf.find? o.uid = some b ∧
      Order.Excerpt { o with items := d.store.page uid last limit } b := by
  -- of the header only its fields matter, the page takes the place of its items
  have hpage {b : Order} (hb : d.store.shelf.find? uid = some b)
      (ho : o.withoutItems = b.withoutItems) :
      ∃ b, d.store.shelf.find? o.uid = some b ∧
        Order.Excerpt { o with items := d.store.page uid last limit } b := by
    have hex : Order.Excerpt { o with items := d.store.page uid last limit } b := by
      refine ⟨ho, ?_⟩
      rw [Store.page_of_find? hb]
      exact Page.block_select (hd.ascending hn hb) last limit
    have huid : o.uid = uid := hex.uid_eq.trans (Shelf.uid_of_find? hb)
    exact ⟨b, huid ▸ hb, hex⟩
  simp only [headerForPage, Access.run_bind, Access.run_perform, Step.run] at h
  split at h
  · rename_i c hc
    obtain rfl : c = o := by simpa using h
    obtain ⟨a, ha, rfl⟩ := Cache.order_eq_ok_iff.1 hc
    obtain ⟨b, hb, hab⟩ := hd.cached uid a ha
    exact hpage hb hab.1
  · obtain ⟨-, b, hb, rfl⟩ := Store.order_eq_ok_iff.1 h
    exact hpage hb rfl

theorem headerForPage_same (d : Desk) (uid : String) :
    ((headerForPage uid).run d).2.cache = d.cache ∧
      ((headerForPage uid).run d).2.store.shelf = d.store.shelf ∧
      ((headerForPage uid).run d).2.store.given = d.store.given := by
  simp only [headerForPage, Access.run_bind, Access.run_perform, Step.run]
  split <;> exact ⟨rfl, rfl, rfl⟩

theorem evolves_cachePage (d : Desk) (uid : String) (last limit : Int64) :
    d.Evolves ((cachePage uid (d.store.page uid last limit)).run d).2 := by
  obtain ⟨hc, hs, hg⟩ := headerForPage_same d uid
  simp only [cachePage, Access.run_bind]
  split
  · rename_i o ho
    refine .of_cache (c := { o with items := d.store.page uid last limit }) hg hs ?_
      fun hn hd => excerpt_of_headerForPage hn hd ho last limit
    simp only [Access.run_perform, Step.run, hc]
  · exact .of_eq hg hs hc

theorem evolves_fetchItems (d : Desk) (uid : String) (last limit : Int64) :
    d.Evolves ((fetchItems uid last limit).run d).2 := by
  simp only [fetchItems, Access.run_bind, Access.run_perform, Step.run]
  split
  · rename_i page hp
    obtain ⟨-, rfl⟩ := Store.items_eq_ok_iff.1 hp
    have hread : d.Evolves { d.count .miss with store := (d.store.items uid last limit).2 } :=
      .of_eq rfl rfl rfl
    simp only [Access.run_bind, Access.run_pure]
    exact hread.trans (evolves_cachePage _ uid last limit)
  · exact .of_eq rfl rfl rfl

theorem evolves_readItems (d : Desk) (uid : String) (last limit : Int64) :
    d.Evolves ((readItems uid last limit).run d).2 := by
  simp only [readItems, info, Access.run_bind, Access.run_perform, Step.run]
  split
  · exact .of_eq rfl rfl rfl
  · exact (evolves_note _ _).trans (evolves_fetchItems _ uid last limit)

theorem evolves_cacheAll (d : Desk) {os : List Order}
    (h : ∀ c ∈ os, ∃ o, d.store.shelf.find? c.uid = some o ∧ c.Excerpt o) :
    d.Evolves ((cacheAll os).run d).2 := by
  induction os generalizing d with
  | nil => exact .refl d
  | cons c os ih =>
    have hfirst : d.Evolves { d with cache := d.cache.set c } :=
      .of_cache rfl rfl rfl fun _ _ => h c (by simp)
    simp only [cacheAll, Access.run_bind, Access.run_perform, Step.run]
    exact hfirst.trans (ih _ fun b hb => h b (by simp [hb]))

theorem excerpt_of_firstOrders (hn : d.store.given < 2 ^ 63) (hd : d.Coherent)
    (hc : c ∈ d.store.firstOrders limit) :
    ∃ o, d.store.shelf.find? c.uid = some o ∧ c.Excerpt o := by
  obtain ⟨o, ho, rfl⟩ := List.mem_map.1 hc
  have hfind := Shelf.find?_of_mem (List.mem_of_mem_take ho)
  exact ⟨o, hfind, rfl, Page.block_select (hd.ascending hn hfind) 0 limit⟩

theorem store_cacheAll (d : Desk) (os : List Order) :
    ((cacheAll os).run d).2.store = d.store := by
  induction os generalizing d with
  | nil => rfl
  | cons c os ih =>
    simp only [cacheAll, Access.run_bind, Access.run_perform, Step.run]
    exact ih _

theorem evolves_warmUp (d : Desk) (limit : Int64) : d.Evolves ((warmUp limit).run d).2 := by
  simp only [warmUp, Access.run_bind, Access.run_perform, Step.run]
  split
  · rename_i os hos
    obtain ⟨-, rfl⟩ := Store.all_eq_ok_iff.1 hos
    have hread : d.Evolves { d with store := (d.store.all limit).2 } := .of_eq rfl rfl rfl
    simp only [Access.run_bind, Access.run_pure]
    -- caching gives no numbers, so the bound after it is one before it
    refine hread.trans ⟨by rw [store_cacheAll], fun hn hd => ?_⟩
    have hlt := hn
    rw [store_cacheAll] at hlt
    exact (evolves_cacheAll _ fun c hc => excerpt_of_firstOrders hlt hd hc).2 hn hd
  · exact .of_eq rfl rfl rfl

end Desk

end OrderDesk
