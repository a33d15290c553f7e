import OrderDesk.Order.Sample
import OrderDesk.Proofs.Desk.Pages
import OrderDesk.Proofs.Service.Deeds

/-!
Reads of the service, after any commands that go through clients and messages, and whatever failed
meanwhile. They show the last version of an order that was written, and blocks of its items.
-/

namespace OrderDesk

namespace Desk

variable {d : Desk} {o : Order} {uid : String} {last limit : Int64} {page : List Item}

theorem Coherent.readOrder_ok (hd : d.Coherent) (h : ((readOrder uid).run d).1 = .ok o) :
    ∃ b, d.store.shelf.find? uid = some b ∧ o = b.withoutItems := by
  rcases d.readOrder_cases uid with ⟨c, hc, he⟩ | ⟨-, he⟩
  · obtain ⟨b, hb, hex, -⟩ := hd.cached uid c hc
    obtain rfl : c.withoutItems = o := Except.ok.inj (he.symm.trans h)
    exact ⟨b, hb, hex⟩
  · obtain ⟨-, b, hb, hbo⟩ := Store.order_eq_ok_iff.1 (he.symm.trans h)
    exact ⟨b, hb, hbo.symm⟩

theorem Coherent.readOrder_eq (hd : d.Coherent) (uid : String)
    (hr : d.store.readFailure = none ∨ (d.cache.shelf.find? uid).isSome = true) :
    ((readOrder uid).run d).1 =
      match d.store.shelf.find? uid with
      | some b => .ok b.withoutItems
      | none => .error (Store.missing uid) := by
  rcases d.readOrder_cases uid with ⟨c, hc, he⟩ | ⟨hnone, he⟩
  · obtain ⟨b, hb, hex, -⟩ := hd.cached uid c hc
    rw [he, hb, hex]
  · have hf : d.store.readFailure = none := hr.resolve_right (by simp [hnone])
    rw [he]
    cases hb : d.store.shelf.find? uid <;> simp only [Store.order, Store.read, hf, hb]

theorem Coherent.isPage_of_readItems (hd : d.Coherent) (hn : d.store.given < 2 ^ 63)
    (h : ((readItems uid last limit).run d).1 = .ok page) :
    Page.IsPage page ((d.store.shelf.find? uid).elim [] Order.items) last limit := by
  rcases d.readItems_cases uid last limit with ⟨c, hc, -, he⟩ | ⟨-, he⟩
  · obtain ⟨b, hb, -, hblock⟩ := hd.cached uid c hc
    have hasc := (hd.ascending hn hb).of_block hblock
    obtain rfl : Page.slice c.items last limit = page := Except.ok.inj (he.symm.trans h)
    rw [hb, Page.slice_eq_select hasc]
    exact (Page.isPage_select hasc last limit).of_block hblock
  · obtain ⟨-, rfl⟩ := Store.items_eq_ok_iff.1 (he.symm.trans h)
    cases hb : d.store.shelf.find? uid with
    | some b =>
      rw [Store.page_of_find? hb]
      exact Page.isPage_select (hd.ascending hn hb) last limit
    | none =>
      have hnil : d.store.page uid last limit = Page.select [] last limit := by
        simp only [Store.page, hb, Page.select, List.filter_nil, List.take_nil]
      rw [hnil]
      exact Page.isPage_select .nil last limit

theorem exists_page_of_readable (d : Desk) (uid : String) (last limit : Int64)
    (hf : d.store.readFailure = none) :
    ∃ page, ((readItems uid last limit).run d).1 = .ok page := by
  rcases d.readItems_cases uid last limit with ⟨c, -, -, he⟩ | ⟨-, he⟩
  · exact ⟨_, he⟩
  · exact ⟨_, he.trans (Store.items_eq_ok_iff.2 ⟨hf, rfl⟩)⟩

end Desk

namespace Service

structure UpToDate (s : Service) (versions : List Order) : Prop where
  stored : ∀ uid, s.desk.store.shelf.find? uid = Order.latest versions uid
  /-- A cached order is the stored one but for its items, a block of the stored ones. -/
  cached : ∀ uid c, s.desk.cache.shelf.find? uid = some c →
    ∃ o, s.desk.store.shelf.find? uid = some o ∧ c.withoutItems = o.withoutItems ∧
      c.items <:+: o.items
  order : ∀ uid o, (s.perform (.readOrder uid)).1 = .order o →
    ∃ v, Order.latest versions uid = some v ∧ o = v.withoutItems
  /-- No failure of the store hides a cached order. -/
  readable : ∀ uid, s.desk.store.readFailure = none ∨
      (s.desk.cache.shelf.find? uid).isSome = true →
    (s.perform (.readOrder uid)).1 =
      match Order.latest versions uid with
      | some v => .order v.withoutItems
      | none => .failed (Store.missing uid)
  page : ∀ uid last limit page, (s.perform (.readItems uid last limit)).1 = .items page →
    Page.IsPage page ((Order.latest versions uid).elim [] Order.items) last limit
  /-- No item of a replaced version is shown, for their numbers are never given again. -/
  fresh : ∀ uid last limit page, (s.perform (.readItems uid last limit)).1 = .items page →
    ∀ v, Order.Replaced versions v → ∀ x ∈ page, ∀ y ∈ v.items, x.id ≠ y.id
  pageable : s.desk.store.readFailure = none → ∀ uid last limit,
    ∃ page, (s.perform (.readItems uid last limit)).1 = .items page

theorem readOrder_eq_order_iff (s : Service) (uid : String) (o : Order) :
    (s.perform (.readOrder uid)).1 = .order o ↔
      ((Desk.readOrder uid).run s.desk).1 = .ok o := by
  simp only [perform, access_eq]
  cases ((Desk.readOrder uid).run s.desk).1 <;> simp

theorem readItems_eq_items_iff (s : Service) (uid : String) (last limit : Int64)
    (page : List Item) :
    (s.perform (.readItems uid last limit)).1 = .items page ↔
      ((Desk.readItems uid last limit).run s.desk).1 = .ok page := by
  simp only [perform, access_eq]
  cases ((Desk.readItems uid last limit).run s.desk).1 <;> simp

/-- Whatever was done to the service through clients and messages, it shows the versions of orders
that were written last, as long as it has numbers to give. -/
theorem upToDate (settings : IngestSettings) (running exposed : Bool) (cs : List Command)
    (hcs : ∀ c ∈ cs, ¬ c.Bypasses) {s : Service}
    (hs : ((start settings running exposed).performAll cs).2 = s)
    (hn : s.desk.store.given < 2 ^ 63) :
    s.UpToDate (Store.versions 0 ((start settings running exposed).writtenAll cs)) := by
  have hdeeds := deeds_of_start settings running exposed hcs hs
  have hcoherent := coherent_performAll settings running exposed hcs hs hn
  have hgiven := hdeeds.stores.given
  generalize (start settings running exposed).writtenAll cs = os at hdeeds hgiven
  have hstored := hdeeds.find?_eq_latest
  have hpage : ∀ uid last limit page, (s.perform (.readItems uid last limit)).1 = .items page →
      Page.IsPage page ((Order.latest (Store.versions 0 os) uid).elim [] Order.items) last limit := by
    intro uid last limit page hp
    have hanswer := (s.readItems_eq_items_iff uid last limit page).1 hp
    rw [← hstored]
    exact hcoherent.isPage_of_readItems hn hanswer
  refine
    { stored := hstored
      page := hpage
      cached := ?cached
      order := ?order
      readable := ?readable
      fresh := ?fresh
      pageable := ?pageable }
  case cached =>
    intro uid c hc
    obtain ⟨o, ho, hex⟩ := hcoherent.cached uid c hc
    exact ⟨o, ho, hex.1, hex.2⟩
  case order =>
    intro uid o ho
    have hanswer := (s.readOrder_eq_order_iff uid o).1 ho
    obtain ⟨v, hv, he⟩ := hcoherent.readOrder_ok hanswer
    exact ⟨v, (hstored uid).symm.trans hv, he⟩
  case readable =>
    intro uid hr
    have hanswer := hcoherent.readOrder_eq uid hr
    simp only [perform, access_eq, hanswer, hstored]
    cases Order.latest (Store.versions 0 os) uid <;> rfl
  case fresh =>
    intro uid last limit page hp v hv x hx y hy
    have hblock := (hpage uid last limit page hp).block
    have hlast : Store.givenAfter 0 os < 2 ^ 63 := hgiven ▸ hn
    cases hu : Order.latest (Store.versions 0 os) uid with
    | none =>
      -- nothing is stored of the order, so its pages are empty
      rw [hu, Option.elim_none, List.infix_nil] at hblock
      subst hblock
      cases hx
    | some u =>
      rw [hu] at hblock
      exact Store.id_ne_of_replaced hlast hu hv (hblock.subset hx) hy
  case pageable =>
    intro hf uid last limit
    obtain ⟨page, hanswer⟩ := s.desk.exists_page_of_readable uid last limit hf
    exact ⟨page, (s.readItems_eq_items_iff uid last limit page).2 hanswer⟩

theorem upToDate_sample :
    let cs : List Command :=
      [.persist (.sample "b563feb7b2b84b6test" 2), .readItems "b563feb7b2b84b6test" 0 1,
        .persist (.sample "b563feb7b2b84b6test" 3), .clearCache,
        .readItems "b563feb7b2b84b6test" 3 10, .failReads (some (.storage "down"))]
    let s := ((start .standard false false).performAll cs).2
    let versions := Store.versions 0 ((start .standard false false).writtenAll cs)
    s.UpToDate versions ∧ versions.map (fun v => v.items.map Item.id) = [[1, 2], [3, 4, 5]] ∧
      ∃ v, Order.latest versions "b563feb7b2b84b6test" = some v ∧
        (s.perform (.readOrder "b563feb7b2b84b6test")).1 = .order v.withoutItems := by
  intro cs s versions
  have hcurrent : s.UpToDate versions :=
    upToDate .standard false false cs (by simp [cs, Command.Bypasses]) rfl (by decide +kernel)
  have hcached : (s.desk.cache.shelf.find? "b563feb7b2b84b6test").isSome = true := by
    decide +kernel
  have hanswer := hcurrent.readable _ (.inr hcached)
  cases hv : Order.latest versions "b563feb7b2b84b6test" with
  | none =>
    have hsome : (Order.latest versions "b563feb7b2b84b6test").isSome = true := by decide +kernel
    simp [hv] at hsome
  | some v =>
    rw [hv] at hanswer
    exact ⟨hcurrent, by decide +kernel, v, rfl, hanswer⟩

end Service

end OrderDesk
