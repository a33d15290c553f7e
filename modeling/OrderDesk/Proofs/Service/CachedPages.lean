import OrderDesk.Order.Sample
import OrderDesk.Proofs.Desk.Pages
import OrderDesk.Proofs.Service.Deeds

/-!
Pages that the service reads, after any commands that go through clients and messages. A cached page
hides the items around it: whether a page is the store's depends on what was read before.
-/

namespace OrderDesk

namespace Service

variable {α : Type}

theorem answer_access (s : Service) {p : Access (Except OrderError α)} (write : α → Answer) {a : α}
    (h : (p.run s.desk).1 = .ok a) : (s.access p write).1 = write a := by
  rw [access_eq, h]

/-- A page that is read is the page of the store if and only if the cached order serves it. Items
before the cached ones are hidden, and items after them unless the limit is reached before. -/
theorem readItems_eq_storedItems_iff (settings : IngestSettings) (running exposed : Bool)
    (cs : List Command) (hcs : ∀ c ∈ cs, ¬ c.Bypasses) {s : Service}
    (hs : ((start settings running exposed).performAll cs).2 = s)
    (hn : s.desk.store.given < 2 ^ 63) (hf : s.desk.store.readFailure = none)
    (uid : String) (last limit : Int64) (hl : 0 < limit) :
    ∃ page stored, (s.perform (.readItems uid last limit)).1 = .items page ∧
      (s.perform (.storedItems uid last limit)).1 = .items stored ∧
      (page = stored ↔
        ∀ c o, s.desk.cache.shelf.find? uid = some c → s.desk.store.shelf.find? uid = some o →
          Page.Serves c.items o.items last limit) := by
  have hcoherent := coherent_performAll settings running exposed hcs hs hn
  obtain ⟨page, hpage, hiff⟩ := hcoherent.readItems_eq_iff uid last hn hf hl
  have hstored : (s.desk.store.items uid last limit).1 = .ok (s.desk.store.page uid last limit) :=
    Store.items_eq_ok_iff.2 ⟨hf, rfl⟩
  exact ⟨page, _, s.answer_access .items hpage, s.answer_access .items hstored, hiff⟩

theorem readItems_sample :
    let s := ((start .standard false false).performAll
      [.persist (.sample "b563feb7b2b84b6test" 3), .clearCache,
        .readItems "b563feb7b2b84b6test" 0 2]).2
    ∃ page, (s.perform (.readItems "b563feb7b2b84b6test" 2 10)).1 = .items page ∧
      (s.perform (.storedItems "b563feb7b2b84b6test" 2 10)).1 = .items page := by
  intro s
  obtain ⟨page, stored, hpage, hstored, hiff⟩ :=
    readItems_eq_storedItems_iff .standard false false
      [.persist (.sample "b563feb7b2b84b6test" 3), .clearCache,
        .readItems "b563feb7b2b84b6test" 0 2]
      (by simp [Command.Bypasses]) (s := s) rfl (by decide +kernel) rfl "b563feb7b2b84b6test" 2 10
      (by decide)
  have hserves : page = stored := by
    refine hiff.2 fun c o hc _ => .inl ?_
    have hall : ∀ x ∈ c.items, x.id ≤ 2 := by
      have hcached : (s.desk.cache.shelf.find? "b563feb7b2b84b6test").all
          fun c => c.items.all fun x => x.id ≤ 2 := by decide +kernel
      rw [hc] at hcached
      simpa using hcached
    exact hall
  exact ⟨page, hpage, hserves ▸ hstored⟩

/-- After a page from the second item on was read, a reader from the start misses the first item. -/
theorem readItems_hides_first :
    let s := ((start .standard false false).performAll
      [.persist (.sample "b563feb7b2b84b6test" 3), .clearCache,
        .readItems "b563feb7b2b84b6test" 1 10]).2
    ∃ page stored, (s.perform (.readItems "b563feb7b2b84b6test" 0 10)).1 = .items page ∧
      (s.perform (.storedItems "b563feb7b2b84b6test" 0 10)).1 = .items stored ∧
      page.map Item.id = [2, 3] ∧ stored.map Item.id = [1, 2, 3] :=
  ⟨_, _, rfl, rfl, by decide +kernel, by decide +kernel⟩

end Service

end OrderDesk
