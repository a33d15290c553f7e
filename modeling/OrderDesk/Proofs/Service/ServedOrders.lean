import OrderDesk.Order.Sample
import OrderDesk.Proofs.Api.Targets
import OrderDesk.Proofs.Desk.Pages
import OrderDesk.Proofs.Ingest.Arrivals
import OrderDesk.Proofs.Service.Deeds
import OrderDesk.Proofs.Service.UniformFailures
import OrderDesk.Proofs.Wire.Orders

/-!
Orders served as soon as they are processed. What came in as a message goes out as an answer, and the
store is not asked for it.
-/

namespace OrderDesk

namespace Store

variable {given : Nat} {o : Order} {xs : List Item}

theorem slice_numbered (h : given + xs.length < 2 ^ 63) {n : Nat} (hn : n < 2 ^ 63) :
    Page.slice (numbered given xs) 0 (.ofNat n) = (numbered given xs).take n := by
  have hall : Page.beyond 0 (numbered given xs) = numbered given xs :=
    Page.beyond_eq_self fun x => pos_of_mem_numbered h
  have hallowed : Page.allowed (.ofNat n) = n := by
    rw [Page.allowed, Int64.toInt_ofNat_of_lt hn, Int.toNat_natCast]
  rw [Page.slice_eq_select (ascending_numbered h), Page.select_eq, hall, hallowed]

theorem withoutItems_stored (h : o.payment.transaction = o.uid) (given : Nat) :
    (stored given o).withoutItems = o.withoutItems := by
  have hpayment : { o.payment with transaction := o.uid } = o.payment := by rw [← h]
  rw [stored, hpayment]
  rfl

end Store

namespace Api

variable {d : Desk} {c : Order} {uid : String} {n : Nat}

theorem getOrder_of_cached (hplain : ∀ c ∈ uid.toList, isPlain c = true)
    (hblank : Text.blank uid = false) (hc : d.cache.shelf.find? uid = some c) :
    ∃ e : Desk, (getOrder uid.toList).run d = (.json 200 (Wire.orderText c.withoutItems), e) ∧
      e.store = d.store ∧ e.cache = d.cache := by
  have hid : segmentText? uid.toList = some uid := by
    rw [segmentText?_eq_self (not_mem_of_plain hplain (by decide)), String.ofList_toList]
  simp only [getOrder, hid, hblank, Bool.false_eq_true, if_false, answer, Access.run_bind,
    Desk.readOrder_hit hc]
  exact ⟨_, rfl, rfl, rfl⟩

theorem getItems_of_cached (hplain : ∀ c ∈ uid.toList, isPlain c = true)
    (hblank : Text.blank uid = false) (hc : d.cache.shelf.find? uid = some c) (hpos : 1 ≤ n)
    (hmost : n ≤ 100) (hne : Page.slice c.items 0 (.ofNat n) ≠ []) :
    ∃ e : Desk, (getItems uid.toList ("limit=".toList ++ Text.Decimal.ofNat n)).run d =
        (.json 200 (Wire.itemsText (Page.slice c.items 0 (.ofNat n))), e) ∧
      e.store = d.store ∧ e.cache = d.cache := by
  have hid : segmentText? uid.toList = some uid := by
    rw [segmentText?_eq_self (not_mem_of_plain hplain (by decide)), String.ofList_toList]
  have hquery : pageQuery (formPairs ("limit=".toList ++ Text.Decimal.ofNat n)) =
      .ok ⟨some (Text.Decimal.natText n), none⟩ := by
    rw [formPairs_limit]
    rfl
  simp only [getItems, hid, hquery, hblank, Bool.false_eq_true, if_false, page_limit hpos hmost,
    answer, Access.run_bind, Desk.readItems_hit hc hne]
  exact ⟨_, rfl, rfl, rfl⟩

end Api

namespace Service

variable {s t : Service} {m : Message} {o : Order}

def Answers (s : Service) (uri : String) (reads : String → Prop) : Prop :=
  ∃ body t, s.perform (.request "GET" uri) = (.response (.json 200 body), t) ∧ reads body ∧
    t.desk.store = s.desk.store ∧ t.desk.cache = s.desk.cache

structure Serves (s : Service) (o : Order) : Prop where
  order : (Text.Utf8.ofString (Api.orderUri o.uid)).length ≤ Api.Target.mostBytes →
    s.Answers (Api.orderUri o.uid) fun body =>
      Wire.decodeOrder (Text.Utf8.ofString body) = .ok o.withoutItems
  page : ∀ limit, 1 ≤ limit → limit ≤ 100 →
    (Text.Utf8.ofString (Api.pageUri o.uid limit)).length ≤ Api.Target.mostBytes →
    s.Answers (Api.pageUri o.uid limit) fun body =>
      ∃ xs, Wire.decodeWith Wire.readItems (Text.Utf8.ofString body) = .ok xs ∧
        (xs.map fun x => { x with id := 0 }) =
          ((o.items.take limit).map fun x => { x with id := 0 }) ∧
        (∀ x ∈ xs, 0 < x.id) ∧ Page.Ascending xs

theorem answers_of_get {uri body : String} {reads : String → Prop} {q : Api.Request}
    {route : Api.Route} (hq : Api.Request.ofStrings? "GET" uri = some q)
    (hroute : Api.Route.ofPath? q.target.path = some route) {d : Desk}
    (hget : Api.get s.exposure s.desk q.target.query route = (.json 200 body, d))
    (hstore : d.store = s.desk.store) (hcache : d.cache = s.desk.cache) (hreads : reads body) :
    s.Answers uri reads := by
  refine ⟨body, s.withDesk fun _ => d, ?_, hreads, hstore, hcache⟩
  rw [s.perform_get hq hroute]
  exact congrArg (fun r => (Answer.response r.1, s.withDesk fun _ => r.2)) hget

theorem serves_of_retains (hvalid : o.Valid) (hretains : s.desk.Retains o)
    (hn : s.desk.store.given < 2 ^ 63) : s.Serves o := by
  obtain ⟨k, hk, -, hcached⟩ := hretains
  have huid := hvalid.header
  simp only [Check.header, Check.pass_cons] at huid
  obtain ⟨hblank, haccepts⟩ := Check.matching_eq_none_iff.1 huid.1
  -- a valid identifier is alphanumeric, so it stands in a path as it is
  have hplain := Api.plain_of_alphanumeric haccepts
  have hslash : '/' ∉ o.uid.toList := Api.not_mem_of_plain hplain (by decide)
  constructor
  case order =>
    intro hlen
    have hne : o.uid.toList ≠ [] := by
      intro hnil
      rw [Text.blank, hnil] at hblank
      cases hblank
    have hroute : Api.Route.ofPath? ("/api/orders/".toList ++ o.uid.toList) =
        some (.order o.uid.toList) := by
      rw [Api.ofPath?_orders, Api.orderRoute_id hslash hne]
    obtain ⟨e, hget, hstore, hcache⟩ := Api.getOrder_of_cached hplain hblank hcached
    refine answers_of_get (Api.ofStrings?_orderUri hplain hlen) hroute hget hstore hcache ?_
    rw [Store.withoutItems_stored hvalid.transaction_eq, Wire.ofString_orderText]
    exact Wire.decodeOrder_encodeOrder o.withoutItems
  case page =>
    intro limit hpos hmost hlen
    have hnumbers : k + o.items.length < 2 ^ 63 := hk.trans_lt hn
    have hpage : Page.slice (Store.stored k o).items 0 (.ofNat limit) =
        (Store.numbered k o.items).take limit := Store.slice_numbered hnumbers (by omega)
    have hsome : Page.slice (Store.stored k o).items 0 (.ofNat limit) ≠ [] := by
      rw [hpage, Ne, List.take_eq_nil_iff, Store.numbered_eq_nil_iff]
      exact not_or.2 ⟨by omega, hvalid.items⟩
    have hroute : Api.Route.ofPath? ("/api/orders/".toList ++ (o.uid.toList ++ "/items".toList)) =
        some (.items o.uid.toList) := by
      rw [Api.ofPath?_orders, Api.orderRoute_items hslash]
    obtain ⟨e, hget, hstore, hcache⟩ :=
      Api.getItems_of_cached hplain hblank hcached hpos hmost hsome
    refine answers_of_get (Api.ofStrings?_pageUri hplain limit hlen) hroute hget hstore hcache ?_
    rw [hpage]
    refine ⟨_, Wire.decodeWith_itemsText _, ?_, ?_, ?_⟩
    · rw [List.map_take, Store.unnumbered_numbered, ← List.map_take]
    · exact fun x hx => Store.pos_of_mem_numbered hnumbers (List.mem_of_mem_take hx)
    · exact (Store.ascending_numbered hnumbers).sublist (List.take_sublist ..)

theorem retains_process (s : Service) (m : Message) (closeAfter : Option Nat)
    (h : ∃ now calls, (s.perform (.process m closeAfter)).1 =
      .processed (.ok .processed) now calls) :
    ∃ o, m.order? = some o ∧ (s.perform (.process m closeAfter)).2.desk.Retains o := by
  obtain ⟨now, calls, h⟩ := h
  injection h with hanswer
  cases closeAfter with
  | none => exact Pipeline.retains_process _ m _ hanswer
  | some after => exact s.pipeline.retains_processAndClose m after hanswer

/-- An order whose message was just processed is served, even if the store cannot be read any more. -/
theorem processed_served (s : Service) (m : Message) (closeAfter : Option Nat) (o : Order)
    (hread : Wire.decodeOrder m.bytes = .ok o) (hvalid : o.validate = .ok ())
    (hprocessed : ∃ now calls,
      (s.perform (.process m closeAfter)).1 = .processed (.ok .processed) now calls)
    (hn : (s.perform (.process m closeAfter)).2.desk.store.given < 2 ^ 63)
    (failure : Option OrderError) :
    ((s.perform (.process m closeAfter)).2.perform (.failReads failure)).2.Serves o := by
  have horder : m.order? = some o :=
    Message.order?_eq_some_iff.2 ⟨hread, Order.validate_eq_ok_iff.1 hvalid⟩
  obtain ⟨b, hb, hretains⟩ := s.retains_process m closeAfter hprocessed
  obtain rfl : b = o := Option.some.inj (hb.symm.trans horder)
  -- a failure of reads is none of what the store and the cache hold
  exact serves_of_retains (Order.validate_eq_ok_iff.1 hvalid) hretains hn

theorem perform_process (s : Service) (hs : s.pipeline.stopped = false)
    (hk : s.pipeline.keys.contains m.processedKey = false) (ho : m.order? = some o) :
    let r := (s.pipeline.record (.began m)).handle m o .never
    (∃ now calls, (s.perform (.process m none)).1 = .processed r.1 now calls) ∧
      (s.perform (.process m none)).2.desk = r.2.desk := by
  intro r
  have hprocess : s.pipeline.processMessage m = (r.1, r.2.record (.ended r.2.now m r.1)) := by
    rw [Pipeline.processMessage, hs]
    exact s.pipeline.process_of_order hk ho .never
  simp only [perform, processMessage, hprocess]
  exact ⟨⟨_, _, rfl⟩, rfl⟩

theorem processed_served_sample :
    let o := Order.sample "b563feb7b2b84b6test" 2
    let s := ((start .standard false false).performAll [.failUpserts (.storage "down") 1]).2
    (s.perform (.process (.sample o 0) none)).2.desk.store.upsertCalls = 2 ∧
      ((s.perform (.process (.sample o 0) none)).2.perform
        (.failReads (some (.storage "still down")))).2.Serves o := by
  intro o s
  have hread : Wire.decodeOrder (Message.sample o 0).bytes = .ok o :=
    Wire.decodeOrder_encodeOrder o
  have hvalid : o.validate = .ok () := by decide +kernel
  have horder : (Message.sample o 0).order? = some o :=
    Message.order?_eq_some_iff.2 ⟨hread, Order.validate_eq_ok_iff.1 hvalid⟩
  obtain ⟨⟨now, calls, hprocessed⟩, hdesk⟩ := s.perform_process rfl rfl horder
  have hanswer : ((s.pipeline.record (.began (.sample o 0))).handle (.sample o 0) o .never).1 =
      .ok .processed := by decide +kernel
  rw [hanswer] at hprocessed
  have hstore : (s.perform (.process (.sample o 0) none)).2.desk.store.given < 2 ^ 63 ∧
      (s.perform (.process (.sample o 0) none)).2.desk.store.upsertCalls = 2 := by
    rw [hdesk]
    decide +kernel
  have hserves := s.processed_served (.sample o 0) none o hread hvalid ⟨now, calls, hprocessed⟩
    hstore.1 (some (.storage "still down"))
  exact ⟨hstore.2, hserves⟩

end Service

end OrderDesk
