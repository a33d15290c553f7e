import OrderDesk.Order.Sample
import OrderDesk.Proofs.Desk.Sharing

/-!
What a crowd leaves at the desk. What is cached is pieced together from versions of an order. It is the
last version's if those who cache anything after the last writer came after him.
-/

namespace OrderDesk

/-! ## Turns -/

namespace Crowd.Turn

def stored (ts : List Turn) : List Order := ts.filterMap fun t => t.impact.stored?

def cached (ts : List Turn) : List Order := ts.filterMap fun t => t.impact.cached?

theorem stored_append (ts us : List Turn) : stored (ts ++ us) = stored ts ++ stored us :=
  List.filterMap_append ..

theorem cached_append (ts us : List Turn) : cached (ts ++ us) = cached ts ++ cached us :=
  List.filterMap_append ..

theorem stored_singleton (i : Nat) (x : Impact) : stored [⟨i, x⟩] = x.stored?.toList := by
  cases h : x.stored? <;> simp [stored, h]

theorem cached_singleton (i : Nat) (x : Impact) : cached [⟨i, x⟩] = x.cached?.toList := by
  cases h : x.cached? <;> simp [cached, h]

end Crowd.Turn

namespace Crowd

variable {w w' : Crowd} {i j : Nat} {is : List Nat} {ts us : List Turn} {uid : String}
  {vs : List Order}

theorem turn_cases (w : Crowd) (i : Nat) :
    w.turn i = ([], w) ∨
      ∃ (c : Client) (β : Type) (s : Step β) (next : β → Access (Except OrderError c.Answer)),
        w.clients[i]? = some c ∧ c.rest = .step s next ∧
        w.turn i = ([⟨i, s.impact (s.run w.desk).1⟩],
          ⟨w.clients.set i ⟨_, next (s.run w.desk).1⟩, (s.run w.desk).2⟩) := by
  unfold turn
  split
  · rename_i α β s next h
    exact .inr ⟨⟨α, .step s next⟩, β, s, next, h, rfl, rfl⟩
  · exact .inl rfl

theorem run_cons (w : Crowd) (i : Nat) (is : List Nat) :
    w.run (i :: is) = ((w.turn i).1 ++ ((w.turn i).2.run is).1, ((w.turn i).2.run is).2) := rfl

theorem shelf_turn (w : Crowd) (i : Nat) :
    (w.turn i).2.desk.store.shelf =
      (Turn.stored (w.turn i).1).foldl Shelf.insert w.desk.store.shelf := by
  rcases w.turn_cases i with h | ⟨c, β, s, next, -, -, h⟩ <;> rw [h]
  · rfl
  · rw [Turn.stored_singleton, ← s.shelf_run]

theorem cache_turn (w : Crowd) (i : Nat) :
    (w.turn i).2.desk.cache.shelf =
      (Turn.cached (w.turn i).1).foldl Shelf.insert w.desk.cache.shelf := by
  rcases w.turn_cases i with h | ⟨c, β, s, next, -, -, h⟩ <;> rw [h]
  · rfl
  · rw [Turn.cached_singleton, ← s.cache_run]

theorem given_le_turn (w : Crowd) (i : Nat) :
    w.desk.store.given ≤ (w.turn i).2.desk.store.given := by
  rcases w.turn_cases i with h | ⟨c, β, s, next, -, -, h⟩ <;> rw [h]
  exact s.given_le_run _

/-! ## Runs -/

theorem shelf_run (w : Crowd) (is : List Nat) :
    (w.run is).2.desk.store.shelf =
      (Turn.stored (w.run is).1).foldl Shelf.insert w.desk.store.shelf := by
  induction is generalizing w with
  | nil => rfl
  | cons i is ih =>
    rw [run_cons, Turn.stored_append, List.foldl_append, ← shelf_turn]
    exact ih _

theorem cache_run (w : Crowd) (is : List Nat) :
    (w.run is).2.desk.cache.shelf =
      (Turn.cached (w.run is).1).foldl Shelf.insert w.desk.cache.shelf := by
  induction is generalizing w with
  | nil => rfl
  | cons i is ih =>
    rw [run_cons, Turn.cached_append, List.foldl_append, ← cache_turn]
    exact ih _

theorem given_le_run (w : Crowd) (is : List Nat) :
    w.desk.store.given ≤ (w.run is).2.desk.store.given := by
  induction is generalizing w with
  | nil => exact le_rfl
  | cons i is ih => exact (w.given_le_turn i).trans (ih _)

theorem clients_run (w : Crowd) (is : List Nat) (h : ∀ t ∈ (w.run is).1, t.client ≠ j) :
    (w.run is).2.clients[j]? = w.clients[j]? := by
  induction is generalizing w with
  | nil => rfl
  | cons i is ih =>
    rw [run_cons] at h ⊢
    have hrest := ih (w.turn i).2 fun t ht => h t (List.mem_append_right _ ht)
    rw [hrest]
    rcases w.turn_cases i with hturn | ⟨c, β, s, next, -, -, hturn⟩ <;> rw [hturn] at h ⊢
    have hne : i ≠ j := h ⟨i, _⟩ (List.mem_append_left _ List.mem_cons_self)
    exact List.getElem?_set_ne hne

theorem exists_of_run_append (w : Crowd) (ts : List Turn) (h : w.run is = (ts ++ us, w')) :
    ∃ js ks v, w.run js = (ts, v) ∧ v.run ks = (us, w') := by
  induction is generalizing w ts with
  | nil =>
    obtain ⟨hnil, rfl⟩ := Prod.mk.inj h
    obtain ⟨rfl, rfl⟩ := List.append_eq_nil_iff.1 hnil.symm
    exact ⟨[], [], w, rfl, rfl⟩
  | cons i is ih =>
    cases ts with
    | nil => exact ⟨[], i :: is, w, rfl, h⟩
    | cons t ts =>
      rw [run_cons] at h
      obtain ⟨hts, hw⟩ := Prod.mk.inj h
      rcases w.turn_cases i with hturn | ⟨c, β, s, next, -, -, hturn⟩ <;> rw [hturn] at hts hw
      · obtain ⟨js, ks, v, hjs, hks⟩ := ih w (t :: ts) (Prod.ext hts hw)
        refine ⟨i :: js, ks, v, ?_, hks⟩
        rw [run_cons, hturn, hjs]
        rfl
      · simp only [List.cons_append, List.nil_append, List.cons.injEq] at hts
        obtain ⟨rfl, hts⟩ := hts
        obtain ⟨js, ks, v, hjs, hks⟩ := ih _ ts (Prod.ext hts hw)
        refine ⟨i :: js, ks, v, ?_, hks⟩
        rw [run_cons, hturn, hjs]
        rfl

theorem holds_run (is : List Nat) (h : w.desk.Holds uid vs)
    (hn : (w.run is).2.desk.store.given < 2 ^ 63)
    (hc : ∀ t ∈ (w.run is).1, t.impact ≠ .none → ∀ c, w.clients[t.client]? = some c →
      c.Keeps uid vs) : (w.run is).2.desk.Holds uid (vs ++ Turn.stored (w.run is).1) := by
  induction is generalizing w vs with
  | nil => simpa [run, Turn.stored] using h
  | cons i is ih =>
    have hlt := ((w.turn i).2.given_le_run is).trans_lt hn
    rw [run_cons] at hn hc ⊢
    rw [Turn.stored_append, ← List.append_assoc]
    rcases w.turn_cases i with hturn | ⟨c, β, s, next, hi, hrest, hturn⟩
    · rw [hturn] at hn hc ⊢
      have hrun := ih h hn hc
      rwa [show Turn.stored [] = [] from rfl, List.append_nil]
    · rw [hturn] at hn hc hlt ⊢
      rw [Turn.stored_singleton]
      simp only [List.cons_append, List.nil_append, List.forall_mem_cons] at hc
      obtain ⟨hhead, htail⟩ := hc
      by_cases hk : c.Keeps uid vs
      -- one who keeps to versions does so at this turn and later
      · rw [Client.Keeps, hrest] at hk
        obtain ⟨hd, hnext⟩ := hk vs w.desk (List.Subset.refl vs) h hlt
        refine ih hd hn fun t ht hx b hb => ?_
        by_cases hti : i = t.client
        · obtain rfl := hti
          have hlen := (List.getElem?_eq_some_iff.1 hi).1
          rw [List.getElem?_set_self hlen] at hb
          obtain rfl := Option.some.inj hb
          exact hnext
        · rw [List.getElem?_set_ne hti] at hb
          exact (htail t ht hx b hb).mono (List.subset_append_left ..)
      -- another one has no impact, now or later
      · have hquiet : s.impact (s.run w.desk).1 = .none := by
          by_contra hx
          exact hk (hhead hx c hi)
        have hd : (s.run w.desk).2.Holds uid vs := by
          refine h.of_same (s.given_le_run _) ?_ ?_
          · rw [s.shelf_run, hquiet]
            rfl
          · rw [s.cache_run, hquiet]
            rfl
        rw [hquiet]
        have hrun := ih hd hn fun t ht hx b hb => by
          have hti : i ≠ t.client := fun he => hk (htail t ht hx c (he ▸ hi))
          rw [List.getElem?_set_ne hti] at hb
          exact htail t ht hx b hb
        rwa [show Impact.none.stored?.toList = [] from rfl, List.append_nil]

/-! ## What is left -/

/-- Nothing was stored, or the one who stored last has cached what he stored, and whoever cached
anything after that took his first turn after that. -/
def Settled (ts : List Turn) : Prop :=
  Turn.stored ts = [] ∨
    ∃ before i v mid late, ts = before ++ ⟨i, .stored v⟩ :: mid ++ [⟨i, .cached v⟩] ++ late ∧
      Turn.stored mid = [] ∧ Turn.stored late = [] ∧
      ∀ t ∈ late, t.impact ≠ .none →
        ∀ u ∈ before ++ ⟨i, .stored v⟩ :: mid ++ [⟨i, .cached v⟩], u.client ≠ t.client

theorem keeps_gather {d : Desk} (visits : List (Visit uid)) {c : Client}
    (h : (gather d visits).clients[i]? = some c) (vs : List Order) : c.Keeps uid vs := by
  simp only [gather, List.getElem?_map, Option.map_eq_some_iff] at h
  obtain ⟨x, -, rfl⟩ := h
  exact x.keeps vs

variable {d : Desk}

theorem holds_gather (hd : d.Coherent) (visits : List (Visit uid)) (is : List Nat)
    (hn : ((gather d visits).run is).2.desk.store.given < 2 ^ 63) :
    ((gather d visits).run is).2.desk.Holds uid
      ((d.store.shelf.find? uid).toList ++ Turn.stored ((gather d visits).run is).1) :=
  holds_run is (.of_coherent hd uid) hn fun _ _ _ _ hc => keeps_gather visits hc _

theorem find?_of_holds (w : Crowd) (uid : String) (is : List Nat)
    (h : ∀ v ∈ Turn.stored (w.run is).1, v.uid = uid) :
    (w.run is).2.desk.store.shelf.find? uid =
      ((w.desk.store.shelf.find? uid).toList ++ Turn.stored (w.run is).1).getLast? := by
  rw [shelf_run, Shelf.find?_foldl_insert, Order.latest_eq_getLast? h, List.getLast?_append]
  cases w.desk.store.shelf.find? uid <;> rfl

theorem holds_last (hd : d.Coherent) (visits : List (Visit uid)) {v : Order}
    {before : List Order} (hr : (gather d visits).run is = (ts ++ [⟨i, .cached v⟩], w))
    (hts : Turn.stored ts = before ++ [v]) (hn : w.desk.store.given < 2 ^ 63) :
    w.desk.store.shelf.find? uid = some v ∧ w.desk.Holds uid [v] := by
  have hlast : Turn.stored (ts ++ [⟨i, .cached v⟩]) = before ++ [v] := by
    rw [Turn.stored_append, hts, Turn.stored_singleton]
    exact List.append_nil _
  have hholds := holds_gather hd visits is (by rwa [hr])
  rw [hr, hlast] at hholds
  have huid (u : Order) (hu : u ∈ before ++ [v]) : u.uid = uid :=
    hholds.uid_eq u (List.mem_append_right _ hu)
  have hstored := find?_of_holds (gather d visits) uid is (by rwa [hr, hlast])
  have hcached := (gather d visits).cache_run is
  rw [hr, hlast, ← List.append_assoc, List.getLast?_concat] at hstored
  rw [hr, Turn.cached_append, List.foldl_append, Turn.cached_singleton] at hcached
  have hfound : w.desk.cache.shelf.find? uid = some v := by
    rw [hcached]
    exact (Shelf.find?_insert ..).trans (if_pos (huid v (by simp)))
  exact ⟨hstored, hholds.of_found hstored hfound⟩

theorem excerpt_of_settled (hd : d.Coherent) (visits : List (Visit uid))
    (hr : (gather d visits).run is = (ts, w)) (hn : w.desk.store.given < 2 ^ 63) (h : Settled ts)
    {c : Order} (hc : w.desk.cache.shelf.find? uid = some c) :
    ∃ o, w.desk.store.shelf.find? uid = some o ∧ c.Excerpt o := by
  rcases h with hnone | ⟨before, i, v, mid, late, rfl, hmid, hlate, hnew⟩
  -- the one version is the one found at the start
  · have hholds := holds_gather hd visits is (by rwa [hr])
    have hfind := find?_of_holds (gather d visits) uid is (by simp [hr, hnone])
    rw [hr, hnone, List.append_nil] at hholds hfind
    have hpieced := hholds.cached c hc
    cases ho : d.store.shelf.find? uid with
    | none =>
      rw [ho] at hpieced
      obtain ⟨u, hu, -⟩ := hpieced.header
      cases hu
    | some o =>
      rw [ho] at hpieced
      refine ⟨o, hfind.trans ?_, Order.pieced_singleton_iff.1 hpieced⟩
      change (d.store.shelf.find? uid).toList.getLast? = _
      rw [ho]
      rfl
  -- the run is cut where the last writer has cached his version
  · obtain ⟨js, ks, u, hjs, hks⟩ := exists_of_run_append _ _ hr
    have hle := u.given_le_run ks
    rw [hks] at hle
    have hlast : Turn.stored (before ++ ⟨i, .stored v⟩ :: mid) = Turn.stored before ++ [v] := by
      rw [Turn.stored_append]
      exact congrArg (Turn.stored before ++ v :: ·) hmid
    obtain ⟨hstored, hone⟩ := holds_last hd visits hjs hlast (hle.trans_lt hn)
    have hrun := holds_run ks hone (by rwa [hks]) fun t ht hx b hb => by
      rw [hks] at ht
      have hwaits := (gather d visits).clients_run js (j := t.client) (by
        rw [hjs]
        exact hnew t ht hx)
      rw [hjs] at hwaits
      exact keeps_gather visits (hwaits.symm.trans hb) _
    have hshelf := u.shelf_run ks
    rw [hks, hlate] at hrun hshelf
    refine ⟨v, ?_, Order.pieced_singleton_iff.1 (hrun.cached c hc)⟩
    rw [hshelf]
    exact hstored

/-- However clients of one order took turns at a coherent desk, the last of its versions is found in
the store, and what is found in the cache is pieced together from its versions. It is an excerpt of
the last one if the turns have settled. -/
theorem cached_pieced {d : Desk} (hd : d.Coherent) {uid : String} (visits : List (Visit uid))
    (is : List Nat) {ts : List Turn} {w : Crowd} (hr : (gather d visits).run is = (ts, w))
    (hn : w.desk.store.given < 2 ^ 63) :
    w.desk.store.shelf.find? uid =
        ((d.store.shelf.find? uid).toList ++ Turn.stored ts).getLast? ∧
      ∀ c, w.desk.cache.shelf.find? uid = some c →
        c.Pieced ((d.store.shelf.find? uid).toList ++ Turn.stored ts) ∧
          (Settled ts → ∃ o, w.desk.store.shelf.find? uid = some o ∧ c.Excerpt o) := by
  have hholds := holds_gather hd visits is (by rwa [hr])
  rw [hr] at hholds
  refine ⟨?_, fun c hc => ⟨hholds.cached c hc, fun hs => excerpt_of_settled hd visits hr hn hs hc⟩⟩
  have hfind := find?_of_holds (gather d visits) uid is fun v hv => by
    rw [hr] at hv
    exact hholds.uid_eq v (List.mem_append_right _ hv)
  rwa [hr] at hfind

theorem coherent_cleared (o : Order) (h : o.items.length < 2 ^ 63) :
    Desk.Coherent { ((Desk.persist o).run .empty).2 with cache := .empty } := by
  have hevolves := (Desk.evolves_persist .empty o).trans (Desk.evolves_clear _)
  refine hevolves.2 ?_ Desk.coherent_empty
  change 0 + o.items.length < 2 ^ 63
  omega

theorem cached_pieced_sample :
    let first := Order.sample "b563feb7b2b84b6test" 2
    let second := { first with trackNumber := "WBILMSECONDTRACK" }
    let d : Desk := { ((Desk.persist first).run .empty).2 with cache := .empty }
    let r := (gather d [.readOrder, .persist second rfl, .readItems 4 10]).run
      [0, 0, 0, 0, 1, 0, 1, 1, 2, 2, 2, 2, 2, 2]
    r.2.clients.all Client.succeeded = true ∧
      ∃ c o, r.2.desk.cache.shelf.find? "b563feb7b2b84b6test" = some c ∧
        r.2.desk.store.shelf.find? "b563feb7b2b84b6test" = some o ∧ c.Excerpt o ∧
        o.trackNumber = "WBILMSECONDTRACK" := by
  intro first second d r
  have hd : d.Coherent := coherent_cleared first (by decide)
  obtain ⟨-, hall⟩ := cached_pieced hd [.readOrder, .persist second rfl, .readItems 4 10] _
    (Prod.mk.eta (p := r)).symm (by decide +kernel)
  have hsettled : Settled r.1 := by
    refine .inr ⟨[⟨0, .none⟩, ⟨0, .none⟩, ⟨0, .none⟩, ⟨0, .none⟩], 1, Store.stored 2 second,
      [⟨0, .cached first.withoutItems⟩, ⟨1, .none⟩],
      List.replicate 5 ⟨2, .none⟩ ++ [⟨2, .cached second.withoutItems⟩], ?_⟩
    decide +kernel
  have hcached : r.2.desk.cache.shelf.find? "b563feb7b2b84b6test" = some second.withoutItems := by
    decide +kernel
  have hstored : r.2.desk.store.shelf.find? "b563feb7b2b84b6test" = some (Store.stored 2 second) := by
    decide +kernel
  obtain ⟨-, hex⟩ := hall _ hcached
  obtain ⟨o, ho, hexcerpt⟩ := hex hsettled
  obtain rfl := Option.some.inj (hstored.symm.trans ho)
  exact ⟨by decide +kernel, _, _, hcached, hstored, hexcerpt, rfl⟩

/-- A reader who asked the store before a write may leave the old header in the cache, or the old
items under the new header. -/
theorem overlap_leaves_replaced :
    let first := Order.sample "b563feb7b2b84b6test" 2
    let second := { first with trackNumber := "WBILMSECONDTRACK" }
    let d : Desk := { ((Desk.persist first).run .empty).2 with cache := .empty }
    let stale := ((gather d [.readOrder, .persist second rfl]).run [0, 0, 0, 0, 1, 1, 1, 0]).2
    let torn := ((gather d [.readItems 0 10, .persist second rfl]).run [0, 0, 0, 0, 1, 1, 1, 0, 0]).2
    d.Coherent ∧ stale.clients.all Client.succeeded = true ∧
      torn.clients.all Client.succeeded = true ∧
      (∃ c o, stale.desk.cache.shelf.find? "b563feb7b2b84b6test" = some c ∧
        stale.desk.store.shelf.find? "b563feb7b2b84b6test" = some o ∧
        c.withoutItems ≠ o.withoutItems) ∧
      ∃ c o, torn.desk.cache.shelf.find? "b563feb7b2b84b6test" = some c ∧
        torn.desk.store.shelf.find? "b563feb7b2b84b6test" = some o ∧
        c.withoutItems = o.withoutItems ∧ ¬ c.items <:+: o.items := by
  intro first second d stale torn
  refine ⟨coherent_cleared first (by decide), by decide +kernel, by decide +kernel,
    ⟨first.withoutItems, Store.stored 2 second, ?_⟩,
    { second with items := (Store.stored 0 first).items }, Store.stored 2 second, ?_⟩
  · decide +kernel
  · decide +kernel

end Crowd

end OrderDesk
