import OrderDesk.Proofs.Desk.Lookups
import OrderDesk.Proofs.Service.Deeds

/-!
Lookups of the service. Whatever is done in what order, the store is asked for an order only if it is
not cached, and finds it once at most until the cache is cleared.
-/

namespace OrderDesk

open Desk (Frugal Hit Miss)

/-! ## Requests -/

namespace Api

variable {α : Type} {d : Desk} {uid : String}

def program? (q : Request) : Option (Access Response) :=
  if q.method = "GET" ∨ q.method = "HEAD" then
    match Route.ofPath? q.target.path with
    | some (.order id) => some (getOrder id)
    | some (.items id) => some (getItems id q.target.query)
    | _ => none
  else none

theorem desk_respond (exposure : Exposure) (q : Request) (d : Desk) :
    (respond exposure q d).2 =
      match program? q with
      | some p => (p.run d).2
      | none => d := by
  have hget (route : Route) (h : Route.ofPath? q.target.path = some route)
      (hm : q.method = "GET" ∨ q.method = "HEAD") :
      (get exposure d q.target.query route).2 =
        match program? q with
        | some p => (p.run d).2
        | none => d := by
    rw [program?, if_pos hm, h]
    cases route <;> rfl
  unfold respond
  cases hroute : Route.ofPath? q.target.path with
  | none =>
    have hnone : program? q = none := by simp only [program?, hroute, ite_self]
    rw [hnone]
  | some route =>
    dsimp only
    split
    · rename_i hm
      exact hget route hroute (.inl hm)
    · split
      · rename_i hm
        exact hget route hroute (.inr hm)
      · rename_i hget hhead
        rw [program?, if_neg (not_or.2 ⟨hget, hhead⟩)]

theorem frugal_fail (f : Failure) (d : Desk) :
    Frugal d ((fail f).lookups d) ((fail f).run d).2 := .of_cache rfl

theorem frugal_answer (write : α → String) {operation : Access (Except OrderError α)}
    (h : ∀ d, Frugal d (operation.lookups d) (operation.run d).2) (d : Desk) :
    Frugal d ((answer write operation).lookups d) ((answer write operation).run d).2 := by
  simp only [answer, Access.run_bind, Access.lookups_bind]
  refine (h d).trans ?_
  split
  · exact .refl _
  · exact frugal_fail ..

theorem frugal_getOrder (id : List Char) (d : Desk) :
    Frugal d ((getOrder id).lookups d) ((getOrder id).run d).2 := by
  unfold getOrder
  split
  · exact .refl d
  · split
    · exact frugal_fail ..
    · exact frugal_answer _ (fun d => Desk.frugal_readOrder d _) d

theorem frugal_getItems (id query : List Char) (d : Desk) :
    Frugal d ((getItems id query).lookups d) ((getItems id query).run d).2 := by
  unfold getItems
  split
  · exact .refl d
  · split
    · exact .refl d
    · split
      · exact frugal_fail ..
      · split
        · exact frugal_fail ..
        · exact frugal_answer _ (fun d => Desk.frugal_readItems d _ _ _) d

theorem frugal_of_program? {q : Request} {p : Access Response} (h : program? q = some p) (d : Desk) :
    Frugal d (p.lookups d) (p.run d).2 := by
  unfold program? at h
  split at h
  · split at h
    · obtain rfl := Option.some.inj h
      exact frugal_getOrder ..
    · obtain rfl := Option.some.inj h
      exact frugal_getItems ..
    · cases h
  · cases h

end Api

/-! ## Commands -/

/-- Whether a command drops what is cached, or asks the store for an order past the cache. -/
def Command.IgnoresCache : Command → Prop
  | .clearCache | .storedOrder _ => True
  | _ => False

namespace Service

def lookups (s : Service) : Command → List Lookup
  | .storedOrder uid => (Access.perform (.storedOrder uid)).lookups s.desk
  | .warmUp limit => (Desk.warmUp limit).lookups s.desk
  | .readOrder uid => (Desk.readOrder uid).lookups s.desk
  | .readItems uid last limit => (Desk.readItems uid last limit).lookups s.desk
  | .persist o => (Desk.persist o).lookups s.desk
  | .request method uri =>
    match (Api.Request.ofStrings? method uri).bind Api.program? with
    | some p => p.lookups s.desk
    | none => []
  | _ => []

def lookupsAll (s : Service) : List Command → List Lookup
  | [] => []
  | c :: cs => s.lookups c ++ (s.perform c).2.lookupsAll cs

def loaded (s : Service) : Command → List Order
  | .warmUp limit =>
    match (s.desk.store.all limit).1 with
    | .ok os => os
    | .error _ => []
  | _ => []

theorem desk_access {α : Type} (s : Service) (p : Access (Except OrderError α)) (write : α → Answer) :
    (s.access p write).2.desk = (p.run s.desk).2 := by rw [access_eq]; rfl

theorem desk_request (s : Service) (method uri : String) :
    (s.perform (.request method uri)).2.desk =
      match (Api.Request.ofStrings? method uri).bind Api.program? with
      | some p => (p.run s.desk).2
      | none => s.desk := by
  simp only [perform]
  cases Api.Request.ofStrings? method uri with
  | some q => exact Api.desk_respond _ q s.desk
  | none => rfl

theorem orderCalls_perform (s : Service) (c : Command) :
    (s.perform c).2.desk.store.orderCalls =
      s.desk.store.orderCalls + (s.lookups c).length := by
  cases c with
  | storedOrder | warmUp | readOrder | readItems | persist =>
    simp only [perform, desk_access]
    exact Access.orderCalls_run ..
  | upsert o =>
    simp only [perform, desk_access]
    exact (Access.perform (.storeOrder o)).orderCalls_run s.desk
  | storedItems | storedOrders | cachedOrder | cachedItems =>
    simp only [perform, desk_access]
    rfl
  | request method uri =>
    rw [desk_request, lookups]
    cases (Api.Request.ofStrings? method uri).bind Api.program? with
    | some p => exact p.orderCalls_run s.desk
    | none => rfl
  | process m closeAfter => exact (s.persists_process m closeAfter).frugal.2.1
  | run forMillis cancelled => exact (s.persists_run forMillis cancelled).frugal.2.1
  | poll timeout => exact (s.pipeline.quiet_poll timeout).persists.frugal.2.1
  | inspect | advanceClock | commit =>
    unfold perform
    dsimp only
    split <;> rfl
  | _ => rfl

theorem frugal_perform (s : Service) {c : Command} (hc : ¬ c.IgnoresCache) :
    Frugal s.desk (s.lookups c) (s.perform c).2.desk := by
  cases c with
  | storedOrder | clearCache => exact absurd trivial hc
  | warmUp limit =>
    simp only [perform, desk_access]
    exact (Desk.frugal_warmUp s.desk limit).1
  | readOrder uid =>
    simp only [perform, desk_access]
    exact Desk.frugal_readOrder s.desk uid
  | readItems uid last limit =>
    simp only [perform, desk_access]
    exact Desk.frugal_readItems s.desk uid last limit
  | persist o =>
    obtain ⟨hl, hfrugal, -⟩ := Desk.persist_spares s.desk o
    simp only [perform, desk_access, lookups, hl]
    exact hfrugal
  | upsert | storedItems | storedOrders | cachedOrder | cachedItems =>
    simp only [perform, desk_access]
    exact .of_cache rfl
  | cacheOrder o => exact Frugal.of_kept fun _ hc => (Desk.caches_set s.desk o).2 (.inr hc)
  | request method uri =>
    rw [desk_request, lookups]
    cases h : (Api.Request.ofStrings? method uri).bind Api.program? with
    | some p =>
      obtain ⟨q, -, hq⟩ := Option.bind_eq_some_iff.1 h
      exact Api.frugal_of_program? hq s.desk
    | none => exact .refl s.desk
  | process m closeAfter => exact (s.persists_process m closeAfter).frugal.1
  | run forMillis cancelled => exact (s.persists_run forMillis cancelled).frugal.1
  | poll timeout => exact (s.pipeline.quiet_poll timeout).persists.frugal.1
  | inspect | advanceClock | commit =>
    unfold perform
    dsimp only
    split <;> exact .refl s.desk
  | _ => exact .of_cache rfl

theorem frugal_performAll (s : Service) {cs : List Command} (h : ∀ c ∈ cs, ¬ c.IgnoresCache) :
    Frugal s.desk (s.lookupsAll cs) (s.performAll cs).2.desk := by
  induction cs generalizing s with
  | nil => exact .refl s.desk
  | cons c cs ih =>
    have hfirst := s.frugal_perform (h c List.mem_cons_self)
    exact hfirst.trans (ih (s.perform c).2 fun b hb => h b (List.mem_cons_of_mem c hb))

theorem caches_of_mem {s : Service} {c : Command} {o : Order} (h : o ∈ s.written c ++ s.loaded c) :
    (s.perform c).2.desk.Caches o.uid := by
  rcases List.mem_append.1 h with h | h
  · cases c with
    | persist p =>
      obtain ⟨-, -, hcached⟩ := Desk.persist_spares s.desk p
      rw [written_persist] at h
      simp only [perform, desk_access]
      exact hcached o h
    | process m closeAfter => exact (s.persists_process m closeAfter).frugal.2.2 o h
    | run forMillis cancelled => exact (s.persists_run forMillis cancelled).frugal.2.2 o h
    | _ => exact absurd h List.not_mem_nil
  · cases c with
    | warmUp limit =>
      obtain ⟨-, hcached⟩ := Desk.frugal_warmUp s.desk limit
      simp only [perform, desk_access]
      cases hall : (s.desk.store.all limit).1 with
      | ok os => exact hcached os hall o (by simpa only [loaded, hall] using h)
      | error f => simp only [loaded, hall, List.not_mem_nil] at h
    | _ => exact absurd h List.not_mem_nil

theorem orderCalls_performAll (s : Service) (cs : List Command) :
    (s.performAll cs).2.desk.store.orderCalls =
      s.desk.store.orderCalls + (s.lookupsAll cs).length := by
  induction cs generalizing s with
  | nil => rfl
  | cons c cs ih =>
    have hlength : (s.lookupsAll (c :: cs)).length =
        (s.lookups c).length + ((s.perform c).2.lookupsAll cs).length := List.length_append
    rw [hlength, ← Nat.add_assoc, ← s.orderCalls_perform c]
    exact ih (s.perform c).2

/-! ## The cache aside the store -/

/-- How reads are answered in a state, and which lookups are made from then on. Read means by a
client: it is counted. -/
structure CacheAside (s : Service) : Prop where
  /-- An order that is cached is read without the store, and any other with one call. -/
  orders : ∀ uid,
    (s.desk.Caches uid → Hit s.desk (s.perform (.readOrder uid)).2.desk) ∧
      (¬ s.desk.Caches uid → Miss s.desk 1 0 (s.perform (.readOrder uid)).2.desk)
  /-- So is a page; one that the store shows may be cached under an order that is looked up first. -/
  items : ∀ uid last limit,
    (s.desk.cachedPage uid last limit ≠ [] →
        Hit s.desk (s.perform (.readItems uid last limit)).2.desk) ∧
      (s.desk.cachedPage uid last limit = [] → ∃ refreshes ≤ 1,
        Miss s.desk refreshes 1 (s.perform (.readItems uid last limit)).2.desk)
  /-- What cannot be read leaves the cache as it is. -/
  failedOrder : ∀ uid e, (s.perform (.readOrder uid)).1 = .failed e →
    (s.perform (.readOrder uid)).2.desk.cache = s.desk.cache
  failedItems : ∀ uid last limit e, (s.perform (.readItems uid last limit)).1 = .failed e →
    (s.perform (.readItems uid last limit)).2.desk.cache = s.desk.cache
  /-- Items cannot be read if the page is not cached and the store does not show it. -/
  failedPage : ∀ uid last limit e, (s.perform (.readItems uid last limit)).1 = .failed e ↔
    s.desk.cachedPage uid last limit = [] ∧ (s.desk.store.items uid last limit).1 = .error e
  /-- All calls of the store for one order are lookups. -/
  calls : ∀ cs, (s.performAll cs).2.desk.store.orderCalls =
    s.desk.store.orderCalls + (s.lookupsAll cs).length
  /-- Until the cache is cleared an order is found once at most. -/
  once : ∀ cs, (∀ c ∈ cs, ¬ c.IgnoresCache) → ∀ uid, (s.lookupsAll cs).count ⟨uid, true⟩ ≤ 1
  /-- Until then an order is not looked up that is written or loaded. -/
  spared : ∀ c, ∀ o ∈ s.written c ++ s.loaded c, ∀ cs, (∀ c ∈ cs, ¬ c.IgnoresCache) →
    ∀ l ∈ (s.perform c).2.lookupsAll cs, l.uid ≠ o.uid

theorem access_eq_failed_iff {α : Type} {s : Service} {p : Access (Except OrderError α)}
    {e : OrderError} (write : α → Answer) (hw : ∀ a, write a ≠ .failed e) :
    (s.access p write).1 = .failed e ↔ (p.run s.desk).1 = .error e := by
  rw [access_eq]
  cases (p.run s.desk).1 with
  | ok a => exact iff_of_false (hw a) nofun
  | error f =>
    exact ⟨fun h => congrArg _ (Answer.failed.inj h), fun h => congrArg _ (Except.error.inj h)⟩

theorem readItems_failed_iff (s : Service) (uid : String) (last limit : Int64) (e : OrderError) :
    (s.perform (.readItems uid last limit)).1 = .failed e ↔
      s.desk.cachedPage uid last limit = [] ∧ (s.desk.store.items uid last limit).1 = .error e := by
  have hfailed := access_eq_failed_iff (s := s) (p := Desk.readItems uid last limit) (e := e) .items
    fun _ h => by cases h
  exact hfailed.trans Desk.readItems_eq_error_iff

theorem cacheAside (s : Service) : s.CacheAside := by
  have hread (uid : String) : (s.perform (.readOrder uid)).2.desk =
      ((Desk.readOrder uid).run s.desk).2 := s.desk_access _ _
  have hpage (uid : String) (last limit : Int64) : (s.perform (.readItems uid last limit)).2.desk =
      ((Desk.readItems uid last limit).run s.desk).2 := s.desk_access _ _
  constructor
  case orders =>
    intro uid
    rw [hread]
    exact ⟨Desk.hit_readOrder, Desk.miss_readOrder⟩
  case items =>
    intro uid last limit
    rw [hpage]
    exact ⟨Desk.hit_readItems, fun h =>
      ⟨s.desk.refreshes uid, s.desk.refreshes_le_one uid, Desk.miss_readItems h⟩⟩
  case failedOrder =>
    intro uid e h
    rw [hread]
    exact Desk.cache_readOrder_of_error ((access_eq_failed_iff .order fun _ h => by cases h).1 h)
  case failedItems =>
    intro uid last limit e h
    obtain ⟨-, herror⟩ := (s.readItems_failed_iff uid last limit e).1 h
    rw [hpage]
    exact Desk.cache_readItems_of_error herror
  case failedPage => exact s.readItems_failed_iff
  case calls => exact s.orderCalls_performAll
  case once => exact fun cs hcs uid => (s.frugal_performAll hcs).once uid
  case spared =>
    intro c o ho cs hcs l hl
    exact ((s.perform c).2.frugal_performAll hcs).spared o.uid (caches_of_mem ho) l hl

end Service

end OrderDesk
