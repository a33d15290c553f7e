import OrderDesk.Proofs.Desk.Deeds
import OrderDesk.Proofs.Desk.Hits

/-!
Lookups, the calls in which the store is asked for one order. A read that the cache answers makes none,
what was found by one is cached, and what is cached is not looked up. So the store is asked in vain or
once for each order.
-/

namespace OrderDesk

open Access (perform)

structure Lookup where
  uid : String
  found : Bool
deriving DecidableEq, Repr

variable {α β : Type}

def Step.lookup? : Step α → α → Option Lookup
  | .storedOrder uid, .ok _ => some ⟨uid, true⟩
  | .storedOrder uid, .error _ => some ⟨uid, false⟩
  | _, _ => none

def Access.lookups : Access α → Desk → List Lookup
  | .done _, _ => []
  | .step s next, d => (s.lookup? (s.run d).1).toList ++ (next (s.run d).1).lookups (s.run d).2

namespace Access

@[simp] theorem lookups_pure (a : α) (d : Desk) : (pure a : Access α).lookups d = [] := rfl

@[simp] theorem lookups_perform (s : Step α) (d : Desk) :
    (perform s).lookups d = (s.lookup? (s.run d).1).toList := List.append_nil _

@[simp] theorem lookups_bind (p : Access α) (f : α → Access β) (d : Desk) :
    (p >>= f).lookups d = p.lookups d ++ (f (p.run d).1).lookups (p.run d).2 := by
  change (p.bind f).lookups d = _
  induction p generalizing d with
  | done a => rfl
  | step s next ih =>
    have hnext := ih (s.run d).1 (s.run d).2
    have hrun : ((step s next).run d) = (next (s.run d).1).run (s.run d).2 := rfl
    rw [hrun]
    change _ ++ ((next (s.run d).1).bind f).lookups (s.run d).2 = _
    rw [hnext, ← List.append_assoc]
    rfl

end Access

theorem Step.orderCalls_run (s : Step α) (d : Desk) :
    (s.run d).2.store.orderCalls =
      d.store.orderCalls + (s.lookup? (s.run d).1).toList.length := by
  cases s with
  | storedOrder uid =>
    have hcalls : ((Step.storedOrder uid).run d).2.store.orderCalls = d.store.orderCalls + 1 := rfl
    rw [hcalls]
    cases ((Step.storedOrder uid).run d).1 <;> rfl
  | storeOrder o => cases h : d.store.upsertFailures <;> simp [run, Store.upsert, h, lookup?]
  | _ => rfl

theorem Access.orderCalls_run (p : Access α) (d : Desk) :
    (p.run d).2.store.orderCalls = d.store.orderCalls + (p.lookups d).length := by
  induction p generalizing d with
  | done a => rfl
  | step s next ih =>
    have hlength : ((step s next).lookups d).length =
        (s.lookup? (s.run d).1).toList.length +
          ((next (s.run d).1).lookups (s.run d).2).length := List.length_append
    rw [run_step, ih, s.orderCalls_run, hlength, Nat.add_assoc]

namespace Desk

variable {d e f : Desk} {o : Order} {uid : String} {ls ms : List Lookup}

/-! ## Frugality -/

/-- From one desk to another with these lookups: what is cached stays so and is not looked up, and what
was found is cached. -/
structure Frugal (d : Desk) (ls : List Lookup) (e : Desk) : Prop where
  kept : ∀ uid, d.Caches uid → e.Caches uid
  spared : ∀ uid, d.Caches uid → ∀ l ∈ ls, l.uid ≠ uid
  cached : ∀ uid, ⟨uid, true⟩ ∈ ls → e.Caches uid
  once : ∀ uid, ls.count ⟨uid, true⟩ ≤ 1

theorem Frugal.trans (h : Frugal d ls e) (hs : Frugal e ms f) : Frugal d (ls ++ ms) f := by
  constructor
  case kept => exact fun uid hc => hs.kept uid (h.kept uid hc)
  case spared =>
    intro uid hc l hl
    rcases List.mem_append.1 hl with hl | hl
    · exact h.spared uid hc l hl
    · exact hs.spared uid (h.kept uid hc) l hl
  case cached =>
    intro uid hl
    rcases List.mem_append.1 hl with hl | hl
    · exact hs.kept uid (h.cached uid hl)
    · exact hs.cached uid hl
  case once =>
    intro uid
    rw [List.count_append]
    by_cases hl : ⟨uid, true⟩ ∈ ls
    · -- found once, the order is cached and not looked up again
      have hnone : ms.count ⟨uid, true⟩ = 0 :=
        List.count_eq_zero.2 fun hm => hs.spared uid (h.cached uid hl) _ hm rfl
      rw [hnone]
      exact h.once uid
    · rw [List.count_eq_zero.2 hl, Nat.zero_add]
      exact hs.once uid

theorem Frugal.of_kept (h : ∀ uid, d.Caches uid → e.Caches uid) : Frugal d [] e where
  kept := h
  spared _ _ _ hl := absurd hl List.not_mem_nil
  cached _ hl := absurd hl List.not_mem_nil
  once _ := Nat.zero_le _

theorem Frugal.of_cache (h : e.cache = d.cache) : Frugal d [] e :=
  .of_kept fun _ => caches_of_eq h

theorem Frugal.refl (d : Desk) : Frugal d [] d := .of_cache rfl

def asked (d : Desk) (uid : String) (found : Bool) : List Lookup :=
  if (d.cache.shelf.find? uid).isSome = true then [] else [⟨uid, found⟩]

theorem asked_of_caches (h : d.Caches uid) (found : Bool) : d.asked uid found = [] := if_pos h

theorem asked_of_not_caches (h : ¬ d.Caches uid) (found : Bool) :
    d.asked uid found = [⟨uid, found⟩] := if_neg h

theorem Frugal.of_asked {found : Bool} (hk : ∀ v, d.Caches v → e.Caches v)
    (hf : found = true → e.Caches uid) : Frugal d (d.asked uid found) e := by
  by_cases hc : d.Caches uid
  · rw [asked_of_caches hc]
    exact .of_kept hk
  rw [asked_of_not_caches hc]
  constructor
  case kept => exact hk
  case spared =>
    intro v hv l hl he
    obtain rfl := List.mem_singleton.1 hl
    have huid : uid = v := he
    exact hc (huid ▸ hv)
  case cached =>
    intro v hl
    have hsame : (⟨v, true⟩ : Lookup) = ⟨uid, found⟩ := List.mem_singleton.1 hl
    obtain ⟨rfl, rfl⟩ := Lookup.mk.inj hsame
    exact hf rfl
  case once => exact fun v => List.count_le_length

/-! ## Programs -/

theorem cache_order_cases (d : Desk) (uid : String) :
    (d.Caches uid ∧ ∃ o, d.cache.order uid = .ok o ∧ o.uid = uid) ∨
      (¬ d.Caches uid ∧ ∃ e, d.cache.order uid = .error e) := by
  by_cases hc : d.Caches uid
  · obtain ⟨c, hfind⟩ := Option.isSome_iff_exists.1 hc
    have hcached : d.cache.order uid = .ok c.withoutItems := by simp only [Cache.order, hfind]
    exact .inl ⟨hc, _, hcached, Shelf.uid_of_find? (o := c) hfind⟩
  · exact .inr ⟨hc, cache_order_eq_error hc⟩

theorem lookups_readOrder (d : Desk) (uid : String) :
    (readOrder uid).lookups d = d.asked uid ((readOrder uid).run d).1.isOk ∧
      (((readOrder uid).run d).2.cache = d.cache ∧
          (((readOrder uid).run d).1.isOk = true → d.Caches uid) ∨
        ∃ o, o.uid = uid ∧ ((readOrder uid).run d).2.cache = d.cache.set o) := by
  have hcall (n : Event) : ((d.note n).count .miss).store.order uid = d.store.order uid := rfl
  simp only [readOrder, info, Access.run_bind, Access.run_perform, Step.run, cache_note,
    Access.lookups_bind, Access.lookups_perform]
  rcases d.cache_order_cases uid with ⟨hc, o, ho, -⟩ | ⟨hc, e, he⟩
  · rw [asked_of_caches hc]
    simp only [ho, Access.lookups_bind, Access.lookups_perform]
    exact ⟨rfl, .inl ⟨rfl, fun _ => hc⟩⟩
  · rw [asked_of_not_caches hc]
    simp only [he, Access.run_bind, Access.run_perform, Step.run, Access.lookups_bind,
      Access.lookups_perform, hcall]
    cases ho : (d.store.order uid).1 with
    | error f => exact ⟨rfl, .inl ⟨rfl, fun h => by cases h⟩⟩
    | ok o => exact ⟨rfl, .inr ⟨o, uid_of_store_order ho, rfl⟩⟩

theorem caches_of_set (h : e.cache = d.cache.set o) :
    e.Caches uid ↔ o.uid = uid ∨ d.Caches uid := by
  rw [Caches, h]
  exact caches_set d o

theorem kept_of_set (h : e.cache = d.cache.set o) (hc : d.Caches uid) : e.Caches uid :=
  (caches_of_set h).2 (.inr hc)

theorem frugal_readOrder (d : Desk) (uid : String) :
    Frugal d ((readOrder uid).lookups d) ((readOrder uid).run d).2 := by
  obtain ⟨hl, ⟨hcache, hok⟩ | ⟨o, huid, hcache⟩⟩ := d.lookups_readOrder uid
  · rw [hl]
    exact .of_asked (fun _ => caches_of_eq hcache) fun h => caches_of_eq hcache (hok h)
  · rw [hl]
    exact .of_asked (fun _ => kept_of_set hcache) fun _ => (caches_of_set hcache).2 (.inl huid)

theorem lookups_headerForPage (d : Desk) (uid : String) :
    (headerForPage uid).lookups d = d.asked uid ((headerForPage uid).run d).1.isOk := by
  simp only [headerForPage, Access.run_bind, Access.run_perform, Step.run, Access.lookups_bind,
    Access.lookups_perform]
  rcases d.cache_order_cases uid with ⟨hc, o, ho, -⟩ | ⟨hc, e, he⟩
  · rw [asked_of_caches hc, ho]
    rfl
  · rw [asked_of_not_caches hc, he]
    simp only [Access.run_perform, Step.run, Access.lookups_perform]
    cases (d.store.order uid).1 <;> rfl

theorem uid_of_headerForPage (h : ((headerForPage uid).run d).1 = .ok o) : o.uid = uid :=
  by_contra fun hne => (headerForPage_untouched d (Ne.symm hne)).2 o h rfl

theorem frugal_cachePage (d : Desk) (uid : String) (page : List Item) :
    Frugal d ((cachePage uid page).lookups d) ((cachePage uid page).run d).2 := by
  obtain ⟨hcache, -⟩ := headerForPage_same d uid
  simp only [cachePage, Access.run_bind, Access.lookups_bind, d.lookups_headerForPage uid]
  cases hheader : ((headerForPage uid).run d).1 with
  | ok o =>
    have huid : o.uid = uid := uid_of_headerForPage hheader
    have hset : { ((headerForPage uid).run d).2 with
        cache := ((headerForPage uid).run d).2.cache.set { o with items := page } }.cache =
          d.cache.set { o with items := page } := by rw [hcache]
    change Frugal d (d.asked uid true ++ []) _
    rw [List.append_nil]
    exact .of_asked (fun _ => kept_of_set hset) fun _ => (caches_of_set hset).2 (.inl huid)
  | error f =>
    change Frugal d (d.asked uid false ++ []) _
    rw [List.append_nil]
    exact .of_asked (fun _ => caches_of_eq hcache) fun h => by cases h

theorem frugal_readItems (d : Desk) (uid : String) (last limit : Int64) :
    Frugal d ((readItems uid last limit).lookups d) ((readItems uid last limit).run d).2 := by
  simp only [readItems, fetchItems, info, Access.run_bind, Access.run_perform, Step.run, cache_note,
    Access.lookups_bind, Access.lookups_perform]
  split
  · exact .of_cache rfl
  · simp only [Access.run_bind, Access.run_perform, Step.run, Access.lookups_bind,
      Access.lookups_perform]
    split
    · simp only [Access.run_bind, Access.run_pure, Access.lookups_bind, Access.lookups_pure,
        List.append_nil]
      have hread : Frugal d [] { (d.note ⟨.info, "Request to get items by order id"⟩).count .miss with
          store := (d.store.items uid last limit).2 } := .of_cache rfl
      exact hread.trans (frugal_cachePage _ uid _)
    · exact .of_cache rfl

theorem caches_cacheAll (d : Desk) (os : List Order) :
    ((cacheAll os).run d).2.Caches uid ↔ (∃ o ∈ os, o.uid = uid) ∨ d.Caches uid := by
  induction os generalizing d with
  | nil => simp [cacheAll]
  | cons o os ih =>
    simp only [cacheAll, Access.run_bind, Access.run_perform, Step.run]
    rw [ih, caches_set, ← or_assoc, List.exists_mem_cons_iff]
    exact or_congr_left or_comm

theorem lookups_cacheAll (d : Desk) (os : List Order) : (cacheAll os).lookups d = [] := by
  induction os generalizing d with
  | nil => rfl
  | cons o os ih =>
    simp only [cacheAll, Access.lookups_bind, Access.lookups_perform, ih]
    rfl

theorem frugal_warmUp (d : Desk) (limit : Int64) :
    Frugal d ((warmUp limit).lookups d) ((warmUp limit).run d).2 ∧
      ∀ os, (d.store.all limit).1 = .ok os →
        ∀ o ∈ os, ((warmUp limit).run d).2.Caches o.uid := by
  simp only [warmUp, Access.run_bind, Access.run_perform, Step.run, Access.lookups_bind,
    Access.lookups_perform]
  cases hall : (d.store.all limit).1 with
  | ok os =>
    have hload (c : Desk) (hc : c.cache = d.cache) :
        Frugal d ((cacheAll os).lookups c) ((cacheAll os).run c).2 ∧
          ∀ o ∈ os, ((cacheAll os).run c).2.Caches o.uid := by
      rw [lookups_cacheAll]
      refine ⟨.of_kept fun uid h => ?_, fun o ho => ?_⟩
      · exact (caches_cacheAll c os).2 (.inr (caches_of_eq hc h))
      · exact (caches_cacheAll c os).2 (.inl ⟨o, ho, rfl⟩)
    simp only [Access.run_bind, Access.run_pure, Access.lookups_bind, Access.lookups_pure,
      List.append_nil, Except.ok.injEq]
    obtain ⟨hfrugal, hcached⟩ := hload { d with store := (d.store.all limit).2 } rfl
    exact ⟨hfrugal, fun ps hps => hps ▸ hcached⟩
  | error f => exact ⟨.of_cache rfl, fun _ h => by cases h⟩

theorem persist_spares (d : Desk) (o : Order) :
    (persist o).lookups d = [] ∧ Frugal d [] ((persist o).run d).2 ∧
      ∀ p ∈ written o ((persist o).run d).1, ((persist o).run d).2.Caches p.uid := by
  simp only [persist, Access.run_bind, Access.run_perform, Step.run, Store.upsert,
    Access.lookups_bind, Access.lookups_perform]
  cases d.store.upsertFailures with
  | cons e rest => exact ⟨rfl, .of_cache rfl, fun p hp => absurd hp List.not_mem_nil⟩
  | nil =>
    refine ⟨rfl, .of_kept fun uid hc => (caches_set d _).2 (.inr hc), fun p hp => ?_⟩
    obtain rfl := List.mem_singleton.1 hp
    exact (caches_set d _).2 (.inl rfl)

theorem Persists.frugal {os : List Order} (h : Persists d os e) :
    Frugal d [] e ∧ e.store.orderCalls = d.store.orderCalls ∧ ∀ o ∈ os, e.Caches o.uid := by
  induction h with
  | still hs hc =>
    exact ⟨.of_cache hc, congrArg Store.orderCalls hs, fun o ho => absurd ho List.not_mem_nil⟩
  | persist d o =>
    obtain ⟨hl, hfrugal, hcached⟩ := persist_spares d o
    have hcalls := (Desk.persist o).orderCalls_run d
    rw [hl] at hcalls
    exact ⟨hfrugal, hcalls, hcached⟩
  | trans _ _ ih ihs =>
    obtain ⟨hfirst, hcalls, hcached⟩ := ih
    obtain ⟨hrest, hmore, hcachedRest⟩ := ihs
    refine ⟨hfirst.trans hrest, hmore.trans hcalls, ?_⟩
    exact List.forall_mem_append.2 ⟨fun o ho => hrest.kept _ (hcached o ho), hcachedRest⟩

end Desk

end OrderDesk
