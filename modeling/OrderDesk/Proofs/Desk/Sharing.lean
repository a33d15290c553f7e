import OrderDesk.Desk.Crowd
import OrderDesk.Proofs.Desk.Coherence
import OrderDesk.Proofs.Desk.Versions

/-!
Programs at a desk that is shared. A client works with versions of an order whatever steps of others
come in between, so nothing is cached that is no version's.
-/

namespace OrderDesk

open Access (perform)

def Impact.stored? : Impact → Option Order
  | .stored v => some v
  | _ => Option.none

def Impact.cached? : Impact → Option Order
  | .cached c => some c
  | _ => Option.none

/-! ## Steps -/

namespace Step

variable {α : Type}

theorem shelf_run (s : Step α) (d : Desk) :
    (s.run d).2.store.shelf =
      (s.impact (s.run d).1).stored?.toList.foldl Shelf.insert d.store.shelf := by
  cases s with
  | storeOrder o =>
    cases h : d.store.upsertFailures <;> simp [run, Store.upsert, h, impact, Impact.stored?]
  | _ => rfl

theorem cache_run (s : Step α) (d : Desk) :
    (s.run d).2.cache.shelf =
      (s.impact (s.run d).1).cached?.toList.foldl Shelf.insert d.cache.shelf := by
  cases s with
  | storeOrder o =>
    cases h : d.store.upsertFailures <;> simp [run, Store.upsert, h, impact, Impact.cached?]
  | _ => rfl

theorem given_le_run (s : Step α) (d : Desk) : d.store.given ≤ (s.run d).2.store.given := by
  cases s with
  | storeOrder o => cases h : d.store.upsertFailures <;> simp [run, Store.upsert, h]
  | _ => exact le_rfl

end Step

/-! ## Versions at the desk -/

/-- The header of one version and a block of the items of one, be it another. -/
structure Order.Pieced (c : Order) (vs : List Order) : Prop where
  header : ∃ v ∈ vs, c.withoutItems = v.withoutItems
  items : ∃ v ∈ vs, c.items <:+: v.items

theorem Order.Pieced.mono {c : Order} {vs us : List Order} (h : c.Pieced vs) (hus : vs ⊆ us) :
    c.Pieced us where
  header := h.header.imp fun _ hv => ⟨hus hv.1, hv.2⟩
  items := h.items.imp fun _ hv => ⟨hus hv.1, hv.2⟩

theorem Order.pieced_singleton_iff {c v : Order} : c.Pieced [v] ↔ c.Excerpt v := by
  constructor
  · rintro ⟨⟨u, hu, hheader⟩, w, hw, hitems⟩
    obtain rfl := List.mem_singleton.1 hu
    obtain rfl := List.mem_singleton.1 hw
    exact ⟨hheader, hitems⟩
  · rintro ⟨hheader, hitems⟩
    exact ⟨⟨v, by simp, hheader⟩, v, by simp, hitems⟩

structure Desk.Holds (d : Desk) (uid : String) (vs : List Order) : Prop where
  uid_eq : ∀ v ∈ vs, v.uid = uid
  numbered : ∀ v ∈ vs, Store.Numbered d.store.given v
  stored : ∀ o, d.store.shelf.find? uid = some o → o ∈ vs
  cached : ∀ c, d.cache.shelf.find? uid = some c → c.Pieced vs

namespace Desk.Holds

variable {d e : Desk} {uid : String} {vs : List Order} {c o : Order}

theorem of_coherent (h : d.Coherent) (uid : String) :
    d.Holds uid (d.store.shelf.find? uid).toList where
  uid_eq v hv := Shelf.uid_of_find? (Option.mem_toList.1 hv)
  numbered v hv := h.numbered uid v (Option.mem_toList.1 hv)
  stored o ho := Option.mem_toList.2 ho
  cached c hc := by
    obtain ⟨o, ho, hex⟩ := h.cached uid c hc
    rw [ho]
    exact Order.pieced_singleton_iff.2 hex

theorem of_same (h : d.Holds uid vs) (hg : d.store.given ≤ e.store.given)
    (hs : e.store.shelf = d.store.shelf) (hc : e.cache.shelf = d.cache.shelf) :
    e.Holds uid vs where
  uid_eq := h.uid_eq
  numbered v hv := (h.numbered v hv).mono hg
  stored := by rw [hs]; exact h.stored
  cached := by rw [hc]; exact h.cached

theorem cache (h : d.Holds uid vs) (hp : c.Pieced vs) :
    Holds { d with cache := d.cache.set c } uid vs where
  uid_eq := h.uid_eq
  numbered := h.numbered
  stored := h.stored
  cached b hb := by
    simp only [Cache.set, Shelf.find?_insert] at hb
    split at hb
    · obtain rfl := Option.some.inj hb
      exact hp
    · exact h.cached b hb

theorem store (h : d.Holds uid vs) (ho : o.uid = uid) (hf : d.store.upsertFailures = []) :
    Holds { d with store := (d.store.upsert o).2 } uid (vs ++ [Store.stored d.store.given o]) := by
  have hup : d.Holds uid vs → ∀ v ∈ vs ++ [Store.stored d.store.given o],
      v.uid = uid ∧ Store.Numbered (d.store.given + o.items.length) v := by
    intro h v hv
    rcases List.mem_append.1 hv with hv | hv
    · exact ⟨h.uid_eq v hv, (h.numbered v hv).mono (Nat.le_add_right ..)⟩
    · obtain rfl := List.mem_singleton.1 hv
      exact ⟨ho, Store.numbered_stored _ _⟩
  refine ⟨fun v hv => (hup h v hv).1, fun v hv => ?_, fun b hb => ?_, fun c hc => ?_⟩
  · simp only [Store.upsert, hf]
    exact (hup h v hv).2
  · simp only [Store.upsert, hf, Shelf.find?_insert] at hb
    split at hb
    · obtain rfl := Option.some.inj hb
      simp
    · exact List.mem_append_left _ (h.stored b hb)
  · exact (h.cached c hc).mono (List.subset_append_left ..)

theorem of_found {v : Order} (h : d.Holds uid vs) (hs : d.store.shelf.find? uid = some v)
    (hc : d.cache.shelf.find? uid = some v) : d.Holds uid [v] where
  uid_eq u hu := List.mem_singleton.1 hu ▸ h.uid_eq v (h.stored v hs)
  numbered u hu := List.mem_singleton.1 hu ▸ h.numbered v (h.stored v hs)
  stored o ho := List.mem_singleton.2 (Option.some.inj (ho.symm.trans hs))
  cached c hcc := by
    obtain rfl := Option.some.inj (hcc.symm.trans hc)
    exact Order.pieced_singleton_iff.2 (.refl c)

end Desk.Holds

/-! ## Programs among others -/

namespace Access

variable {α β : Type} {uid : String} {vs : List Order} {last limit : Int64}

/-- A program that stores and caches versions of an order only, and ends as it is said to, whatever
versions others store before each of its steps. -/
def Keeps (uid : String) (Q : α → List Order → Prop) : Access α → List Order → Prop
  | .done a, vs => Q a vs
  | .step s next, vs => ∀ us d, vs ⊆ us → d.Holds uid us → (s.run d).2.store.given < 2 ^ 63 →
      (s.run d).2.Holds uid (us ++ (s.impact (s.run d).1).stored?.toList) ∧
        (next (s.run d).1).Keeps uid Q (us ++ (s.impact (s.run d).1).stored?.toList)

theorem keeps_bind {Q : β → List Order → Prop} {p : Access α} {f : α → Access β}
    (h : p.Keeps uid (fun a us => (f a).Keeps uid Q us) vs) : (p >>= f).Keeps uid Q vs := by
  change (p.bind f).Keeps uid Q vs
  induction p generalizing vs with
  | done a => exact h
  | step s next ih =>
    intro us d hus hd hn
    obtain ⟨hholds, hnext⟩ := h us d hus hd hn
    exact ⟨hholds, ih _ hnext⟩

theorem Keeps.mono {Q : α → List Order → Prop} (hQ : ∀ a vs us, vs ⊆ us → Q a vs → Q a us)
    {p : Access α} {us : List Order} (h : p.Keeps uid Q vs) (hus : vs ⊆ us) : p.Keeps uid Q us := by
  cases p with
  | done a => exact hQ a vs us hus h
  | step s next => exact fun ws d hws => h ws d (List.Subset.trans hus hws)

theorem keeps_perform {Q : α → List Order → Prop} {s : Step α}
    (hs : ∀ d, (s.impact (s.run d).1).stored? = none)
    (h : ∀ us d, vs ⊆ us → d.Holds uid us → d.store.given < 2 ^ 63 →
      (s.run d).2.Holds uid us ∧ Q (s.run d).1 us) : (perform s).Keeps uid Q vs := by
  intro us d hus hd hn
  rw [hs d, Option.toList_none, List.append_nil]
  exact h us d hus hd ((s.given_le_run d).trans_lt hn)

theorem keeps_note {Q : Unit → List Order → Prop} (e : Event) (h : ∀ us, vs ⊆ us → Q () us) :
    (perform (.note e)).Keeps uid Q vs :=
  keeps_perform (fun _ => rfl) fun us _ hus hd _ => ⟨hd.of_same le_rfl rfl rfl, h us hus⟩

theorem keeps_count {Q : Unit → List Order → Prop} (c : Counter) (h : ∀ us, vs ⊆ us → Q () us) :
    (perform (.count c)).Keeps uid Q vs :=
  keeps_perform (fun _ => rfl) fun us _ hus hd _ => ⟨hd.of_same le_rfl rfl rfl, h us hus⟩

theorem keeps_cachedOrder {Q : Except OrderError Order → List Order → Prop}
    (h : ∀ us, vs ⊆ us → ∀ o, (∃ v ∈ us, o.withoutItems = v.withoutItems) → Q (.ok o) us)
    (he : ∀ us, vs ⊆ us → ∀ e, Q (.error e) us) :
    (perform (.cachedOrder uid)).Keeps uid Q vs := by
  refine keeps_perform (fun _ => rfl) fun us d hus hd _ => ⟨hd, ?_⟩
  change Q (d.cache.order uid) us
  cases ho : d.cache.order uid with
  | error e => exact he us hus e
  | ok o =>
    obtain ⟨c, hc, rfl⟩ := Cache.order_eq_ok_iff.1 ho
    exact h us hus _ (hd.cached c hc).header

theorem keeps_storedOrder {Q : Except OrderError Order → List Order → Prop}
    (h : ∀ us, vs ⊆ us → ∀ o, o.Pieced us → Q (.ok o) us)
    (he : ∀ us, vs ⊆ us → ∀ e, Q (.error e) us) :
    (perform (.storedOrder uid)).Keeps uid Q vs := by
  refine keeps_perform (fun _ => rfl) fun us d hus hd _ => ⟨hd.of_same le_rfl rfl rfl, ?_⟩
  change Q (d.store.order uid).1 us
  cases ho : (d.store.order uid).1 with
  | error e => exact he us hus e
  | ok o =>
    obtain ⟨-, b, hb, rfl⟩ := Store.order_eq_ok_iff.1 ho
    exact h us hus _ ⟨⟨b, hd.stored b hb, rfl⟩, b, hd.stored b hb, List.nil_infix⟩

theorem keeps_cachedItems {Q : Except OrderError (List Item) → List Order → Prop}
    (h : ∀ us, vs ⊆ us → ∀ r, Q r us) :
    (perform (.cachedItems uid last limit)).Keeps uid Q vs :=
  keeps_perform (fun _ => rfl) fun us _ hus hd _ => ⟨hd, h us hus _⟩

theorem keeps_storedItems {Q : Except OrderError (List Item) → List Order → Prop}
    (h : ∀ us, vs ⊆ us → ∀ page, (page = [] ∨ ∃ v ∈ us, page <:+: v.items) → Q (.ok page) us)
    (he : ∀ us, vs ⊆ us → ∀ e, Q (.error e) us) :
    (perform (.storedItems uid last limit)).Keeps uid Q vs := by
  refine keeps_perform (fun _ => rfl) fun us d hus hd hn => ⟨hd.of_same le_rfl rfl rfl, ?_⟩
  change Q (d.store.items uid last limit).1 us
  cases hp : (d.store.items uid last limit).1 with
  | error e => exact he us hus e
  | ok page =>
    obtain ⟨-, rfl⟩ := Store.items_eq_ok_iff.1 hp
    refine h us hus _ ?_
    cases hb : d.store.shelf.find? uid with
    | none => exact .inl (by simp only [Store.page, hb])
    | some b =>
      have hmem := hd.stored b hb
      rw [Desk.Store.page_of_find? hb]
      exact .inr ⟨b, hmem, Page.block_select ((hd.numbered b hmem).ascending hn) last limit⟩

theorem keeps_cacheOrder {Q : Unit → List Order → Prop} {c : Order} (hc : c.Pieced vs)
    (h : ∀ us, vs ⊆ us → Q () us) : (perform (.cacheOrder c)).Keeps uid Q vs :=
  keeps_perform (fun _ => rfl) fun us _ hus hd _ => ⟨hd.cache (hc.mono hus), h us hus⟩

theorem keeps_storeOrder {Q : Except OrderError Order → List Order → Prop} {o : Order}
    (ho : o.uid = uid) (h : ∀ us, vs ⊆ us → ∀ v ∈ us, Q (.ok v) us)
    (he : ∀ us, vs ⊆ us → ∀ e, Q (.error e) us) : (perform (.storeOrder o)).Keeps uid Q vs := by
  intro us d hus hd _
  cases hf : d.store.upsertFailures with
  | nil =>
    have hrun : (Step.storeOrder o).run d = (.ok (Store.stored d.store.given o),
        { d with store := (d.store.upsert o).2 }) := by simp only [Step.run, Store.upsert, hf]
    rw [hrun]
    refine ⟨hd.store ho hf, h _ (List.Subset.trans hus (List.subset_append_left ..)) _ ?_⟩
    simp [Step.impact, Impact.stored?]
  | cons e rest =>
    have hrun : (Step.storeOrder o).run d = (.error e, { d with store := (d.store.upsert o).2 }) := by
      simp only [Step.run, Store.upsert, hf]
    rw [hrun]
    simp only [Step.impact, Impact.stored?, Option.toList_none, List.append_nil]
    refine ⟨hd.of_same ?_ ?_ rfl, he us hus e⟩ <;> simp only [Store.upsert, hf, le_rfl]

end Access

namespace Desk

variable {uid : String} {vs : List Order}

theorem keeps_readOrder (uid : String) (vs : List Order) :
    (readOrder uid).Keeps uid (fun _ _ => True) vs := by
  refine Access.keeps_bind (Access.keeps_note _ fun us _ => ?_)
  refine Access.keeps_bind (Access.keeps_cachedOrder (fun us _ o _ => ?_) fun us _ e => ?_)
  · exact Access.keeps_bind (Access.keeps_count _ fun _ _ => trivial)
  · refine Access.keeps_bind (Access.keeps_count _ fun us _ => ?_)
    refine Access.keeps_bind (Access.keeps_storedOrder (fun us _ o ho => ?_) fun us _ e => ?_)
    · exact Access.keeps_bind (Access.keeps_cacheOrder ho fun _ _ => trivial)
    · exact Access.keeps_bind (Access.keeps_note _ fun _ _ => trivial)

theorem keeps_headerForPage {Q : Except OrderError Order → List Order → Prop}
    (h : ∀ us, vs ⊆ us → ∀ o, (∃ v ∈ us, o.withoutItems = v.withoutItems) → Q (.ok o) us)
    (he : ∀ us e, Q (.error e) us) : (headerForPage uid).Keeps uid Q vs := by
  refine Access.keeps_bind (Access.keeps_cachedOrder h fun us hus e => ?_)
  refine Access.keeps_storedOrder (fun ws hws o ho => ?_) fun us _ e => he us e
  exact h ws (List.Subset.trans hus hws) o ho.header

theorem keeps_fetchItems (uid : String) (last limit : Int64) (vs : List Order) :
    (fetchItems uid last limit).Keeps uid (fun _ _ => True) vs := by
  refine Access.keeps_bind (Access.keeps_count _ fun us _ => ?_)
  refine Access.keeps_bind
    (Access.keeps_storedItems (fun us _ page hpage => ?_) fun us _ e => ?_)
  · refine Access.keeps_bind (Access.keeps_bind ?_)
    refine keeps_headerForPage (fun ws hws o ho => ?_) fun us e => ?_
    · refine Access.keeps_cacheOrder ⟨ho, ?_⟩ fun _ _ => trivial
      rcases hpage with rfl | ⟨v, hv, hblock⟩
      · obtain ⟨u, hu, -⟩ := ho
        exact ⟨u, hu, List.nil_infix⟩
      · exact ⟨v, hws hv, hblock⟩
    · exact Access.keeps_note _ fun _ _ => trivial
  · exact Access.keeps_bind (Access.keeps_note _ fun _ _ => trivial)

theorem keeps_readItems (uid : String) (last limit : Int64) (vs : List Order) :
    (readItems uid last limit).Keeps uid (fun _ _ => True) vs := by
  refine Access.keeps_bind (Access.keeps_note _ fun us _ => ?_)
  refine Access.keeps_bind (Access.keeps_cachedItems fun us _ r => ?_)
  split
  · exact Access.keeps_bind (Access.keeps_count _ fun _ _ => trivial)
  · exact keeps_fetchItems uid last limit us

theorem keeps_persist {o : Order} (ho : o.uid = uid) (vs : List Order) :
    (persist o).Keeps uid (fun _ _ => True) vs := by
  refine Access.keeps_bind (Access.keeps_storeOrder ho (fun us _ v hv => ?_) fun us _ e => ?_)
  · refine Access.keeps_bind (Access.keeps_note _ fun ws hws => ?_)
    have hpieced : v.Pieced us := ⟨⟨v, hv, rfl⟩, v, hv, List.infix_rfl⟩
    exact Access.keeps_bind (Access.keeps_cacheOrder (hpieced.mono hws) fun _ _ => trivial)
  · trivial

end Desk

def Client.Keeps (c : Client) (uid : String) (vs : List Order) : Prop :=
  c.rest.Keeps uid (fun _ _ => True) vs

theorem Client.Keeps.mono {c : Client} {uid : String} {vs us : List Order} (h : c.Keeps uid vs)
    (hus : vs ⊆ us) : c.Keeps uid us :=
  Access.Keeps.mono (fun _ _ _ _ _ => trivial) h hus

theorem Visit.keeps {uid : String} (x : Visit uid) (vs : List Order) : x.client.Keeps uid vs := by
  cases x with
  | readOrder => exact Desk.keeps_readOrder uid vs
  | readItems last limit => exact Desk.keeps_readItems uid last limit vs
  | persist o huid => exact Desk.keeps_persist huid vs

end OrderDesk
